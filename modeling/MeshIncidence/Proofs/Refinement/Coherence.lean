/-
# Coherent faces

A face is known by its vertices alone, whatever the order in which elements go around it.
Two elements could go around the same four vertices along different sides. Where they never
do, the faces of a mesh are coherent, and the middles that the center of a face is linked to
are those of one cycle of sides.

Then the links of a vertex of the refined mesh depend on nothing but the vertex, and so do
the new edges and faces that end there: elements that share two ends of an interval share
the interval. The faces of a refined mesh are coherent always, since the ranks of the
vertices of a new face tell its sides.
-/

import MeshIncidence.Proofs.Refinement.Intervals
import Mathlib.Data.Finset.Dedup
import Mathlib.Data.List.GetD

namespace MeshIncidence

/-- The sides of a face as unordered pairs of vertices. -/
def boundary (vertices : List Nat) : List (Nat × Nat) :=
  (sides vertices).map fun side => PairNumbering.key side.1 side.2

theorem mem_of_mem_sides {vertices : List Nat} {side : Nat × Nat} (hside : side ∈ sides vertices) :
    side.1 ∈ vertices ∧ side.2 ∈ vertices := by
  obtain ⟨hfirst, hsecond⟩ := List.of_mem_zip (a := side.1) (b := side.2) hside
  refine ⟨hfirst, ?_⟩
  rcases List.mem_append.mp hsecond with hsecond | hsecond
  · exact List.mem_of_mem_drop hsecond
  · exact List.mem_of_mem_take hsecond

namespace ElementMesh

variable (mesh : ElementMesh)

/-- Local faces with the same vertices have the same sides. -/
def HasCoherentFaces : Prop :=
  ∀ first ∈ mesh.localFaces, ∀ second ∈ mesh.localFaces,
    first.toFinset = second.toFinset → (boundary first).toFinset = (boundary second).toFinset

instance : Decidable mesh.HasCoherentFaces :=
  inferInstanceAs (Decidable (∀ first ∈ mesh.localFaces, ∀ second ∈ mesh.localFaces,
    first.toFinset = second.toFinset → (boundary first).toFinset = (boundary second).toFinset))

/-- The rank of the places that a vertex of the refined mesh can be at. -/
def rankOf (vertex : Nat) : Nat :=
  if vertex < mesh.middleVertex 0 then 0
  else if vertex < mesh.faceVertex 0 then 1
  else if vertex < mesh.centerVertex 0 then 2
  else 3

/-- A mesh whose refinement shares just what the mesh shares. -/
structure IsRegular (shape : CellShape) : Prop where
  sound : mesh.Sound
  uniform : mesh.IsUniform shape
  distinct : mesh.HasDistinctCorners
  coherent : mesh.HasCoherentFaces

variable {mesh} {shape : CellShape} {element other : Element} {index position : Nat}

theorem rankOf_vertexAt (hsound : mesh.Sound) (huniform : mesh.IsUniform shape)
    (helement : mesh.elements[index]? = some element) {place : Place}
    (hplace : place ∈ shape.places) :
    mesh.rankOf (mesh.vertexAt element index place) = place.rank := by
  have hallots := allots_vertexAt hsound huniform helement (CellShape.mem_places_iff.mp hplace)
  cases place <;> simp only [Allots] at hallots <;>
    grind [rankOf, middleVertex, faceVertex, centerVertex, Place.rank]

theorem lt_of_rankOf_lt {first second : Nat} (hrank : mesh.rankOf first < mesh.rankOf second) :
    first < second := by
  grind [rankOf, middleVertex, faceVertex, centerVertex]

/-- A place of lower rank has a smaller vertex. -/
theorem vertexAt_lt_vertexAt (hsound : mesh.Sound) (huniform : mesh.IsUniform shape)
    (helement : mesh.elements[index]? = some element) {bottom top : Place}
    (hbottom : bottom ∈ shape.places) (htop : top ∈ shape.places)
    (hrank : bottom.rank < top.rank) :
    mesh.vertexAt element index bottom < mesh.vertexAt element index top := by
  rw [← rankOf_vertexAt hsound huniform helement hbottom,
    ← rankOf_vertexAt hsound huniform helement htop] at hrank
  exact lt_of_rankOf_lt hrank

/-- The middle of an edge is linked to the ends of the edge. -/
theorem map_links_middle (edge : Nat) :
    (shape.links (.middle edge)).map (mesh.vertexAt element index) =
      [element.corner (shape.edges.getD edge (0, 0)).1,
        element.corner (shape.edges.getD edge (0, 0)).2] := rfl

/-- The center of a face is linked to the middles of the sides of the face. -/
theorem map_links_faceCenter (helement : element ∈ mesh.elements) (hshape : element.shape = shape)
    {face : Nat} {corners : List Nat} (hcorners : shape.faces[face]? = some corners) :
    (shape.links (.faceCenter face)).map (mesh.vertexAt element index) =
      (boundary (corners.map element.corner)).map fun key =>
        mesh.middleVertex (mesh.edgeKeys.idxOf key) := by
  rw [CellShape.links, List.getD_eq_getElem?_getD, hcorners, Option.getD_some, boundary, sides_map,
    List.map_map, List.map_map, List.map_map]
  apply List.map_congr_left
  intro side hside
  have hedge := shape.side_mem_edges corners (List.mem_of_getElem? hcorners) side hside
  exact congrArg mesh.middleVertex (edgeAt_edgeBetween helement hshape hedge)

theorem map_corner_mem_localFaces (helement : element ∈ mesh.elements)
    (hshape : element.shape = shape) {face : Nat} {corners : List Nat}
    (hcorners : shape.faces[face]? = some corners) :
    corners.map element.corner ∈ mesh.localFaces :=
  List.mem_flatMap.mpr
    ⟨element, helement, List.mem_of_getElem? (Element.getElem?_faces hshape hcorners)⟩

/-- Local faces with the same number have the same sides. -/
theorem mem_boundary_of_faceAt_eq (hcoherent : mesh.HasCoherentFaces)
    (helement : element ∈ mesh.elements) (hshape : element.shape = shape)
    (hother : other ∈ mesh.elements) (hsame : other.shape = shape) {face otherFace : Nat}
    {corners otherCorners : List Nat} (hcorners : shape.faces[face]? = some corners)
    (hotherCorners : shape.faces[otherFace]? = some otherCorners)
    (hequal : mesh.faceAt element face = mesh.faceAt other otherFace) {key : Nat × Nat} :
    key ∈ boundary (corners.map element.corner) →
      key ∈ boundary (otherCorners.map other.corner) := by
  have hfirst := getElem?_faceAt helement hshape hcorners
  have hsecond := getElem?_faceAt hother hsame hotherCorners
  rw [hequal, hsecond, Option.some.injEq, ascending_eq_ascending_iff] at hfirst
  have hboundary := hcoherent _ (map_corner_mem_localFaces helement hshape hcorners) _
    (map_corner_mem_localFaces hother hsame hotherCorners)
    (List.toFinset_eq_of_perm _ _ hfirst.symm)
  intro hkey
  rw [← List.mem_toFinset] at hkey ⊢
  rwa [← hboundary]

/-- How places of two elements can have the same vertex: they are of one sort, and the edges
or faces that they lie in the middle of are the same. -/
inductive Coincide (mesh : ElementMesh) (shape : CellShape) (element other : Element)
    (index position : Nat) : Place → Place → Prop
  | corner {first second : Nat} (hcorner : element.corner first = other.corner second) :
      Coincide mesh shape element other index position (.corner first) (.corner second)
  | middle {first second : Nat} (hfirst : first < shape.edges.length)
      (hsecond : second < shape.edges.length)
      (hedge : mesh.edgeAt element first = mesh.edgeAt other second) :
      Coincide mesh shape element other index position (.middle first) (.middle second)
  | faceCenter {first second : Nat} (hfirst : first < shape.faces.length)
      (hsecond : second < shape.faces.length)
      (hface : mesh.faceAt element first = mesh.faceAt other second) :
      Coincide mesh shape element other index position (.faceCenter first) (.faceCenter second)
  | center (hindex : index = position) (hsame : element = other) :
      Coincide mesh shape element other index position .center .center

theorem coincide_of_vertexAt_eq (hsound : mesh.Sound) (huniform : mesh.IsUniform shape)
    (helement : mesh.elements[index]? = some element)
    (hother : mesh.elements[position]? = some other) {place same : Place}
    (hplace : place ∈ shape.places) (hsame : same ∈ shape.places)
    (hequal : mesh.vertexAt element index place = mesh.vertexAt other position same) :
    mesh.Coincide shape element other index position place same := by
  have hrank : place.rank = same.rank := by
    rw [← rankOf_vertexAt hsound huniform helement hplace, hequal,
      rankOf_vertexAt hsound huniform hother hsame]
  cases place <;> cases same
  case corner.corner => exact .corner hequal
  case middle.middle =>
      exact .middle (CellShape.middle_mem_places.mp hplace) (CellShape.middle_mem_places.mp hsame)
        (Nat.add_left_cancel hequal)
  case faceCenter.faceCenter =>
      exact .faceCenter (CellShape.faceCenter_mem_places.mp hplace)
        (CellShape.faceCenter_mem_places.mp hsame) (Nat.add_left_cancel hequal)
  case center.center =>
      have hindex : index = position := Nat.add_left_cancel hequal
      subst hindex
      exact .center rfl (Option.some.inj (helement.symm.trans hother))
  all_goals exact absurd hrank (by simp [Place.rank])

/-- Within one element the vertex tells the place. -/
theorem IsRegular.vertexAt_inj (hregular : mesh.IsRegular shape)
    (helement : mesh.elements[index]? = some element) {first second : Place}
    (hfirst : first ∈ shape.places) (hsecond : second ∈ shape.places)
    (hequal : mesh.vertexAt element index first = mesh.vertexAt element index second) :
    first = second :=
  ElementMesh.vertexAt_inj hregular.sound hregular.uniform helement
    (hregular.distinct element (List.mem_of_getElem? helement))
    (CellShape.mem_places_iff.mp hfirst) (CellShape.mem_places_iff.mp hsecond) hequal

/-- The links of a vertex of the refined mesh do not depend on the place taken for it. -/
theorem IsRegular.mem_map_links (hregular : mesh.IsRegular shape)
    (helement : mesh.elements[index]? = some element)
    (hother : mesh.elements[position]? = some other) {place same : Place}
    (hplace : place ∈ shape.places) (hsame : same ∈ shape.places)
    (hequal : mesh.vertexAt element index place = mesh.vertexAt other position same) {vertex : Nat}
    (hvertex : vertex ∈ (shape.links place).map (mesh.vertexAt element index)) :
    vertex ∈ (shape.links same).map (mesh.vertexAt other position) := by
  have hmember := List.mem_of_getElem? helement
  have hotherMember := List.mem_of_getElem? hother
  have hshape := hregular.uniform.shape_eq element hmember
  have hotherShape := hregular.uniform.shape_eq other hotherMember
  cases coincide_of_vertexAt_eq hregular.sound hregular.uniform helement hother hplace hsame
    hequal with
  | corner => simp [CellShape.links] at hvertex
  | middle hfirst hsecond hedge =>
      have hends := getElem?_edgeAt hmember hshape (List.getElem?_eq_getElem hfirst)
      have hotherEnds := getElem?_edgeAt hotherMember hotherShape (List.getElem?_eq_getElem hsecond)
      rw [hedge, hotherEnds, Option.some.injEq, PairNumbering.key_eq_key_iff] at hends
      simp only [map_links_middle, List.getD_eq_getElem _ _ hfirst,
        List.getD_eq_getElem _ _ hsecond, List.mem_cons, List.not_mem_nil, or_false] at hvertex ⊢
      omega
  | faceCenter hfirst hsecond hface =>
      have hcorners := List.getElem?_eq_getElem hfirst
      have hotherCorners := List.getElem?_eq_getElem hsecond
      rw [map_links_faceCenter hmember hshape hcorners] at hvertex
      rw [map_links_faceCenter hotherMember hotherShape hotherCorners]
      obtain ⟨key, hkey, rfl⟩ := List.mem_map.mp hvertex
      exact List.mem_map_of_mem (mem_boundary_of_faceAt_eq hregular.coherent hmember hshape
        hotherMember hotherShape hcorners hotherCorners hface hkey)
  | center hindex helementEq => rwa [← hindex, ← helementEq]

/-- Nor do the vertices of an interval depend on the places taken for its ends. -/
theorem IsRegular.mem_map_interval (hregular : mesh.IsRegular shape)
    (helement : mesh.elements[index]? = some element)
    (hother : mesh.elements[position]? = some other) {bottom top low high : Place}
    (htop : top ∈ shape.places) (hlow : low ∈ shape.places) (hhigh : high ∈ shape.places)
    (hbottomEq : mesh.vertexAt element index bottom = mesh.vertexAt other position low)
    (htopEq : mesh.vertexAt element index top = mesh.vertexAt other position high) {vertex : Nat}
    (hvertex : vertex ∈ (shape.interval bottom top).map (mesh.vertexAt element index)) :
    vertex ∈ (shape.interval low high).map (mesh.vertexAt other position) := by
  have hsplit := hregular.uniform.splits
  obtain ⟨place, hplace, rfl⟩ := List.mem_map.mp hvertex
  rcases CellShape.mem_interval.mp hplace with rfl | ⟨habove, hbelow⟩ | rfl
  · rw [hbottomEq]
    exact List.mem_map_of_mem (CellShape.mem_interval.mpr (.inl rfl))
  · have hlinked := hregular.mem_map_links helement hother htop hhigh htopEq
      (List.mem_map_of_mem habove)
    obtain ⟨same, hsame, hequal⟩ := List.mem_map.mp hlinked
    have hsamePlace := CellShape.mem_places_of_mem_links hsplit hhigh hsame
    have hunder := hregular.mem_map_links helement hother
      (CellShape.mem_places_of_mem_links hsplit htop habove) hsamePlace hequal.symm
      (List.mem_map_of_mem hbelow)
    obtain ⟨under, hunder, hunderEq⟩ := List.mem_map.mp hunder
    have hunderPlace := CellShape.mem_places_of_mem_links hsplit hsamePlace hunder
    have hends : under = low :=
      hregular.vertexAt_inj hother hunderPlace hlow (hunderEq.trans hbottomEq)
    rw [← hequal]
    exact List.mem_map_of_mem (CellShape.mem_interval.mpr (.inr (.inl ⟨hsame, hends ▸ hunder⟩)))
  · rw [htopEq]
    exact List.mem_map_of_mem (CellShape.mem_interval.mpr (.inr (.inr rfl)))

/-- An interval of an element has no vertex twice. -/
theorem IsRegular.nodup_map_interval (hregular : mesh.IsRegular shape)
    (helement : mesh.elements[index]? = some element) {bottom top : Place}
    (hbottom : bottom ∈ shape.places) (htop : top ∈ shape.places)
    (hrank : bottom.rank < top.rank) :
    ((shape.interval bottom top).map (mesh.vertexAt element index)).Nodup := by
  have hsplit := hregular.uniform.splits
  have hon {place : Place} (hplace : place ∈ shape.interval bottom top) : place ∈ shape.places :=
    CellShape.mem_places_of_mem_interval hsplit hbottom htop hplace
  apply (CellShape.nodup_interval hsplit htop hrank).map_on
  intro first hfirst second hsecond hequal
  exact hregular.vertexAt_inj helement (hon hfirst) (hon hsecond) hequal

/-- Intervals with the same vertices at their ends have the same vertices. -/
theorem IsRegular.map_interval_perm (hregular : mesh.IsRegular shape)
    (helement : mesh.elements[index]? = some element)
    (hother : mesh.elements[position]? = some other) {bottom top low high : Place}
    (hbottom : bottom ∈ shape.places) (htop : top ∈ shape.places) (hrank : bottom.rank < top.rank)
    (hlow : low ∈ shape.places) (hhigh : high ∈ shape.places) (hotherRank : low.rank < high.rank)
    (hbottomEq : mesh.vertexAt element index bottom = mesh.vertexAt other position low)
    (htopEq : mesh.vertexAt element index top = mesh.vertexAt other position high) :
    ((shape.interval bottom top).map (mesh.vertexAt element index)).Perm
      ((shape.interval low high).map (mesh.vertexAt other position)) := by
  rw [List.perm_ext_iff_of_nodup (hregular.nodup_map_interval helement hbottom htop hrank)
    (hregular.nodup_map_interval hother hlow hhigh hotherRank)]
  intro vertex
  exact ⟨hregular.mem_map_interval helement hother htop hlow hhigh hbottomEq htopEq,
    hregular.mem_map_interval hother helement hhigh hbottom htop hbottomEq.symm htopEq.symm⟩

/-- The sides of a face of the refined mesh join its vertices of neighboring ranks. -/
theorem mem_boundary_refinement (hsound : mesh.Sound) (huniform : mesh.IsUniform shape)
    {vertices : List Nat} (hface : vertices ∈ (mesh.refinement shape).localFaces)
    {key : Nat × Nat} :
    key ∈ boundary vertices ↔ ∃ first ∈ vertices, ∃ second ∈ vertices,
      mesh.rankOf first + 1 = mesh.rankOf second ∧ PairNumbering.key first second = key := by
  obtain ⟨child, hchild, hface⟩ := List.mem_flatMap.mp hface
  obtain ⟨element, index, helement, places, hplaces, rfl⟩ := mem_elements_refinement.mp hchild
  have hlength := CellShape.length_of_mem_children huniform.splits places hplaces
  obtain ⟨corners, hcorners, rfl⟩ := List.mem_map.mp hface
  have hranks : ∀ corner ∈ corners,
      mesh.rankOf ((mesh.childAt shape element index places).corner corner) =
        (places.getD corner .center).rank := by
    intro corner hcorner
    have hlt := (shape.lt_cornerCount_of_mem_faces corners hcorners).2 corner hcorner
    rw [← hlength] at hlt
    rw [corner_childAt hlt]
    apply rankOf_vertexAt hsound huniform helement
    rw [List.getD_eq_getElem _ _ hlt, CellShape.mem_places_iff]
    exact CellShape.isOn_of_mem_children huniform.splits places hplaces _ (List.getElem_mem hlt)
  have hsides := CellShape.mem_sides_iff_rank huniform.splits places hplaces corners hcorners
  rw [boundary, sides_map, List.map_map, List.mem_map]
  constructor
  · rintro ⟨⟨first, second⟩, hside, rfl⟩
    obtain ⟨hfirst, hsecond⟩ := mem_of_mem_sides hside
    rcases (hsides first hfirst second hsecond).mp (.inl hside) with hrank | hrank
    · refine ⟨_, List.mem_map_of_mem hfirst, _, List.mem_map_of_mem hsecond, ?_, rfl⟩
      rwa [hranks first hfirst, hranks second hsecond]
    · refine ⟨_, List.mem_map_of_mem hsecond, _, List.mem_map_of_mem hfirst, ?_,
        PairNumbering.key_comm _ _⟩
      rwa [hranks first hfirst, hranks second hsecond]
  · rintro ⟨_, hlower, _, hupper, hrank, rfl⟩
    obtain ⟨first, hfirst, rfl⟩ := List.mem_map.mp hlower
    obtain ⟨second, hsecond, rfl⟩ := List.mem_map.mp hupper
    rw [hranks first hfirst, hranks second hsecond] at hrank
    rcases (hsides first hfirst second hsecond).mpr (.inl hrank) with hside | hside
    · exact ⟨_, hside, rfl⟩
    · exact ⟨_, hside, PairNumbering.key_comm _ _⟩

/-- The faces of a refined mesh are coherent. -/
theorem hasCoherentFaces_refinement (hsound : mesh.Sound) (huniform : mesh.IsUniform shape) :
    (mesh.refinement shape).HasCoherentFaces := by
  intro first hfirst second hsecond hsame
  ext key
  have hmem (vertex : Nat) : vertex ∈ first ↔ vertex ∈ second := by
    rw [← List.mem_toFinset, hsame, List.mem_toFinset]
  simp only [List.mem_toFinset, mem_boundary_refinement hsound huniform hfirst,
    mem_boundary_refinement hsound huniform hsecond, hmem]

/-- A refined mesh is again regular. -/
theorem IsRegular.refinement (hregular : mesh.IsRegular shape) :
    (mesh.refinement shape).IsRegular shape where
  sound := sound_refinement hregular.sound hregular.uniform
  uniform := isUniform_refinement hregular.uniform
  distinct := hasDistinctCorners_refinement hregular.sound hregular.uniform hregular.distinct
  coherent := hasCoherentFaces_refinement hregular.sound hregular.uniform

/-- Flat elements have no faces that could be incoherent. -/
theorem hasCoherentFaces_of_quadrilateral (huniform : mesh.IsUniform .quadrilateral) :
    mesh.HasCoherentFaces := by
  intro first hfirst
  obtain ⟨element, helement, hface⟩ := List.mem_flatMap.mp hfirst
  rw [Element.faces, huniform.shape_eq element helement] at hface
  exact absurd hface (by simp [CellShape.faces])

/-- Quadrilaterals with distinct corners make a regular mesh. -/
theorem Sound.isRegular_of_quadrilaterals (hsound : mesh.Sound) (hdimension : mesh.dimension = 2)
    (hall : ∀ element ∈ mesh.elements, element.shape = .quadrilateral)
    (hdistinct : mesh.HasDistinctCorners) : mesh.IsRegular .quadrilateral :=
  have huniform : mesh.IsUniform .quadrilateral := ⟨.inl rfl, hdimension, hall⟩
  ⟨hsound, huniform, hdistinct, hasCoherentFaces_of_quadrilateral huniform⟩

/-- Hexahedra with distinct corners and coherent faces make a regular mesh. -/
theorem Sound.isRegular_of_hexahedra (hsound : mesh.Sound) (hdimension : mesh.dimension = 3)
    (hall : ∀ element ∈ mesh.elements, element.shape = .hexahedron)
    (hdistinct : mesh.HasDistinctCorners) (hcoherent : mesh.HasCoherentFaces) :
    mesh.IsRegular .hexahedron :=
  ⟨hsound, ⟨.inr rfl, hdimension, hall⟩, hdistinct, hcoherent⟩

end ElementMesh

end MeshIncidence
