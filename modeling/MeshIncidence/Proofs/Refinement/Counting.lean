/-
# How many edges and faces a refined mesh has

The numbers of edges and faces of a mesh are the lengths of lists without repetitions. Those
of a regular refined mesh are counted by listing the edges and faces another way: an
interval is told by the smallest and the largest of its vertices, the largest is a new
vertex, and the new vertices are those of the edges, the faces and the elements, each with
the vertices below it written down once.

Every edge has two vertices below its middle, every face of a hexahedron four middles and
four corners below its center, and an element as many as its shape says.
-/

import MeshIncidence.Proofs.Refinement.Extremes
import MeshIncidence.Proofs.Refinement.FaceSearch
import Mathlib.Algebra.BigOperators.Group.List.Basic
import Mathlib.Algebra.GroupWithZero.Nat

namespace MeshIncidence

/-- The vertices of each list, paired with the vertex for the list; these are counted on from
`start`. -/
def pairedUp (start : Nat) (lists : List (List Nat)) : List (Nat × Nat) :=
  (lists.zipIdx start).flatMap fun (vertices, top) => vertices.map fun vertex => (vertex, top)

section PairedUp

variable {start : Nat} {lists : List (List Nat)}

theorem mem_pairedUp {pair : Nat × Nat} :
    pair ∈ pairedUp start lists ↔
      ∃ number list, lists[number]? = some list ∧ pair.1 ∈ list ∧ pair.2 = start + number := by
  simp only [pairedUp, List.mem_flatMap, List.mem_map, Prod.exists,
    List.mk_mem_zipIdx_iff_le_and_getElem?_sub]
  constructor
  · rintro ⟨list, top, ⟨hle, hlist⟩, vertex, hvertex, rfl⟩
    exact ⟨top - start, list, hlist, hvertex, by omega⟩
  · rintro ⟨number, list, hlist, hvertex, htop⟩
    refine ⟨list, pair.2, ⟨by omega, ?_⟩, pair.1, hvertex, rfl⟩
    rwa [htop, Nat.add_sub_cancel_left]

/-- Pairs of different lists differ in the vertex for the list. -/
theorem nodup_pairedUp (hnodup : ∀ list ∈ lists, list.Nodup) : (pairedUp start lists).Nodup := by
  induction lists generalizing start with
  | nil => exact List.nodup_nil
  | cons list lists ih =>
      have hrest : (pairedUp (start + 1) lists).Nodup :=
        ih fun other hother => hnodup other (by simp [hother])
      rw [pairedUp, List.zipIdx_cons, List.flatMap_cons, List.nodup_append]
      refine ⟨(hnodup list (by simp)).map fun _ _ hequal => (Prod.mk.inj hequal).1, hrest, ?_⟩
      rintro pair hpair _ hother rfl
      obtain ⟨vertex, -, rfl⟩ := List.mem_map.mp hpair
      obtain ⟨number, -, -, -, htop⟩ := mem_pairedUp.mp hother
      simp only at htop
      omega

theorem length_pairedUp : (pairedUp start lists).length = (lists.map List.length).sum := by
  induction lists generalizing start with
  | nil => rfl
  | cons list lists ih =>
      have hrest : (pairedUp (start + 1) lists).length = _ := ih
      rw [pairedUp] at hrest
      rw [pairedUp, List.zipIdx_cons, List.flatMap_cons, List.length_append, List.length_map, hrest,
        List.map_cons, List.sum_cons]

theorem sum_map_length_of {size : Nat} (hsize : ∀ list ∈ lists, list.length = size) :
    (lists.map List.length).sum = size * lists.length := by
  rw [List.map_congr_left (g := fun _ => size) hsize, List.map_const', List.sum_replicate_nat,
    Nat.mul_comm]

end PairedUp

namespace ElementMesh

variable {mesh : ElementMesh} {shape : CellShape} {element other : Element} {index position : Nat}
  {pieces : List (List Nat)} {bottoms : Place → List Place}

/-- Lists of the vertices below the new vertices from `start` on. -/
structure Tabulates (mesh : ElementMesh) (shape : CellShape) (bottoms : Place → List Place)
    (start : Nat) (lists : List (List Nat)) : Prop where
  length_eq : start + lists.length = mesh.centerVertex mesh.elements.length
  start_le : ∀ element index, mesh.elements[index]? = some element → ∀ top ∈ shape.places,
    ∀ bottom ∈ bottoms top, start ≤ mesh.vertexAt element index top
  exists_top : ∀ number list, lists[number]? = some list →
    ∃ element index, mesh.elements[index]? = some element ∧
      ∃ top ∈ shape.places, mesh.vertexAt element index top = start + number ∧
        list.Perm ((bottoms top).map (mesh.vertexAt element index))
  /-- What is below a vertex does not depend on the place taken for it. -/
  mem_bottoms : ∀ element index other position, mesh.elements[index]? = some element →
    mesh.elements[position]? = some other → ∀ top ∈ shape.places, ∀ same ∈ shape.places,
      mesh.vertexAt element index top = mesh.vertexAt other position same →
        ∀ vertex ∈ (bottoms top).map (mesh.vertexAt element index),
          vertex ∈ (bottoms same).map (mesh.vertexAt other position)

namespace Tabulates

variable {start : Nat} {lists : List (List Nat)}

theorem mem_pairedUp_iff (htable : mesh.Tabulates shape bottoms start lists)
    (hregular : mesh.IsRegular shape) {pair : Nat × Nat} :
    pair ∈ pairedUp start lists ↔ mesh.Spans shape bottoms pair := by
  rw [mem_pairedUp]
  constructor
  · rintro ⟨number, list, hlist, hvertex, hnumber⟩
    obtain ⟨element, index, helement, top, htop, htopEq, hperm⟩ :=
      htable.exists_top number list hlist
    obtain ⟨bottom, hbottom, hbottomEq⟩ := List.mem_map.mp (hperm.mem_iff.mp hvertex)
    exact ⟨element, index, helement, top, htop, bottom, hbottom,
      Prod.ext hbottomEq.symm (hnumber.trans htopEq.symm)⟩
  · rintro ⟨element, index, helement, top, htop, bottom, hbottom, rfl⟩
    have hle := htable.start_le element index helement top htop bottom hbottom
    have hlt := (allots_vertexAt hregular.sound hregular.uniform helement
      (CellShape.mem_places_iff.mp htop)).lt_centerVertex
    rw [← htable.length_eq] at hlt
    have hlist : lists[mesh.vertexAt element index top - start]? = some _ :=
      List.getElem?_eq_getElem (by omega)
    obtain ⟨other, position, hother, same, hsame, hsameEq, hperm⟩ := htable.exists_top _ _ hlist
    refine ⟨_, _, hlist, hperm.mem_iff.mpr ?_, by simp only; omega⟩
    exact htable.mem_bottoms element index other position helement hother top htop same hsame
      (by omega) _ (List.mem_map_of_mem hbottom)

theorem nodup_pairedUp (htable : mesh.Tabulates shape bottoms start lists)
    (hregular : mesh.IsRegular shape) (hintervals : shape.HasIntervals pieces bottoms) :
    (pairedUp start lists).Nodup := by
  apply MeshIncidence.nodup_pairedUp
  intro list hlist
  obtain ⟨number, hnumber⟩ := List.mem_iff_getElem?.mp hlist
  obtain ⟨element, index, helement, top, htop, -, hperm⟩ := htable.exists_top number list hnumber
  rw [hperm.nodup_iff]
  apply (hintervals.nodup_bottoms top htop).map_on
  intro first hfirst second hsecond hequal
  exact hregular.vertexAt_inj helement (hintervals.bottom_mem top htop first hfirst)
    (hintervals.bottom_mem top htop second hsecond) hequal

end Tabulates

/-- The vertices below the center of each element. -/
def centerRows (mesh : ElementMesh) (bottoms : Place → List Place) : List (List Nat) :=
  mesh.elements.zipIdx.map fun (element, index) =>
    (bottoms .center).map (mesh.vertexAt element index)

/-- The vertices that each new vertex is linked to. -/
def linkRows (mesh : ElementMesh) (shape : CellShape) : List (List Nat) :=
  mesh.edgeRows ++ mesh.faceRows.map mesh.middles ++ mesh.centerRows shape.links

/-- The vertices two steps below each new vertex of a face or an element. -/
def footholdRows (mesh : ElementMesh) (shape : CellShape) : List (List Nat) :=
  mesh.faceRows ++ mesh.centerRows shape.footholds

theorem length_edgeRows : mesh.edgeRows.length = mesh.edgeKeys.length := by
  rw [edgeRows, List.length_map]

theorem length_centerRows : (mesh.centerRows bottoms).length = mesh.elements.length := by
  rw [centerRows, List.length_map, List.length_zipIdx]

theorem exists_of_getElem?_centerRows {number : Nat} {list : List Nat}
    (hlist : (mesh.centerRows bottoms)[number]? = some list) :
    ∃ element, mesh.elements[number]? = some element ∧
      list = (bottoms .center).map (mesh.vertexAt element number) := by
  rw [centerRows, List.getElem?_map, List.getElem?_zipIdx, Option.map_map,
    Option.map_eq_some_iff] at hlist
  obtain ⟨element, helement, rfl⟩ := hlist
  exact ⟨element, helement, by simp⟩

/-- Except at corners there are new vertices. -/
theorem vertexCount_le_vertexAt {place : Place} (hrank : 0 < place.rank) :
    mesh.vertexCount ≤ mesh.vertexAt element index place := by
  cases place with
  | corner position => simp [Place.rank] at hrank
  | _ => simp only [vertexAt, Place.vertex, middleVertex, faceVertex, centerVertex]; omega

/-- An edge is written down with the corners that some element has at its ends. -/
theorem exists_middle_of_getElem?_edgeRows (huniform : mesh.IsUniform shape) {edge : Nat}
    {list : List Nat} (hlist : mesh.edgeRows[edge]? = some list) :
    ∃ element index, mesh.elements[index]? = some element ∧ ∃ place,
      Place.middle place ∈ shape.places ∧
      mesh.vertexAt element index (.middle place) = mesh.middleVertex edge ∧
      list.Perm ((shape.links (.middle place)).map (mesh.vertexAt element index)) := by
  rw [edgeRows, List.getElem?_map, Option.map_eq_some_iff] at hlist
  obtain ⟨ends, hends, rfl⟩ := hlist
  obtain ⟨element, index, place, corners, helement, hcorners, rfl, rfl⟩ :=
    exists_of_getElem?_edgeKeys huniform hends
  obtain ⟨hplace, -⟩ := List.getElem?_eq_some_iff.mp hcorners
  refine ⟨element, index, helement, place, CellShape.middle_mem_places.mpr hplace, rfl, ?_⟩
  rw [map_links_middle, List.getD_eq_getElem?_getD, hcorners, Option.getD_some, PairNumbering.key]
  rcases Nat.le_total (element.corner corners.1) (element.corner corners.2) with hle | hle
  · rw [Nat.min_eq_left hle, Nat.max_eq_right hle]
  · rw [Nat.min_eq_right hle, Nat.max_eq_left hle]
    exact List.Perm.swap _ _ _

/-- A face is written down as some element lists it. -/
theorem exists_faceCenter_of_getElem?_faceRows (huniform : mesh.IsUniform shape) {face : Nat}
    {row : List Nat} (hrow : mesh.faceRows[face]? = some row) :
    ∃ element index, mesh.elements[index]? = some element ∧ ∃ place,
      Place.faceCenter place ∈ shape.places ∧
      mesh.vertexAt element index (.faceCenter place) = mesh.faceVertex face ∧
      mesh.middles row = (shape.links (.faceCenter place)).map (mesh.vertexAt element index) ∧
      row = (shape.footholds (.faceCenter place)).map (mesh.vertexAt element index) := by
  obtain ⟨element, index, place, corners, helement, hcorners, rfl, rfl⟩ :=
    exists_of_getElem?_faceRows huniform hrow
  have hmember := List.mem_of_getElem? helement
  obtain ⟨hplace, -⟩ := List.getElem?_eq_some_iff.mp hcorners
  refine ⟨element, index, helement, place, CellShape.faceCenter_mem_places.mpr hplace, rfl, ?_, ?_⟩
  · rw [map_links_faceCenter hmember (huniform.shape_eq element hmember) hcorners, boundary,
      List.map_map]
    rfl
  · rw [CellShape.footholds, List.getD_eq_getElem?_getD, hcorners, Option.getD_some, List.map_map]
    rfl

theorem tabulates_linkRows (hregular : mesh.IsRegular shape) :
    mesh.Tabulates shape shape.links mesh.vertexCount (mesh.linkRows shape) where
  length_eq := by
    rw [linkRows, List.length_append, List.length_append, length_edgeRows, List.length_map,
      length_faceRows, length_centerRows, centerVertex]
    omega
  start_le element index _ top htop bottom hbottom :=
    vertexCount_le_vertexAt
      (Nat.zero_lt_of_lt (CellShape.rank_lt_of_mem_links hregular.uniform.splits htop hbottom))
  exists_top number list hlist := by
    rw [linkRows, List.append_assoc, List.getElem?_append, List.getElem?_append, length_edgeRows,
      List.length_map, length_faceRows] at hlist
    split at hlist
    · obtain ⟨element, index, helement, place, hplace, hvertex, hperm⟩ :=
        exists_middle_of_getElem?_edgeRows hregular.uniform hlist
      exact ⟨element, index, helement, _, hplace, hvertex, hperm⟩
    · split at hlist
      · rw [List.getElem?_map, Option.map_eq_some_iff] at hlist
        obtain ⟨row, hrow, rfl⟩ := hlist
        obtain ⟨element, index, helement, place, hplace, hvertex, hlinks, -⟩ :=
          exists_faceCenter_of_getElem?_faceRows hregular.uniform hrow
        refine ⟨element, index, helement, _, hplace, ?_, .of_eq hlinks⟩
        rw [hvertex, faceVertex]
        omega
      · obtain ⟨element, helement, rfl⟩ := exists_of_getElem?_centerRows hlist
        refine ⟨element, _, helement, .center, CellShape.center_mem_places, ?_, .rfl⟩
        simp only [vertexAt, Place.vertex, centerVertex]
        omega
  mem_bottoms _ _ _ _ helement hother _ htop _ hsame hequal _ hvertex :=
    hregular.mem_map_links helement hother htop hsame hequal hvertex

theorem tabulates_footholdRows (hregular : mesh.IsRegular shape) :
    mesh.Tabulates shape shape.footholds (mesh.faceVertex 0) (mesh.footholdRows shape) where
  length_eq := by
    rw [footholdRows, List.length_append, length_faceRows, length_centerRows, centerVertex,
      faceVertex]
    omega
  start_le element index _ top _ bottom hbottom := by
    cases top with
    | corner position => simp [CellShape.footholds] at hbottom
    | middle edge => simp [CellShape.footholds] at hbottom
    | _ => simp only [vertexAt, Place.vertex, faceVertex, centerVertex]; omega
  exists_top number list hlist := by
    rw [footholdRows, List.getElem?_append, length_faceRows] at hlist
    split at hlist
    · obtain ⟨element, index, helement, place, hplace, hvertex, -, hfootholds⟩ :=
        exists_faceCenter_of_getElem?_faceRows hregular.uniform hlist
      exact ⟨element, index, helement, _, hplace, hvertex, .of_eq hfootholds⟩
    · obtain ⟨element, helement, rfl⟩ := exists_of_getElem?_centerRows hlist
      refine ⟨element, _, helement, .center, CellShape.center_mem_places, ?_, .rfl⟩
      simp only [vertexAt, Place.vertex, centerVertex, faceVertex]
      omega
  mem_bottoms element index other position helement hother top htop same hsame hequal vertex
      hvertex := by
    have hmember := List.mem_of_getElem? helement
    have hotherMember := List.mem_of_getElem? hother
    cases coincide_of_vertexAt_eq hregular.sound hregular.uniform helement hother htop hsame
      hequal with
    | corner => simp [CellShape.footholds] at hvertex
    | middle => simp [CellShape.footholds] at hvertex
    | @faceCenter first second hfirst hsecond hface =>
        have hkey := getElem?_faceAt hmember (hregular.uniform.shape_eq element hmember)
          (List.getElem?_eq_getElem hfirst)
        have hotherKey := getElem?_faceAt hotherMember
          (hregular.uniform.shape_eq other hotherMember) (List.getElem?_eq_getElem hsecond)
        rw [hface, hotherKey, Option.some.injEq, ascending_eq_ascending_iff] at hkey
        rw [CellShape.footholds, List.getD_eq_getElem _ _ hfirst, List.map_map] at hvertex
        rw [CellShape.footholds, List.getD_eq_getElem _ _ hsecond, List.map_map]
        exact hkey.mem_iff.mpr hvertex
    | center hindex helementEq => rwa [← hindex, ← helementEq]

theorem length_of_mem_faceRows (huniform : mesh.IsUniform shape) {row : List Nat}
    (hrow : row ∈ mesh.faceRows) : row.length = 4 := by
  obtain ⟨face, hface⟩ := List.mem_iff_getElem?.mp hrow
  have hlt := (List.getElem?_eq_some_iff.mp hface).1
  rw [length_faceRows] at hlt
  obtain ⟨-, found, hfound, hlength⟩ := exists_faceRow huniform hlt
  rwa [← Option.some.inj (hfound.symm.trans hface)]

theorem length_of_mem_centerRows {list : List Nat} (hlist : list ∈ mesh.centerRows bottoms) :
    list.length = (bottoms .center).length := by
  obtain ⟨⟨element, index⟩, -, rfl⟩ := List.mem_map.mp hlist
  rw [List.length_map]

theorem sum_length_linkRows (huniform : mesh.IsUniform shape) :
    ((mesh.linkRows shape).map List.length).sum =
      2 * mesh.edgeKeys.length + 4 * mesh.faceKeys.length +
        (shape.links .center).length * mesh.elements.length := by
  have hedges : ∀ list ∈ mesh.edgeRows, list.length = 2 := by
    intro list hlist
    obtain ⟨ends, -, rfl⟩ := List.mem_map.mp hlist
    rfl
  have hfaces : ∀ list ∈ mesh.faceRows.map mesh.middles, list.length = 4 := by
    intro list hlist
    obtain ⟨row, hrow, rfl⟩ := List.mem_map.mp hlist
    rw [middles, List.length_map, length_sides, length_of_mem_faceRows huniform hrow]
  rw [linkRows, List.map_append, List.map_append, List.sum_append_nat, List.sum_append_nat,
    sum_map_length_of hedges, sum_map_length_of hfaces,
    sum_map_length_of fun _ => length_of_mem_centerRows, length_edgeRows, List.length_map,
    length_faceRows, length_centerRows]

theorem sum_length_footholdRows (huniform : mesh.IsUniform shape) :
    ((mesh.footholdRows shape).map List.length).sum =
      4 * mesh.faceKeys.length + (shape.footholds .center).length * mesh.elements.length := by
  rw [footholdRows, List.map_append, List.sum_append_nat,
    sum_map_length_of fun _ => length_of_mem_faceRows huniform,
    sum_map_length_of fun _ => length_of_mem_centerRows, length_faceRows, length_centerRows]

/-- The edges of the refined mesh are the pairs of linked vertices. -/
theorem edgeKeys_refinement_perm (hregular : mesh.IsRegular shape) :
    (mesh.refinement shape).edgeKeys.Perm (pairedUp mesh.vertexCount (mesh.linkRows shape)) := by
  have hintervals := CellShape.hasIntervals_links hregular.uniform.splits
  have htable := tabulates_linkRows hregular
  rw [List.perm_ext_iff_of_nodup (nodup_edgeKeys _) (htable.nodup_pairedUp hregular hintervals)]
  intro pair
  rw [htable.mem_pairedUp_iff hregular, ← exists_extremes_eq_iff hregular hintervals,
    mem_edgeKeys_iff_extremes (isUniform_refinement hregular.uniform).shape_eq]

/-- A face of the refined mesh has the vertices of an interval. -/
theorem exists_interval_of_mem_faceKeys (huniform : mesh.IsUniform shape) {key : List Nat}
    (hkey : key ∈ (mesh.refinement shape).faceKeys) :
    ∃ element index, mesh.elements[index]? = some element ∧
      ∃ top ∈ shape.places, ∃ bottom ∈ shape.footholds top,
        key.Perm ((shape.interval bottom top).map (mesh.vertexAt element index)) := by
  obtain ⟨child, hchild, vertices, hvertices, rfl⟩ := mem_faceKeys.mp hkey
  rw [Element.faces, (isUniform_refinement huniform).shape_eq child hchild] at hvertices
  obtain ⟨corners, hcorners, rfl⟩ := List.mem_map.mp hvertices
  obtain ⟨element, index, helement, top, htop, bottom, hbottom, hperm⟩ :=
    exists_interval_of_piece huniform (CellShape.hasIntervals_footholds huniform.splits) hchild
      hcorners
  exact ⟨element, index, helement, top, htop, bottom, hbottom, (ascending_perm _).trans hperm⟩

/-- Faces of the refined mesh are told by their smallest and largest vertex. -/
theorem extremes_inj_of_mem_faceKeys (hregular : mesh.IsRegular shape) {first second : List Nat}
    (hfirst : first ∈ (mesh.refinement shape).faceKeys)
    (hsecond : second ∈ (mesh.refinement shape).faceKeys)
    (hequal : extremes first = extremes second) : first = second := by
  have hintervals := CellShape.hasIntervals_footholds hregular.uniform.splits
  obtain ⟨element, index, helement, top, htop, bottom, hbottom, hperm⟩ :=
    exists_interval_of_mem_faceKeys hregular.uniform hfirst
  obtain ⟨other, position, hother, high, hhigh, low, hlow, hotherPerm⟩ :=
    exists_interval_of_mem_faceKeys hregular.uniform hsecond
  have hbottomPlace := hintervals.bottom_mem top htop bottom hbottom
  have hlowPlace := hintervals.bottom_mem high hhigh low hlow
  have hrank := hintervals.rank_lt top htop bottom hbottom
  have hotherRank := hintervals.rank_lt high hhigh low hlow
  rw [extremes_of_perm hregular helement hbottomPlace htop hrank hperm,
    extremes_of_perm hregular hother hlowPlace hhigh hotherRank hotherPerm, Prod.mk.injEq] at hequal
  have hsame : first.Perm second := hperm.trans ((hregular.map_interval_perm helement hother
    hbottomPlace htop hrank hlowPlace hhigh hotherRank hequal.1 hequal.2).trans hotherPerm.symm)
  obtain ⟨_, -, vertices, -, rfl⟩ := mem_faceKeys.mp hfirst
  obtain ⟨_, -, otherVertices, -, rfl⟩ := mem_faceKeys.mp hsecond
  rw [ascending_eq_ascending_iff]
  exact (ascending_perm _).symm.trans (hsame.trans (ascending_perm _))

/-- The faces of the refined mesh, told so, are the pairs of vertices two steps apart. -/
theorem map_extremes_faceKeys_refinement_perm (hregular : mesh.IsRegular shape) :
    ((mesh.refinement shape).faceKeys.map extremes).Perm
      (pairedUp (mesh.faceVertex 0) (mesh.footholdRows shape)) := by
  have hintervals := CellShape.hasIntervals_footholds hregular.uniform.splits
  have htable := tabulates_footholdRows hregular
  have hnodup : ((mesh.refinement shape).faceKeys.map extremes).Nodup :=
    (nodup_faceKeys _).map_on fun _ hfirst _ hsecond hequal =>
      extremes_inj_of_mem_faceKeys hregular hfirst hsecond hequal
  rw [List.perm_ext_iff_of_nodup hnodup (htable.nodup_pairedUp hregular hintervals)]
  intro pair
  rw [htable.mem_pairedUp_iff hregular, ← exists_extremes_eq_iff hregular hintervals, List.mem_map]
  simp only [mem_faceKeys]
  constructor
  · rintro ⟨_, ⟨child, hchild, vertices, hvertices, rfl⟩, rfl⟩
    rw [Element.faces, (isUniform_refinement hregular.uniform).shape_eq child hchild] at hvertices
    obtain ⟨corners, hcorners, rfl⟩ := List.mem_map.mp hvertices
    exact ⟨child, hchild, corners, hcorners, (extremes_perm (ascending_perm _)).symm⟩
  · rintro ⟨child, hchild, corners, hcorners, rfl⟩
    refine ⟨_, ⟨child, hchild, corners.map child.corner, ?_, rfl⟩, extremes_perm (ascending_perm _)⟩
    rw [Element.faces, (isUniform_refinement hregular.uniform).shape_eq child hchild]
    exact List.mem_map_of_mem hcorners

/-- An edge becomes two; inside a face there are four, and inside an element as many as its
center has links. -/
theorem length_edgeKeys_refinement (hregular : mesh.IsRegular shape) :
    (mesh.refinement shape).edgeKeys.length =
      2 * mesh.edgeKeys.length + 4 * mesh.faceKeys.length +
        (shape.links .center).length * mesh.elements.length := by
  rw [(edgeKeys_refinement_perm hregular).length_eq, length_pairedUp,
    sum_length_linkRows hregular.uniform]

/-- A face becomes four; inside an element there are as many as its center has footholds. -/
theorem length_faceKeys_refinement (hregular : mesh.IsRegular shape) :
    (mesh.refinement shape).faceKeys.length =
      4 * mesh.faceKeys.length + (shape.footholds .center).length * mesh.elements.length := by
  rw [← List.length_map extremes, (map_extremes_faceKeys_refinement_perm hregular).length_eq,
    length_pairedUp, sum_length_footholdRows hregular.uniform]

end ElementMesh

end MeshIncidence
