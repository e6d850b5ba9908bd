/-
# Vertices of the refined mesh

Each place of an element of the mesh has a vertex, in the range of its sort. From
this follow two things: the refined mesh is sound and can be refined again, and the
vertex tells the place. Within an element of distinct vertices, two places have
two vertices, so the children are of distinct vertices as well.
-/

import MeshIncidence.Proofs.Refinement.Uniform

namespace MeshIncidence

namespace Element

variable {element : Element} {shape : CellShape}

theorem getElem?_vertices {position : Nat} (hposition : position < element.vertices.length) :
    element.vertices[position]? = some (element.corner position) := by
  rw [corner, List.getD_eq_getElem?_getD, List.getElem?_eq_getElem hposition, Option.getD_some]

/-- At distinct vertices, a vertex is at one corner only. -/
theorem corner_inj (hnodup : element.vertices.Nodup) {first second : Nat}
    (hfirst : first < element.vertices.length) (hsecond : second < element.vertices.length)
    (hequal : element.corner first = element.corner second) : first = second := by
  refine (List.getElem?_inj hfirst hnodup).mp ?_
  rw [getElem?_vertices hfirst, getElem?_vertices hsecond, hequal]

theorem getElem?_edges (hshape : element.shape = shape) {edge : Nat} {ends : Nat × Nat}
    (hends : shape.edges[edge]? = some ends) :
    element.edges[edge]? = some (element.corner ends.1, element.corner ends.2) := by
  rw [edges, hshape, List.getElem?_map, hends, Option.map_some]

theorem getElem?_faces (hshape : element.shape = shape) {face : Nat} {corners : List Nat}
    (hcorners : shape.faces[face]? = some corners) :
    element.faces[face]? = some (corners.map element.corner) := by
  rw [faces, hshape, List.getElem?_map, hcorners, Option.map_some]

end Element

namespace CellShape

/-- No two local edges join the same corners. -/
theorem nodup_edgeKeys (shape : CellShape) :
    (shape.edges.map fun edge => PairNumbering.key edge.1 edge.2).Nodup := by
  cases shape <;> decide

/-- No two local faces have the same corners. -/
theorem nodup_faceKeys (shape : CellShape) : (shape.faces.map ascending).Nodup := by
  cases shape <;> decide

theorem nodup_of_mem_faces (shape : CellShape) : ∀ corners ∈ shape.faces, corners.Nodup := by
  cases shape <;> decide

end CellShape

namespace ElementMesh

variable {mesh : ElementMesh} {shape : CellShape} {element : Element} {index : Nat}

/-- A local edge has the number of the edge between its vertices. -/
theorem getElem?_edgeAt (helement : element ∈ mesh.elements) (hshape : element.shape = shape)
    {edge : Nat} {ends : Nat × Nat} (hends : shape.edges[edge]? = some ends) :
    mesh.edgeKeys[mesh.edgeAt element edge]? =
      some (PairNumbering.key (element.corner ends.1) (element.corner ends.2)) := by
  have hedge := Element.getElem?_edges hshape hends
  rw [edgeAt, List.getD_eq_getElem?_getD, List.getElem?_map, hedge, Option.map_some,
    Option.getD_some]
  exact getElem?_edgeNumber (key_mem_edgeKeys helement (List.mem_of_getElem? hedge))

/-- A local face has the number of the face with its vertices. -/
theorem getElem?_faceAt (helement : element ∈ mesh.elements) (hshape : element.shape = shape)
    {face : Nat} {corners : List Nat} (hcorners : shape.faces[face]? = some corners) :
    mesh.faceKeys[mesh.faceAt element face]? =
      some (ascending (corners.map element.corner)) := by
  have hface := Element.getElem?_faces hshape hcorners
  rw [faceAt, List.getD_eq_getElem?_getD, List.getElem?_map, hface, Option.map_some,
    Option.getD_some]
  exact getElem?_faceNumber (ascending_mem_faceKeys helement (List.mem_of_getElem? hface))

/-- The vertices that places of one sort can have. -/
def Allots (mesh : ElementMesh) (vertex : Nat) : Place → Prop
  | .corner _ => vertex < mesh.vertexCount
  | .middle _ => ∃ edge < mesh.edgeKeys.length, vertex = mesh.middleVertex edge
  | .faceCenter _ => ∃ face < mesh.faceKeys.length, vertex = mesh.faceVertex face
  | .center => ∃ index < mesh.elements.length, vertex = mesh.centerVertex index

/-- The vertex at a place is one for places of its sort. -/
theorem allots_vertexAt (hsound : mesh.Sound) (huniform : mesh.IsUniform shape)
    (helement : mesh.elements[index]? = some element) {place : Place}
    (hplace : place.isOn shape) : mesh.Allots (mesh.vertexAt element index place) place := by
  have hmember := List.mem_of_getElem? helement
  have hshape := huniform.shape_eq element hmember
  cases place with
  | corner position =>
      have hposition : position < element.shape.cornerCount := by
        simpa [Place.isOn, hshape] using hplace
      exact (hsound.fits element hmember).corner_lt hposition
  | middle edge =>
      have hedge : edge < shape.edges.length := by simpa [Place.isOn] using hplace
      have hnumber := getElem?_edgeAt hmember hshape (List.getElem?_eq_getElem hedge)
      exact ⟨_, (List.getElem?_eq_some_iff.mp hnumber).1, rfl⟩
  | faceCenter face =>
      have hface : face < shape.faces.length := by simpa [Place.isOn] using hplace
      have hnumber := getElem?_faceAt hmember hshape (List.getElem?_eq_getElem hface)
      exact ⟨_, (List.getElem?_eq_some_iff.mp hnumber).1, rfl⟩
  | center => exact ⟨index, (List.getElem?_eq_some_iff.mp helement).1, rfl⟩

theorem Allots.lt_centerVertex {vertex : Nat} {place : Place} (hallots : mesh.Allots vertex place) :
    vertex < mesh.centerVertex mesh.elements.length := by
  cases place <;> simp only [Allots, middleVertex, faceVertex, centerVertex] at hallots ⊢ <;> omega

theorem childAt_fits (hsound : mesh.Sound) (huniform : mesh.IsUniform shape)
    (helement : mesh.elements[index]? = some element) {places : List Place}
    (hplaces : places ∈ shape.children) :
    (mesh.childAt shape element index places).Fits mesh.dimension
      (mesh.centerVertex mesh.elements.length) where
  dimension_eq := huniform.dimension_eq.symm
  length_eq := by
    rw [childAt, List.length_map]
    exact CellShape.length_of_mem_children huniform.splits places hplaces
  lt_vertexCount vertex hvertex := by
    obtain ⟨place, hplace, rfl⟩ := List.mem_map.mp hvertex
    have hon := CellShape.isOn_of_mem_children huniform.splits places hplaces place hplace
    exact (allots_vertexAt hsound huniform helement hon).lt_centerVertex

theorem refinement_fits (hsound : mesh.Sound) (huniform : mesh.IsUniform shape) :
    ∀ child ∈ (mesh.refinement shape).elements,
      child.Fits mesh.dimension (mesh.centerVertex mesh.elements.length) := by
  intro child hchild
  obtain ⟨element, index, helement, places, hplaces, rfl⟩ := mem_elements_refinement.mp hchild
  exact childAt_fits hsound huniform helement hplaces

theorem sound_refinement (hsound : mesh.Sound) (huniform : mesh.IsUniform shape) :
    (mesh.refinement shape).Sound :=
  sound_counted (refinement_fits hsound huniform) rfl

/-- A refined mesh can be refined again. -/
theorem isUniform_refinement (huniform : mesh.IsUniform shape) :
    (mesh.refinement shape).IsUniform shape where
  splits := huniform.splits
  dimension_eq := huniform.dimension_eq
  shape_eq child hchild := by
    obtain ⟨element, index, -, places, -, rfl⟩ := mem_elements_refinement.mp hchild
    rfl

/-- Splitting a sound mesh of one shape succeeds. -/
theorem refined_eq (hsound : mesh.Sound) (huniform : mesh.IsUniform shape) :
    mesh.refined = .ok (mesh.refinement shape) := by
  rw [refined, split_eq hsound huniform, Result.ok_bind]
  exact recount_eq (refinement_fits hsound huniform)

/-- A mesh that is not split is left alone. -/
theorem refine_ends_of_split_eq_error {failure : Failure} (hsplit : mesh.split = .error failure) :
    refine.Ends mesh (.error failure) mesh :=
  Action.runs_state.bind (Action.ends_ofResult_bind hsplit)

/-- Splitting in place leaves the split mesh. -/
theorem refine_runs (hsound : mesh.Sound) (huniform : mesh.IsUniform shape) :
    refine.Runs mesh () (mesh.refinement shape) := by
  have hsplit := split_eq hsound huniform
  have hrefined := refined_eq hsound huniform
  rw [refined, hsplit, Result.ok_bind] at hrefined
  apply Action.runs_state.bind
  apply (Action.runs_ofResult hsplit).bind
  apply (Action.runs_note _).bind
  exact (Action.runs_ofResult hrefined).bind Action.runs_setState

theorem length_families : (mesh.families shape).length = mesh.elements.length := by
  rw [families, List.length_map, List.length_zipIdx]

theorem haveExtra_families (huniform : mesh.IsUniform shape) :
    HaveExtra (mesh.families shape) (shape.cornerCount - 1) := by
  intro family hfamily
  obtain ⟨element, index, -, rfl⟩ := mem_families hfamily
  rw [List.length_map, CellShape.length_children huniform.splits]
  exact shape.cornerCount_eq

/-- There are as many children of each element as it has corners. -/
theorem length_elements_refinement (huniform : mesh.IsUniform shape) :
    (mesh.refinement shape).elements.length = shape.cornerCount * mesh.elements.length := by
  have hlength := (haveExtra_families huniform).length_firstChildrenFirst
  rw [length_families, ← shape.cornerCount_eq] at hlength
  exact hlength

/-- The number of a child, given how many children an element has. The first child
keeps the number of the element. -/
def childNumber (mesh : ElementMesh) (size element : Nat) : Nat → Nat
  | 0 => element
  | place + 1 => mesh.elements.length + ((size - 1) * element + place)

/-- The child at a corner is found under its number, and has the corner in the same
position. -/
theorem exists_child (huniform : mesh.IsUniform shape)
    (helement : mesh.elements[index]? = some element) {place : Nat}
    (hplace : place < shape.cornerCount) :
    ∃ child, (mesh.refinement shape).elements[mesh.childNumber shape.cornerCount index place]? =
        some child ∧ child.vertices[place]? = some (element.corner place) := by
  obtain ⟨places, hplaces, hcorner⟩ := CellShape.getElem?_children huniform.splits hplace
  refine ⟨mesh.childAt shape element index places, ?_, ?_⟩
  · have hfamily : (mesh.families shape)[index]? =
        some (shape.children.map (mesh.childAt shape element index)) := by
      rw [families, List.getElem?_map, List.getElem?_zipIdx, helement]
      simp
    have hextra := haveExtra_families huniform
    show (firstChildrenFirst (mesh.families shape))[_]? = _
    cases place with
    | zero => rw [childNumber, hextra.getElem?_first hfamily, List.getElem?_map, hplaces]; rfl
    | succ place =>
        have hlt : place < shape.cornerCount - 1 := by omega
        have hother := hextra.getElem?_other hfamily hlt
        rw [length_families] at hother
        rw [childNumber, hother, List.getElem?_map, hplaces]
        rfl
  · rw [childAt, List.getElem?_map, hcorner]
    rfl

/-- At distinct vertices, two local edges are two edges. -/
theorem edgeAt_inj (hsound : mesh.Sound) (hmember : element ∈ mesh.elements)
    (hshape : element.shape = shape) (hnodup : element.vertices.Nodup) {first second : Nat}
    (hfirst : first < shape.edges.length) (hsecond : second < shape.edges.length)
    (hequal : mesh.edgeAt element first = mesh.edgeAt element second) : first = second := by
  have hends : ∀ ends ∈ shape.edges,
      ends.1 < element.vertices.length ∧ ends.2 < element.vertices.length := by
    rw [(hsound.fits element hmember).length_eq, hshape]
    exact shape.lt_cornerCount_of_mem_edges
  obtain ⟨hp₁, hp₂⟩ := hends _ (List.getElem_mem hfirst)
  obtain ⟨hq₁, hq₂⟩ := hends _ (List.getElem_mem hsecond)
  have hp := getElem?_edgeAt hmember hshape (List.getElem?_eq_getElem hfirst)
  have hq := getElem?_edgeAt hmember hshape (List.getElem?_eq_getElem hsecond)
  rw [hequal, hq, Option.some.injEq, PairNumbering.key_eq_key_iff] at hp
  have hkeys : PairNumbering.key shape.edges[second].1 shape.edges[second].2 =
      PairNumbering.key shape.edges[first].1 shape.edges[first].2 := by
    rw [PairNumbering.key_eq_key_iff]
    rcases hp with ⟨h₁, h₂⟩ | ⟨h₁, h₂⟩
    · exact .inl ⟨Element.corner_inj hnodup hq₁ hp₁ h₁, Element.corner_inj hnodup hq₂ hp₂ h₂⟩
    · exact .inr ⟨Element.corner_inj hnodup hq₁ hp₂ h₁, Element.corner_inj hnodup hq₂ hp₁ h₂⟩
  refine (List.getElem?_inj (by simpa using hfirst) shape.nodup_edgeKeys).mp ?_
  rw [List.getElem?_map, List.getElem?_map, List.getElem?_eq_getElem hfirst,
    List.getElem?_eq_getElem hsecond, Option.map_some, Option.map_some, hkeys]

/-- At distinct vertices, two local faces are two faces. -/
theorem faceAt_inj (hsound : mesh.Sound) (hmember : element ∈ mesh.elements)
    (hshape : element.shape = shape) (hnodup : element.vertices.Nodup) {first second : Nat}
    (hfirst : first < shape.faces.length) (hsecond : second < shape.faces.length)
    (hequal : mesh.faceAt element first = mesh.faceAt element second) : first = second := by
  have hcorners : ∀ corners ∈ shape.faces, ∀ position ∈ corners,
      position < element.vertices.length := by
    rw [(hsound.fits element hmember).length_eq, hshape]
    exact fun corners hface => (shape.lt_cornerCount_of_mem_faces corners hface).2
  have hp := getElem?_faceAt hmember hshape (List.getElem?_eq_getElem hfirst)
  have hq := getElem?_faceAt hmember hshape (List.getElem?_eq_getElem hsecond)
  rw [hequal, hq, Option.some.injEq, ascending_eq_ascending_iff] at hp
  have hinj : ∀ p ∈ shape.faces[second], ∀ q ∈ shape.faces[first],
      element.corner p = element.corner q → p = q := fun p hp q hq =>
    Element.corner_inj hnodup (hcorners _ (List.getElem_mem hsecond) p hp)
      (hcorners _ (List.getElem_mem hfirst) q hq)
  have hperm : shape.faces[second].Perm shape.faces[first] := by
    rw [List.perm_ext_iff_of_nodup (shape.nodup_of_mem_faces _ (List.getElem_mem hsecond))
      (shape.nodup_of_mem_faces _ (List.getElem_mem hfirst))]
    intro position
    constructor
    · intro hposition
      obtain ⟨other, hother, hsame⟩ := List.mem_map.mp
        (hp.mem_iff.mp (List.mem_map_of_mem hposition))
      rwa [hinj position hposition other hother hsame.symm]
    · intro hposition
      obtain ⟨other, hother, hsame⟩ := List.mem_map.mp
        (hp.mem_iff.mpr (List.mem_map_of_mem hposition))
      rwa [← hinj other hother position hposition hsame]
  refine (List.getElem?_inj (by simpa using hfirst) shape.nodup_faceKeys).mp ?_
  rw [List.getElem?_map, List.getElem?_map, List.getElem?_eq_getElem hfirst,
    List.getElem?_eq_getElem hsecond, Option.map_some, Option.map_some,
    ascending_eq_ascending_iff.mpr hperm]

/-- Within an element of distinct vertices, two places have two vertices. -/
theorem vertexAt_inj (hsound : mesh.Sound) (huniform : mesh.IsUniform shape)
    (helement : mesh.elements[index]? = some element) (hnodup : element.vertices.Nodup)
    {first second : Place} (hfirst : first.isOn shape) (hsecond : second.isOn shape)
    (hequal : mesh.vertexAt element index first = mesh.vertexAt element index second) :
    first = second := by
  have hmember := List.mem_of_getElem? helement
  have hshape := huniform.shape_eq element hmember
  have hlength := (hsound.fits element hmember).length_eq
  rw [hshape] at hlength
  have hallotted := allots_vertexAt hsound huniform helement hfirst
  have hother := allots_vertexAt hsound huniform helement hsecond
  cases first <;> cases second
  -- Places of different sorts have vertices in different ranges.
  case corner.corner p q =>
      have hp : p < element.vertices.length := by simpa [Place.isOn, hlength] using hfirst
      have hq : q < element.vertices.length := by simpa [Place.isOn, hlength] using hsecond
      rw [Element.corner_inj hnodup hp hq hequal]
  case middle.middle p q =>
      have hp : p < shape.edges.length := by simpa [Place.isOn] using hfirst
      have hq : q < shape.edges.length := by simpa [Place.isOn] using hsecond
      rw [edgeAt_inj hsound hmember hshape hnodup hp hq (Nat.add_left_cancel hequal)]
  case faceCenter.faceCenter p q =>
      have hp : p < shape.faces.length := by simpa [Place.isOn] using hfirst
      have hq : q < shape.faces.length := by simpa [Place.isOn] using hsecond
      rw [faceAt_inj hsound hmember hshape hnodup hp hq (Nat.add_left_cancel hequal)]
  case center.center => rfl
  all_goals
    rw [hequal] at hallotted
    simp only [Allots, middleVertex, faceVertex, centerVertex] at hallotted hother
    omega

/-- Every element is of distinct vertices. -/
def HasDistinctCorners (mesh : ElementMesh) : Prop :=
  ∀ element ∈ mesh.elements, element.vertices.Nodup

instance (mesh : ElementMesh) : Decidable mesh.HasDistinctCorners :=
  inferInstanceAs (Decidable (∀ element ∈ mesh.elements, element.vertices.Nodup))

theorem hasDistinctCorners_refinement (hsound : mesh.Sound) (huniform : mesh.IsUniform shape)
    (hdistinct : mesh.HasDistinctCorners) : (mesh.refinement shape).HasDistinctCorners := by
  intro child hchild
  obtain ⟨element, index, helement, places, hplaces, rfl⟩ := mem_elements_refinement.mp hchild
  have hnodup := hdistinct element (List.mem_of_getElem? helement)
  have hon := CellShape.isOn_of_mem_children huniform.splits places hplaces
  apply (CellShape.nodup_of_mem_children huniform.splits places hplaces).map_on
  intro first hfirst second hsecond hequal
  exact vertexAt_inj hsound huniform helement hnodup (hon first hfirst) (hon second hsecond) hequal

end ElementMesh

end MeshIncidence
