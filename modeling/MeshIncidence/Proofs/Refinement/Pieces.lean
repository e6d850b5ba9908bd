/-
# The pieces of edges and faces

In the refined mesh an edge of the mesh has become two halves, each from one of its
ends to its middle, and a face of a hexahedron four quarters, one at each corner.
Both kinds of pieces are there because some child has them. The numbers of the
pieces are of no account: a piece is the edge or face with its vertices.

A quarter is the only face through its corner, the center of the face and two
middles of its sides, if the vertices of each element are distinct. A search that
tries all pairs of middles therefore finds the quarter, whichever pair it tries first.
-/

import MeshIncidence.Proofs.Refinement.Vertices

namespace MeshIncidence

theorem around_map {corners : List Nat} (hlength : corners.length = 4) (image : Nat → Nat)
    (position : Nat) : around (corners.map image) position = image (around corners position) := by
  have hlt : position % 4 < corners.length := by omega
  rw [around, around, List.getD_eq_getElem?_getD, List.getD_eq_getElem?_getD, List.getElem?_map,
    List.getElem?_eq_getElem hlt, Option.map_some, Option.getD_some, Option.getD_some]

theorem around_mod (row : List Nat) (position : Nat) :
    around row (position % 4) = around row position := by
  rw [around, around, Nat.mod_mod]

theorem around_mod_succ (row : List Nat) (position : Nat) :
    around row (position % 4 + 1) = around row (position + 1) := by
  rw [around, around, Nat.mod_add_mod]

/-- What comes after the one before is where one started. -/
theorem around_before_succ (row : List Nat) (position : Nat) :
    around row (position + 3 + 1) = around row position := by
  rw [around, around, Nat.add_assoc, Nat.add_mod_right]

/-- Around a face of four, each vertex is followed by the next. -/
theorem getElem?_sides {row : List Nat} (hlength : row.length = 4) (position : Nat) :
    (sides row)[position % 4]? = some (around row position, around row (position + 1)) := by
  rw [← around_mod, ← around_mod_succ]
  have hcases : position % 4 = 0 ∨ position % 4 = 1 ∨ position % 4 = 2 ∨ position % 4 = 3 := by
    omega
  obtain ⟨a, b, c, d, rfl⟩ := List.length_eq_four.mp hlength
  rcases hcases with hmod | hmod | hmod | hmod <;> rw [hmod] <;> rfl

namespace ElementMesh

variable {mesh : ElementMesh} {shape : CellShape} {element : Element} {index : Nat}

theorem corner_childAt {places : List Place} {position : Nat}
    (hposition : position < places.length) :
    (mesh.childAt shape element index places).corner position =
      mesh.vertexAt element index (places.getD position .center) := by
  rw [Element.corner, childAt, List.getD_eq_getElem?_getD, List.getD_eq_getElem?_getD,
    List.getElem?_map, List.getElem?_eq_getElem hposition, Option.map_some, Option.getD_some,
    Option.getD_some]

/-- The edges of a child join the vertices at its places. -/
theorem edges_childAt {places : List Place} (hlength : places.length = shape.cornerCount) :
    (mesh.childAt shape element index places).edges = (placeEdges shape places).map fun ends =>
      (mesh.vertexAt element index ends.1, mesh.vertexAt element index ends.2) := by
  rw [Element.edges, placeEdges, List.map_map]
  apply List.map_congr_left
  intro ends hends
  obtain ⟨hfirst, hsecond⟩ := shape.lt_cornerCount_of_mem_edges ends hends
  rw [← hlength] at hfirst hsecond
  exact Prod.ext (corner_childAt hfirst) (corner_childAt hsecond)

/-- The faces of a child have the vertices at its places. -/
theorem faces_childAt {places : List Place} (hlength : places.length = shape.cornerCount) :
    (mesh.childAt shape element index places).faces =
      (placeFaces shape places).map (List.map (mesh.vertexAt element index)) := by
  rw [Element.faces, placeFaces, List.map_map]
  apply List.map_congr_left
  intro corners hcorners
  rw [Function.comp_apply, List.map_map]
  apply List.map_congr_left
  intro position hposition
  have hlt := (shape.lt_cornerCount_of_mem_faces corners hcorners).2 position hposition
  exact corner_childAt (by rwa [hlength])

/-- An edge between two places of a child is an edge of the refined mesh. -/
theorem key_mem_edgeKeys_refinement (huniform : mesh.IsUniform shape)
    (helement : mesh.elements[index]? = some element) {places : List Place}
    (hplaces : places ∈ shape.children) {ends : Place × Place}
    (hends : ends ∈ placeEdges shape places) :
    PairNumbering.key (mesh.vertexAt element index ends.1) (mesh.vertexAt element index ends.2) ∈
      (mesh.refinement shape).edgeKeys := by
  have hchild := mem_elements_refinement.mpr ⟨element, index, helement, places, hplaces, rfl⟩
  have hlength := CellShape.length_of_mem_children huniform.splits places hplaces
  refine mem_edgeKeys.mpr ⟨_, hchild,
    (mesh.vertexAt element index ends.1, mesh.vertexAt element index ends.2), ?_, rfl⟩
  rw [edges_childAt hlength]
  exact List.mem_map.mpr ⟨ends, hends, rfl⟩

/-- An edge joins the vertices at the ends of a local edge that has the number of the edge. -/
theorem exists_of_getElem?_edgeKeys (huniform : mesh.IsUniform shape) {edge : Nat}
    {ends : Nat × Nat} (hedge : mesh.edgeKeys[edge]? = some ends) :
    ∃ (element : Element) (index place : Nat) (corners : Nat × Nat),
      mesh.elements[index]? = some element ∧ shape.edges[place]? = some corners ∧
      ends = PairNumbering.key (element.corner corners.1) (element.corner corners.2) ∧
      mesh.edgeAt element place = edge := by
  obtain ⟨element, hmember, pair, hpair, rfl⟩ := mem_edgeKeys.mp (List.mem_of_getElem? hedge)
  have hshape := huniform.shape_eq element hmember
  rw [Element.edges, hshape] at hpair
  obtain ⟨corners, hcorners, rfl⟩ := List.mem_map.mp hpair
  obtain ⟨place, hplace⟩ := List.mem_iff_getElem?.mp hcorners
  obtain ⟨index, hindex⟩ := List.mem_iff_getElem?.mp hmember
  refine ⟨element, index, place, corners, hindex, hplace, rfl, ?_⟩
  have hat := getElem?_edgeAt hmember hshape hplace
  obtain ⟨hlt, -⟩ := List.getElem?_eq_some_iff.mp hedge
  exact ((List.getElem?_inj hlt mesh.nodup_edgeKeys).mp (hedge.trans hat.symm)).symm

/-- The halves of an edge are edges of the refined mesh. -/
theorem half_mem_edgeKeys (huniform : mesh.IsUniform shape) {edge : Nat} {ends : Nat × Nat}
    (hedge : mesh.edgeKeys[edge]? = some ends) {vertex : Nat}
    (hvertex : vertex = ends.1 ∨ vertex = ends.2) :
    PairNumbering.key vertex (mesh.middleVertex edge) ∈ (mesh.refinement shape).edgeKeys := by
  obtain ⟨element, index, place, corners, hindex, hplace, rfl, rfl⟩ :=
    exists_of_getElem?_edgeKeys huniform hedge
  have hposition : ∃ position ∈ [corners.1, corners.2], vertex = element.corner position := by
    simp only [PairNumbering.key] at hvertex
    have hsame : vertex = element.corner corners.1 ∨ vertex = element.corner corners.2 := by omega
    simpa using hsame
  obtain ⟨position, hposition, rfl⟩ := hposition
  obtain ⟨places, hplaces, hends⟩ := CellShape.half_mem_placeEdges huniform.splits
    (corners, place) (List.mem_zipIdx_iff_getElem?.mpr hplace) position hposition
  rcases hends with hends | hends
  · exact key_mem_edgeKeys_refinement huniform hindex hplaces hends
  · rw [PairNumbering.key_comm]
    exact key_mem_edgeKeys_refinement huniform hindex hplaces hends

/-- The vertices of the quarter of a face at the corner at a position. -/
def quarter (mesh : ElementMesh) (row : List Nat) (face position : Nat) : List Nat :=
  [around row position,
    mesh.middleVertex (mesh.edgeNumber (around row position) (around row (position + 1))),
    mesh.middleVertex (mesh.edgeNumber (around row (position + 3)) (around row position)),
    mesh.faceVertex face]

/-- The row of a face lists the vertices at the corners of a local face that has the
number of the face. -/
theorem exists_of_getElem?_faceRows (huniform : mesh.IsUniform shape) {face : Nat}
    {row : List Nat} (hrow : mesh.faceRows[face]? = some row) :
    ∃ (element : Element) (index place : Nat) (corners : List Nat),
      mesh.elements[index]? = some element ∧
      shape.faces[place]? = some corners ∧ row = corners.map element.corner ∧
      mesh.faceAt element place = face := by
  obtain ⟨element, hmember, hface⟩ := mem_localFaces_of_mem_faceRows (List.mem_of_getElem? hrow)
  have hshape := huniform.shape_eq element hmember
  rw [Element.faces, hshape] at hface
  obtain ⟨corners, hcorners, rfl⟩ := List.mem_map.mp hface
  obtain ⟨place, hplace⟩ := List.mem_iff_getElem?.mp hcorners
  obtain ⟨index, hindex⟩ := List.mem_iff_getElem?.mp hmember
  refine ⟨element, index, place, corners, hindex, hplace, rfl, ?_⟩
  have hat := getElem?_faceAt hmember hshape hplace
  have hkey := getElem?_faceKeys hrow
  obtain ⟨hlt, -⟩ := List.getElem?_eq_some_iff.mp hkey
  exact ((List.getElem?_inj hlt mesh.nodup_faceKeys).mp (hkey.trans hat.symm)).symm

/-- The local edge between two corners is the edge between their vertices. -/
theorem edgeAt_edgeBetween (hmember : element ∈ mesh.elements) (hshape : element.shape = shape)
    {first second : Nat} (hedge : (first, second) ∈ shape.edges ∨ (second, first) ∈ shape.edges) :
    mesh.edgeAt element (shape.edgeBetween first second) =
      mesh.edgeNumber (element.corner first) (element.corner second) := by
  have hat : mesh.edgeKeys[mesh.edgeAt element (shape.edgeBetween first second)]? =
      some (PairNumbering.key (element.corner first) (element.corner second)) := by
    rcases CellShape.getElem?_edgeBetween hedge with hends | hends
    · exact getElem?_edgeAt hmember hshape hends
    · rw [PairNumbering.key_comm]
      exact getElem?_edgeAt hmember hshape hends
  have hnumber := getElem?_edgeNumber (List.mem_of_getElem? hat)
  obtain ⟨hlt, -⟩ := List.getElem?_eq_some_iff.mp hat
  exact (List.getElem?_inj hlt mesh.nodup_edgeKeys).mp (hat.trans hnumber.symm)

/-- The quarter of a local face has the vertices at the places of the quarter. -/
theorem map_quarter (huniform : mesh.IsUniform .hexahedron) (hmember : element ∈ mesh.elements)
    {place : Nat} {corners : List Nat} (hcorners : corners ∈ CellShape.hexahedron.faces)
    (position : Nat) :
    (CellShape.hexahedron.quarter corners place position).map (mesh.vertexAt element index) =
      mesh.quarter (corners.map element.corner) (mesh.faceAt element place) position := by
  have hshape := huniform.shape_eq element hmember
  have hlength := CellShape.length_of_mem_hexahedron_faces corners hcorners
  have hside (position : Nat) := CellShape.hexahedron.side_mem_edges corners hcorners _
    (List.mem_of_getElem? (getElem?_sides hlength position))
  have hafter := edgeAt_edgeBetween hmember hshape (hside position)
  have hbefore := edgeAt_edgeBetween hmember hshape (hside (position + 3))
  rw [around_before_succ] at hbefore
  simp only [CellShape.quarter, quarter, List.map_cons, List.map_nil, around_map hlength,
    vertexAt, Place.vertex, hafter, hbefore]

/-- The quarters of a face are faces of the refined mesh. -/
theorem quarter_mem_faceKeys (huniform : mesh.IsUniform .hexahedron) {face position : Nat}
    {row : List Nat} (hrow : mesh.faceRows[face]? = some row) (hposition : position < 4) :
    ascending (mesh.quarter row face position) ∈ (mesh.refinement .hexahedron).faceKeys := by
  obtain ⟨element, index, place, corners, hindex, hplace, rfl, rfl⟩ :=
    exists_of_getElem?_faceRows huniform hrow
  obtain ⟨places, hplaces, part, hpart, hperm⟩ := CellShape.quarter_mem_placeFaces
    (corners, place) (List.mem_zipIdx_iff_getElem?.mpr hplace) position
    (List.mem_range.mpr hposition)
  have hon := CellShape.length_of_mem_children huniform.splits places hplaces
  refine mem_faceKeys.mpr ⟨_, mem_elements_refinement.mpr
    ⟨element, index, hindex, places, hplaces, rfl⟩, part.map (mesh.vertexAt element index), ?_, ?_⟩
  · rw [faces_childAt hon]
    exact List.mem_map_of_mem hpart
  · rw [ascending_eq_ascending_iff]
    refine (hperm.map _).trans (List.Perm.of_eq ?_)
    exact map_quarter huniform (List.mem_of_getElem? hindex) (List.mem_of_getElem? hplace) position

theorem mem_of_mem_placeFaces {places part : List Place} {place : Place}
    (hlength : places.length = shape.cornerCount) (hpart : part ∈ placeFaces shape places)
    (hplace : place ∈ part) : place ∈ places := by
  obtain ⟨corners, hcorners, rfl⟩ := List.mem_map.mp hpart
  obtain ⟨position, hposition, rfl⟩ := List.mem_map.mp hplace
  have hlt := (shape.lt_cornerCount_of_mem_faces corners hcorners).2 position hposition
  rw [← hlength] at hlt
  rw [List.getD_eq_getElem?_getD, List.getElem?_eq_getElem hlt, Option.getD_some]
  exact List.getElem_mem hlt

/-- A face of the refined mesh is a face of some child, whose vertices are at places of an
element. -/
theorem exists_part_of_mem_faceKeys (huniform : mesh.IsUniform shape) {vertices : List Nat}
    (hknown : ascending vertices ∈ (mesh.refinement shape).faceKeys) :
    ∃ (element : Element) (index : Nat) (places part : List Place),
      mesh.elements[index]? = some element ∧ places ∈ shape.children ∧
      part ∈ placeFaces shape places ∧
      (part.map (mesh.vertexAt element index)).Perm vertices := by
  obtain ⟨child, hchild, found, hfound, hequal⟩ := mem_faceKeys.mp hknown
  obtain ⟨element, index, helement, places, hplaces, rfl⟩ := mem_elements_refinement.mp hchild
  rw [faces_childAt (CellShape.length_of_mem_children huniform.splits places hplaces)] at hfound
  obtain ⟨part, hpart, rfl⟩ := List.mem_map.mp hfound
  exact ⟨element, index, places, part, helement, hplaces, hpart,
    ascending_eq_ascending_iff.mp hequal⟩

/-- A corner that touches the middle of a local edge is an end of that edge. -/
theorem corner_eq_of_touches (huniform : mesh.IsUniform shape) (hmember : element ∈ mesh.elements)
    {position place : Nat} (hplace : place < shape.edges.length)
    (htouches : Place.touches shape (.corner position) (.middle place)) {ends : Nat × Nat}
    (hends : mesh.edgeKeys[mesh.edgeAt element place]? = some ends) :
    element.corner position = ends.1 ∨ element.corner position = ends.2 := by
  have hat := getElem?_edgeAt hmember (huniform.shape_eq element hmember)
    (List.getElem?_eq_getElem hplace)
  rw [hends, Option.some.injEq] at hat
  simp only [Place.touches, List.getD_eq_getElem?_getD, List.getElem?_eq_getElem hplace,
    Option.getD_some, Bool.or_eq_true, decide_eq_true_eq] at htouches
  rw [hat]
  simp only [PairNumbering.key]
  rcases htouches with rfl | rfl <;> omega

/-- In a face of the refined mesh that lies on a face of the mesh, an old vertex is an
end of every edge whose middle is there. -/
theorem end_of_mem_faceKeys (hsound : mesh.Sound) (huniform : mesh.IsUniform shape)
    {vertices : List Nat} (hknown : ascending vertices ∈ (mesh.refinement shape).faceKeys)
    (hbelow : ∀ vertex ∈ vertices, vertex < mesh.centerVertex 0) {vertex edge : Nat}
    {ends : Nat × Nat} (hvertex : vertex ∈ vertices) (hold : vertex < mesh.vertexCount)
    (hmiddle : mesh.middleVertex edge ∈ vertices) (hends : mesh.edgeKeys[edge]? = some ends) :
    vertex = ends.1 ∨ vertex = ends.2 := by
  obtain ⟨element, index, places, part, helement, hplaces, hpart, hperm⟩ :=
    exists_part_of_mem_faceKeys huniform hknown
  have hlength := CellShape.length_of_mem_children huniform.splits places hplaces
  have hon : ∀ place ∈ part, place.isOn shape := by
    intro place hplace
    exact CellShape.isOn_of_mem_children huniform.splits places hplaces place
      (mem_of_mem_placeFaces hlength hpart hplace)
  have hcenter : .center ∉ part := by
    intro hcenter
    have hin : mesh.centerVertex index ∈ vertices :=
      hperm.mem_iff.mp (List.mem_map.mpr ⟨.center, hcenter, rfl⟩)
    have hlt := hbelow _ hin
    simp only [centerVertex] at hlt
    omega
  obtain ⟨first, hfirst, hfirstAt⟩ := List.mem_map.mp (hperm.mem_iff.mpr hvertex)
  obtain ⟨second, hsecond, hsecondAt⟩ := List.mem_map.mp (hperm.mem_iff.mpr hmiddle)
  have htouches := CellShape.touches_of_mem_placeFaces huniform.splits places hplaces part hpart
    hcenter first hfirst second hsecond
  have hallotted := allots_vertexAt hsound huniform helement (hon first hfirst)
  have hother := allots_vertexAt hsound huniform helement (hon second hsecond)
  have hlt := (List.getElem?_eq_some_iff.mp hends).1
  rw [hfirstAt] at hallotted
  rw [hsecondAt] at hother
  -- The ranges leave a corner for the old vertex and an edge for the middle.
  cases first <;> cases second
  case corner.middle position place =>
      have hnumber : mesh.edgeAt element place = edge := Nat.add_left_cancel hsecondAt
      rw [← hnumber] at hends
      rw [← hfirstAt]
      exact corner_eq_of_touches huniform (List.mem_of_getElem? helement)
        (by simpa [Place.isOn] using hon _ hsecond) htouches hends
  all_goals
    simp only [Allots, middleVertex, faceVertex, centerVertex] at hallotted hother
    omega

end ElementMesh

end MeshIncidence
