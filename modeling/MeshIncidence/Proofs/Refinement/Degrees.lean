/-
# Degrees of edges and faces

The degree of an edge or a face is the number of elements that have it, counted with the
numbering of the mesh. It can be counted in two more ways: by vertices, which is how the
pieces of children are found again, and by the vertex that the refined mesh has in the
middle of it, which is how the elements are told that share the parts.
-/

import MeshIncidence.Proofs.Refinement.Sharing

namespace MeshIncidence

/-- How many elements have a local edge with a number. -/
def PairNumbering.degree (edges : PairNumbering) (elements : List Element) (edge : Nat) : Nat :=
  elements.countP fun element =>
    element.edges.any fun ends => edges.find? ends.1 ends.2 = some edge

/-- How many elements have a local face with a number. -/
def FaceNumbering.degree (faces : FaceNumbering) (elements : List Element) (face : Nat) : Nat :=
  elements.countP fun element =>
    element.faces.any fun vertices => faces.find? vertices = some face

/-- Lists of two are the same up to order when they are the same unordered pair. -/
theorem pair_perm_iff {first second third fourth : Nat} :
    [first, second].Perm [third, fourth] ↔
      PairNumbering.key first second = PairNumbering.key third fourth := by
  constructor
  · intro hperm
    rw [← extremes_pair, ← extremes_pair, extremes_perm hperm]
  · intro hequal
    rcases PairNumbering.key_eq_key_iff.mp hequal with ⟨rfl, rfl⟩ | ⟨rfl, rfl⟩
    · exact .rfl
    · exact .swap _ _ _

namespace ElementMesh

variable {mesh : ElementMesh} {shape : CellShape} {element : Element} {index : Nat}
  {edges : PairNumbering}

/-- The degree of an edge, counted by the vertices of the edge. -/
theorem edgeDegree_eq (hshape : ∀ element ∈ mesh.elements, element.shape = shape)
    (hlists : edges.Lists mesh.edgeKeys) {edge first second : Nat}
    (hedge : mesh.edgeKeys[edge]? = some (PairNumbering.key first second)) :
    edges.degree mesh.elements edge =
      mesh.elements.countP fun element => element.hasPiece shape.edgeCorners [first, second] := by
  refine List.countP_congr fun element helement => ?_
  rw [Element.hasPiece_iff, Element.edges, hshape element helement]
  simp only [List.any_map, List.any_eq_true, Function.comp_apply, decide_eq_true_eq,
    hlists.find?_eq_some_iff, hedge, Option.some.injEq, CellShape.edgeCorners, List.mem_map,
    exists_exists_and_eq_and, List.map_cons, List.map_nil, pair_perm_iff]
  exact exists_congr fun ends => and_congr_right fun _ => eq_comm

/-- The degree of a face, counted by the vertices of the face. -/
theorem faceDegree_eq (hshape : ∀ element ∈ mesh.elements, element.shape = shape)
    {face : Nat} {vertices : List Nat}
    (hface : mesh.faceKeys[face]? = some (ascending vertices)) :
    FaceNumbering.degree ⟨mesh.faceKeys⟩ mesh.elements face =
      mesh.elements.countP fun element => element.hasPiece shape.faces vertices := by
  refine List.countP_congr fun element helement => ?_
  have hfound : ∀ row ∈ element.faces,
      FaceNumbering.find? ⟨mesh.faceKeys⟩ row = some face ↔ row.Perm vertices := by
    intro row hrow
    rw [find?_face_eq_some_iff (Element.isFace_of_mem_faces hrow), hface, Option.some.injEq,
      ascending_eq_ascending_iff]
    exact List.perm_comm
  rw [Element.hasPiece_iff, List.any_eq_true, ← hshape element helement]
  simp only [decide_eq_true_eq]
  rw [exists_congr fun row => and_congr_right (hfound row), Element.faces]
  simp only [List.mem_map, exists_exists_and_eq_and]

theorem countP_zipIdx {elements : List Element} {test : Element × Nat → Bool}
    {other : Element → Bool}
    (hsame : ∀ element index, elements[index]? = some element →
      (test (element, index) ↔ other element)) :
    elements.zipIdx.countP test = elements.countP other := by
  conv_rhs => rw [← List.zipIdx_map_fst 0 elements, List.countP_map]
  refine List.countP_congr ?_
  rintro ⟨element, index⟩ hmember
  exact hsame element index (List.mem_zipIdx_iff_getElem?.mp hmember)

/-- Middles of an edge are at the local edges with its number. -/
theorem bears_middle_iff (hsound : mesh.Sound) (huniform : mesh.IsUniform shape)
    (helement : mesh.elements[index]? = some element) {edge : Nat}
    (hedge : edge < mesh.edgeKeys.length) :
    mesh.bears shape (mesh.middleVertex edge) (element, index) ↔
      ∃ number < shape.edges.length, mesh.edgeAt element number = edge := by
  rw [bears_iff]
  constructor
  · rintro ⟨place, hplace, hvertex⟩
    have hallots := allots_vertexAt hsound huniform helement (CellShape.mem_places_iff.mp hplace)
    rw [hvertex] at hallots
    cases place with
    | middle number =>
        exact ⟨number, CellShape.middle_mem_places.mp hplace, Nat.add_left_cancel hvertex⟩
    | _ => simp only [Allots, middleVertex, faceVertex, centerVertex] at hallots; omega
  · rintro ⟨number, hnumber, rfl⟩
    exact ⟨.middle number, CellShape.middle_mem_places.mpr hnumber, rfl⟩

/-- Centers of a face are at the local faces with its number. -/
theorem bears_faceCenter_iff (hsound : mesh.Sound) (huniform : mesh.IsUniform shape)
    (helement : mesh.elements[index]? = some element) {face : Nat}
    (hface : face < mesh.faceKeys.length) :
    mesh.bears shape (mesh.faceVertex face) (element, index) ↔
      ∃ number < shape.faces.length, mesh.faceAt element number = face := by
  rw [bears_iff]
  constructor
  · rintro ⟨place, hplace, hvertex⟩
    have hallots := allots_vertexAt hsound huniform helement (CellShape.mem_places_iff.mp hplace)
    rw [hvertex] at hallots
    cases place with
    | faceCenter number =>
        exact ⟨number, CellShape.faceCenter_mem_places.mp hplace, Nat.add_left_cancel hvertex⟩
    | _ => simp only [Allots, middleVertex, faceVertex, centerVertex] at hallots; omega
  · rintro ⟨number, hnumber, rfl⟩
    exact ⟨.faceCenter number, CellShape.faceCenter_mem_places.mpr hnumber, rfl⟩

/-- The center of an element is in no other element. -/
theorem bears_center_iff (hsound : mesh.Sound) (huniform : mesh.IsUniform shape)
    {position center : Nat} (helement : mesh.elements[position]? = some element) :
    mesh.bears shape (mesh.centerVertex center) (element, position) ↔ position = center := by
  rw [bears_iff]
  constructor
  · rintro ⟨place, hplace, hvertex⟩
    have hallots := allots_vertexAt hsound huniform helement (CellShape.mem_places_iff.mp hplace)
    rw [hvertex] at hallots
    cases place with
    | center => exact Nat.add_left_cancel hvertex
    | _ => simp only [Allots, middleVertex, faceVertex, centerVertex] at hallots; omega
  · rintro rfl
    exact ⟨.center, CellShape.center_mem_places, rfl⟩

/-- The elements with the middle of an edge are those with the edge. -/
theorem countP_bears_middle (hsound : mesh.Sound) (huniform : mesh.IsUniform shape)
    (hlists : edges.Lists mesh.edgeKeys) {edge : Nat} (hedge : edge < mesh.edgeKeys.length) :
    mesh.elements.zipIdx.countP (mesh.bears shape (mesh.middleVertex edge)) =
      edges.degree mesh.elements edge := by
  refine countP_zipIdx fun element index helement => ?_
  have hmember := List.mem_of_getElem? helement
  have hshape := huniform.shape_eq element hmember
  rw [bears_middle_iff hsound huniform helement hedge, List.any_eq_true]
  simp only [decide_eq_true_eq, hlists.find?_eq_some_iff]
  constructor
  · rintro ⟨number, hnumber, rfl⟩
    have hends := List.getElem?_eq_getElem hnumber
    exact ⟨_, List.mem_of_getElem? (Element.getElem?_edges hshape hends),
      getElem?_edgeAt hmember hshape hends⟩
  · rintro ⟨ends, hends, hkey⟩
    rw [Element.edges, hshape] at hends
    obtain ⟨corners, hcorners, rfl⟩ := List.mem_map.mp hends
    obtain ⟨number, hnumber⟩ := List.mem_iff_getElem?.mp hcorners
    have hat := getElem?_edgeAt hmember hshape hnumber
    exact ⟨number, (List.getElem?_eq_some_iff.mp hnumber).1,
      ((List.getElem?_inj hedge mesh.nodup_edgeKeys).mp (hkey.trans hat.symm)).symm⟩

/-- The elements with the center of a face are those with the face. -/
theorem countP_bears_faceCenter (hsound : mesh.Sound) (huniform : mesh.IsUniform shape)
    {face : Nat} (hface : face < mesh.faceKeys.length) :
    mesh.elements.zipIdx.countP (mesh.bears shape (mesh.faceVertex face)) =
      FaceNumbering.degree ⟨mesh.faceKeys⟩ mesh.elements face := by
  refine countP_zipIdx fun element index helement => ?_
  have hmember := List.mem_of_getElem? helement
  have hshape := huniform.shape_eq element hmember
  rw [bears_faceCenter_iff hsound huniform helement hface, List.any_eq_true]
  simp only [decide_eq_true_eq]
  constructor
  · rintro ⟨number, hnumber, rfl⟩
    have hcorners := List.getElem?_eq_getElem hnumber
    have hrow := List.mem_of_getElem? (Element.getElem?_faces hshape hcorners)
    exact ⟨_, hrow, (find?_face_eq_some_iff (Element.isFace_of_mem_faces hrow)).mpr
      (getElem?_faceAt hmember hshape hcorners)⟩
  · rintro ⟨row, hrow, hfound⟩
    rw [find?_face_eq_some_iff (Element.isFace_of_mem_faces hrow)] at hfound
    rw [Element.faces, hshape] at hrow
    obtain ⟨corners, hcorners, rfl⟩ := List.mem_map.mp hrow
    obtain ⟨number, hnumber⟩ := List.mem_iff_getElem?.mp hcorners
    have hat := getElem?_faceAt hmember hshape hnumber
    exact ⟨number, (List.getElem?_eq_some_iff.mp hnumber).1,
      ((List.getElem?_inj hface mesh.nodup_faceKeys).mp (hfound.trans hat.symm)).symm⟩

/-- One element has the center of an element. -/
theorem countP_bears_center (hsound : mesh.Sound) (huniform : mesh.IsUniform shape)
    (helement : mesh.elements[index]? = some element) :
    mesh.elements.zipIdx.countP (mesh.bears shape (mesh.centerVertex index)) = 1 := by
  have hindex := (List.getElem?_eq_some_iff.mp helement).1
  have hbears : ∀ member ∈ mesh.elements.zipIdx,
      mesh.bears shape (mesh.centerVertex index) member ↔ (member.2 == index) = true := by
    rintro ⟨other, position⟩ hmember
    rw [bears_center_iff hsound huniform (List.mem_zipIdx_iff_getElem?.mp hmember), beq_iff_eq]
  have hcount : (mesh.elements.zipIdx.map Prod.snd).count index = 1 := by
    rw [List.zipIdx_map_snd]
    exact List.count_eq_one_of_mem List.nodup_range' (by simpa using hindex)
  rw [List.countP_congr hbears, ← hcount, List.count, List.countP_map]
  rfl

end ElementMesh

end MeshIncidence
