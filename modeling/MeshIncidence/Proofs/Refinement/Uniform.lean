/-
# The refined mesh as a function of the elements

Splitting a mesh looks edges and faces up in numberings that could fail to know
them. In a sound mesh they do not fail, and the split mesh is `refinement`: every
element gives its family, and the vertex at each place of an element is a number
that depends on what the place lies in the middle of.

The numbers of corners, middles, face centers and centers lie in four ranges, one
after the other. So an equation between vertices of the refined mesh says that both
are of one sort, and then that they belong to the same edge, face or element.
-/

import MeshIncidence.Proofs.Mesh.Soundness
import MeshIncidence.Proofs.Refinement.Families
import MeshIncidence.Proofs.Refinement.Template

namespace MeshIncidence

namespace ElementMesh

variable (mesh : ElementMesh)

/-- All elements have one shape that is split uniformly, in a mesh of its dimension. -/
structure IsUniform (shape : CellShape) : Prop where
  splits : shape.IsSplit
  dimension_eq : mesh.dimension = shape.dimension
  shape_eq : ∀ element ∈ mesh.elements, element.shape = shape

/-- The number of the edge between two vertices. -/
def edgeNumber (first second : Nat) : Nat :=
  mesh.edgeKeys.idxOf (PairNumbering.key first second)

/-- The number of the face with given vertices. -/
def faceNumber (vertices : List Nat) : Nat := mesh.faceKeys.idxOf (ascending vertices)

/-- The vertex of the refined mesh in the middle of an edge. -/
def middleVertex (edge : Nat) : Nat := mesh.vertexCount + edge

/-- The vertex of the refined mesh in the center of a face. -/
def faceVertex (face : Nat) : Nat := mesh.vertexCount + mesh.edgeKeys.length + face

/-- The vertex of the refined mesh in the center of an element. -/
def centerVertex (index : Nat) : Nat :=
  mesh.vertexCount + mesh.edgeKeys.length + mesh.faceKeys.length + index

/-- The number of a local edge of an element. -/
def edgeAt (element : Element) (edge : Nat) : Nat :=
  (element.edges.map fun ends => mesh.edgeNumber ends.1 ends.2).getD edge 0

/-- The number of a local face of an element. -/
def faceAt (element : Element) (face : Nat) : Nat :=
  (element.faces.map mesh.faceNumber).getD face 0

/-- The vertex of the refined mesh at a place of an element. -/
def vertexAt (element : Element) (index : Nat) : Place → Nat :=
  Place.vertex element.corner (fun edge => mesh.middleVertex (mesh.edgeAt element edge))
    (fun face => mesh.faceVertex (mesh.faceAt element face)) (mesh.centerVertex index)

/-- The child of an element that takes given places. -/
def childAt (shape : CellShape) (element : Element) (index : Nat) (places : List Place) :
    Element :=
  ⟨shape, places.map (mesh.vertexAt element index)⟩

/-- The children of each element. -/
def families (shape : CellShape) : List (List Element) :=
  mesh.elements.zipIdx.map fun (element, index) =>
    shape.children.map (mesh.childAt shape element index)

/-- The refined mesh. -/
def refinement (shape : CellShape) : ElementMesh :=
  counted
    { mesh with
      vertexCount := mesh.centerVertex mesh.elements.length
      elements := firstChildrenFirst (mesh.families shape)
      tables := .none }

variable {mesh} {shape : CellShape}

theorem getElem?_edgeNumber {first second : Nat}
    (hedge : PairNumbering.key first second ∈ mesh.edgeKeys) :
    mesh.edgeKeys[mesh.edgeNumber first second]? = some (PairNumbering.key first second) :=
  List.getElem?_idxOf hedge

theorem getElem?_faceNumber {vertices : List Nat} (hface : ascending vertices ∈ mesh.faceKeys) :
    mesh.faceKeys[mesh.faceNumber vertices]? = some (ascending vertices) :=
  List.getElem?_idxOf hface

/-- Numbered edges are found under the numbers of their keys. -/
theorem find?_edgeNumber {numbering : PairNumbering} (hlists : numbering.Lists mesh.edgeKeys)
    {first second : Nat} (hedge : PairNumbering.key first second ∈ mesh.edgeKeys) :
    numbering.find? first second = some (mesh.edgeNumber first second) :=
  hlists.find?_eq_some_iff.mpr (getElem?_edgeNumber hedge)

theorem edge_eq {numbering : PairNumbering} (hlists : numbering.Lists mesh.edgeKeys)
    {first second : Nat} (hedge : PairNumbering.key first second ∈ mesh.edgeKeys) :
    numbering.edge first second = .ok (mesh.edgeNumber first second) := by
  rw [PairNumbering.edge, find?_edgeNumber hlists hedge]

/-- The row of a face in the face-edge table lists the numbers of its sides. -/
theorem row_faceEdge {face : Nat} {row : List Nat} (hrow : mesh.faceRows[face]? = some row) :
    (mesh.derived .faceEdge).row face =
      .ok ((sides row).map fun side => mesh.edgeNumber side.1 side.2) := by
  apply IncidenceTable.row_ofRows
  rw [faceEdgeRows, List.getElem?_map, hrow, Option.map_some]
  rfl

/-- Numbered faces are found under the numbers of their keys. -/
theorem find?_face_eq_some_iff {vertices : List Nat} (hface : IsFace vertices) {face : Nat} :
    FaceNumbering.find? ⟨mesh.faceKeys⟩ vertices = some face ↔
      mesh.faceKeys[face]? = some (ascending vertices) :=
  FaceNumbering.find?_eq_some_iff mesh.nodup_faceKeys hface

theorem find?_faceNumber {vertices : List Nat} (hface : IsFace vertices)
    (hknown : ascending vertices ∈ mesh.faceKeys) :
    FaceNumbering.find? ⟨mesh.faceKeys⟩ vertices = some (mesh.faceNumber vertices) :=
  (find?_face_eq_some_iff hface).mpr (getElem?_faceNumber hknown)

theorem face_eq {vertices : List Nat} (hface : IsFace vertices)
    (hknown : ascending vertices ∈ mesh.faceKeys) :
    FaceNumbering.face ⟨mesh.faceKeys⟩ vertices = .ok (mesh.faceNumber vertices) := by
  rw [FaceNumbering.face, find?_faceNumber hface hknown]

theorem key_mem_edgeKeys {element : Element} (helement : element ∈ mesh.elements)
    {edge : Nat × Nat} (hedge : edge ∈ element.edges) :
    PairNumbering.key edge.1 edge.2 ∈ mesh.edgeKeys :=
  mem_edgeKeys.mpr ⟨element, helement, edge, hedge, rfl⟩

theorem ascending_mem_faceKeys {element : Element} (helement : element ∈ mesh.elements)
    {vertices : List Nat} (hface : vertices ∈ element.faces) :
    ascending vertices ∈ mesh.faceKeys :=
  mem_faceKeys.mpr ⟨element, helement, vertices, hface, rfl⟩

theorem mem_of_mem_zipIdx {element : Element} {index : Nat}
    (hmember : (element, index) ∈ mesh.elements.zipIdx) : element ∈ mesh.elements :=
  List.mem_of_getElem? (List.mem_zipIdx_iff_getElem?.mp hmember)

/-- A mesh without solids has no faces. -/
theorem faceKeys_eq_nil (huniform : mesh.IsUniform .quadrilateral) : mesh.faceKeys = [] := by
  rw [List.eq_nil_iff_forall_not_mem]
  intro key hkey
  obtain ⟨element, helement, vertices, hface, -⟩ := mem_faceKeys.mp hkey
  rw [Element.faces, huniform.shape_eq element helement] at hface
  exact absurd hface (by simp [CellShape.faces])

/-- Around a quadrilateral the local edges are the sides. -/
theorem sides_vertices {element : Element} (hshape : element.shape = .quadrilateral)
    (hlength : element.vertices.length = 4) : sides element.vertices = element.edges := by
  obtain ⟨shape, vertices⟩ := element
  obtain ⟨a, b, c, d, rfl⟩ := List.length_eq_four.mp hlength
  cases hshape
  rfl

theorem splitQuadrilaterals_eq (hsound : mesh.Sound) (huniform : mesh.IsUniform .quadrilateral) :
    mesh.splitQuadrilaterals = .ok (mesh.centerVertex mesh.elements.length,
      firstChildrenFirst (mesh.families .quadrilateral)) := by
  obtain ⟨numbering, hnumbering, hlists⟩ := edges_eq hsound.fits
  have hcenter (index : Nat) :
      mesh.centerVertex index = mesh.vertexCount + mesh.edgeKeys.length + index := by
    rw [centerVertex, faceKeys_eq_nil huniform, List.length_nil, Nat.add_zero]
  simp only [splitQuadrilaterals, hnumbering, Result.ok_bind, hlists.count_eq, ← hcenter]
  refine Result.bind_eq_ok_iff.mpr ⟨mesh.families .quadrilateral, Result.mapM_eq_ok ?_, rfl⟩
  rintro ⟨element, index⟩ hmember
  have helement := mem_of_mem_zipIdx hmember
  have hshape := huniform.shape_eq element helement
  have hlength := (hsound.fits element helement).length_eq
  rw [hshape] at hlength
  have hnumbers := Result.mapM_eq_ok fun edge hedge =>
    edge_eq hlists (key_mem_edgeKeys helement hedge)
  simp only [sides_vertices hshape hlength, hnumbers, Result.ok_bind, Result.pure_eq_ok]
  rfl

theorem splitHexahedra_eq (hsound : mesh.Sound) :
    mesh.splitHexahedra = .ok
      (mesh.centerVertex mesh.elements.length, firstChildrenFirst (mesh.families .hexahedron)) := by
  obtain ⟨numbering, hnumbering, hlists⟩ := edges_eq hsound.fits
  simp only [splitHexahedra, hnumbering, faces_eq, Result.ok_bind, hlists.count_eq]
  refine Result.bind_eq_ok_iff.mpr ⟨mesh.families .hexahedron, Result.mapM_eq_ok ?_, rfl⟩
  rintro ⟨element, index⟩ hmember
  have helement := mem_of_mem_zipIdx hmember
  have hedges := Result.mapM_eq_ok fun edge hedge =>
    edge_eq hlists (key_mem_edgeKeys helement hedge)
  have hfaces := Result.mapM_eq_ok fun vertices hface =>
    face_eq (Element.isFace_of_mem_faces hface) (ascending_mem_faceKeys helement hface)
  simp only [hedges, hfaces, Result.ok_bind, Result.pure_eq_ok]
  rfl

theorem allOfShape_iff :
    mesh.allOfShape shape = true ↔ ∀ element ∈ mesh.elements, element.shape = shape := by
  simp [allOfShape]

theorem split_eq (hsound : mesh.Sound) (huniform : mesh.IsUniform shape) :
    mesh.split = .ok
      (mesh.centerVertex mesh.elements.length, firstChildrenFirst (mesh.families shape)) := by
  have hall := allOfShape_iff.mpr huniform.shape_eq
  have hdimension := huniform.dimension_eq
  rcases huniform.splits with rfl | rfl
  · rw [split, if_pos ⟨hdimension, hall⟩]
    exact splitQuadrilaterals_eq hsound huniform
  · have hother : ¬ (mesh.dimension = 2 ∧ mesh.allOfShape .quadrilateral = true) := by
      rw [hdimension]
      exact fun hboth => absurd hboth.1 (by decide)
    rw [split, if_neg hother, if_pos ⟨hdimension, hall⟩]
    exact splitHexahedra_eq hsound

/-- Only meshes of one such shape are split. -/
theorem isUniform_of_split_eq {outcome : Nat × List Element} (hsplit : mesh.split = .ok outcome) :
    ∃ shape, mesh.IsUniform shape := by
  rw [split] at hsplit
  split at hsplit
  · rename_i hflat
    exact ⟨.quadrilateral, .inl rfl, hflat.1, allOfShape_iff.mp hflat.2⟩
  · split at hsplit
    · rename_i hsolid
      exact ⟨.hexahedron, .inr rfl, hsolid.1, allOfShape_iff.mp hsolid.2⟩
    · exact absurd hsplit (by simp [refuse])

theorem mem_families {family : List Element} (hfamily : family ∈ mesh.families shape) :
    ∃ element index, mesh.elements[index]? = some element ∧
      family = shape.children.map (mesh.childAt shape element index) := by
  obtain ⟨⟨element, index⟩, hmember, rfl⟩ := List.mem_map.mp hfamily
  exact ⟨element, index, List.mem_zipIdx_iff_getElem?.mp hmember, rfl⟩

/-- The elements of the refined mesh are the children of the elements. -/
theorem mem_elements_refinement {child : Element} :
    child ∈ (mesh.refinement shape).elements ↔
      ∃ element index, mesh.elements[index]? = some element ∧
        ∃ places ∈ shape.children, mesh.childAt shape element index places = child := by
  show child ∈ firstChildrenFirst (mesh.families shape) ↔ _
  rw [mem_firstChildrenFirst]
  constructor
  · rintro ⟨family, hfamily, hchild⟩
    obtain ⟨element, index, helement, rfl⟩ := mem_families hfamily
    exact ⟨element, index, helement, List.mem_map.mp hchild⟩
  · rintro ⟨element, index, helement, hchild⟩
    exact ⟨_, List.mem_map.mpr ⟨(element, index), List.mem_zipIdx_iff_getElem?.mpr helement, rfl⟩,
      List.mem_map.mpr hchild⟩

end ElementMesh

end MeshIncidence
