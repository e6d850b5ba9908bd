/-
# Uniform refinement of meshes

Every quadrilateral is split into four and every hexahedron into eight, by new
vertices in the middle of its edges, its faces and itself. An edge, face or
element that elements share gets one new vertex, so the pieces fit together
wherever the elements did.

New vertices are numbered after the old ones: first those of the edges, then
those of the faces, then those of the elements, each in the order of the old
numbers. The first child of an element takes the element's place; the other
children of all elements follow after the last element, family by family.

Unlike a mesh of given elements or a grid, a split mesh names no size of its own. It
grows along with elements that are stored already, by at most eight for one and
nineteen vertices, so splitting neither asks for room nor checks that a number is a
word. Either could fail only for a mesh of more than 2 ^ 50 elements, or of more than
2 ^ 52 vertices, each of which has a row in a numbering of edges. Such a mesh takes
2 ^ 56 bytes itself, more than can be addressed.
-/

import MeshIncidence.Mesh.ElementMesh
import MeshIncidence.Journal

namespace MeshIncidence

/-- Families in the order of a refined mesh: the first child of each family, and
after them the other children, family by family. -/
def firstChildrenFirst {α : Type} (families : List (List α)) : List α :=
  families.filterMap List.head? ++ families.flatMap List.tail

/-- The number of the face with given vertices. -/
def FaceNumbering.face (faces : FaceNumbering) (vertices : List Nat) : Result Nat :=
  match faces.find? vertices with
  | some number => .ok number
  | none => refuse (.unknownEntity .face vertices)

/-- The children of a quadrilateral with given corners, middles of its edges and
center, each touching the corner of its place. -/
def quadrilateralChildren {α : Type} (corner middle : Nat → α) (center : α) : List (List α) :=
  [[corner 0, middle 0, center, middle 3],
    [middle 0, corner 1, middle 1, center],
    [center, middle 1, corner 2, middle 2],
    [middle 3, center, middle 2, corner 3]]

/-- The points of a split hexahedron by their place in a lattice of three by
three by three: corners, middles of edges, centers of faces, and the center. -/
def latticePoint {α : Type} (corner middle faceCenter : Nat → α) (center : α) :
    Nat → Nat → Nat → α
  | 0, 0, 0 => corner 0
  | 2, 0, 0 => corner 1
  | 2, 2, 0 => corner 2
  | 0, 2, 0 => corner 3
  | 0, 0, 2 => corner 4
  | 2, 0, 2 => corner 5
  | 2, 2, 2 => corner 6
  | 0, 2, 2 => corner 7
  | 1, 0, 0 => middle 0
  | 2, 1, 0 => middle 1
  | 1, 2, 0 => middle 2
  | 0, 1, 0 => middle 3
  | 1, 0, 2 => middle 4
  | 2, 1, 2 => middle 5
  | 1, 2, 2 => middle 6
  | 0, 1, 2 => middle 7
  | 0, 0, 1 => middle 8
  | 2, 0, 1 => middle 9
  | 2, 2, 1 => middle 10
  | 0, 2, 1 => middle 11
  | 1, 1, 0 => faceCenter 0
  | 1, 0, 1 => faceCenter 1
  | 2, 1, 1 => faceCenter 2
  | 1, 2, 1 => faceCenter 3
  | 0, 1, 1 => faceCenter 4
  | 1, 1, 2 => faceCenter 5
  | _, _, _ => center

/-- The lowest lattice places of the children of a hexahedron, each child
touching the corner of its place. -/
def octants : List (Nat × Nat × Nat) :=
  [(0, 0, 0), (1, 0, 0), (1, 1, 0), (0, 1, 0), (0, 0, 1), (1, 0, 1), (1, 1, 1), (0, 1, 1)]

/-- The children of a hexahedron with given corners, middles of its edges, centers
of its faces, and center. -/
def hexahedronChildren {α : Type} (corner middle faceCenter : Nat → α) (center : α) :
    List (List α) :=
  octants.map fun (x, y, z) =>
    octants.map fun (dx, dy, dz) =>
      latticePoint corner middle faceCenter center (x + dx) (y + dy) (z + dz)

namespace ElementMesh

variable (mesh : ElementMesh)

/-- Every element has a given shape. -/
def allOfShape (shape : CellShape) : Bool :=
  mesh.elements.all fun element => element.shape == shape

/-- The elements of a split mesh of quadrilaterals, and its number of vertices. Room for
them is not asked for: it is there for all meshes that can be stored. -/
def splitQuadrilaterals : Result (Nat × List Element) := do
  let edges ← mesh.edges
  let firstCenter := mesh.vertexCount + edges.count
  let families ← mesh.elements.zipIdx.mapM fun (element, index) => do
    let numbers ← (sides element.vertices).mapM fun (first, second) =>
      edges.edge first second
    let middle := fun position => mesh.vertexCount + numbers.getD position 0
    return (quadrilateralChildren element.corner middle (firstCenter + index)).map
      (Element.mk .quadrilateral)
  return (firstCenter + mesh.elements.length, firstChildrenFirst families)

/-- The elements of a split mesh of hexahedra, and its number of vertices. Room for
them is not asked for: it is there for all meshes that can be stored. -/
def splitHexahedra : Result (Nat × List Element) := do
  let edges ← mesh.edges
  let faces ← mesh.faces
  let firstFaceCenter := mesh.vertexCount + edges.count
  let firstCenter := firstFaceCenter + faces.count
  let families ← mesh.elements.zipIdx.mapM fun (element, index) => do
    let edgeNumbers ← element.edges.mapM fun (first, second) => edges.edge first second
    let faceNumbers ← element.faces.mapM faces.face
    let middle := fun position => mesh.vertexCount + edgeNumbers.getD position 0
    let faceCenter := fun position => firstFaceCenter + faceNumbers.getD position 0
    return (hexahedronChildren element.corner middle faceCenter (firstCenter + index)).map
      (Element.mk .hexahedron)
  return (firstCenter + mesh.elements.length, firstChildrenFirst families)

/-- The elements of the split mesh and its number of vertices, for a mesh that
can be split. -/
def split : Result (Nat × List Element) :=
  if mesh.dimension = 2 ∧ mesh.allOfShape .quadrilateral then mesh.splitQuadrilaterals
  else if mesh.dimension = 3 ∧ mesh.allOfShape .hexahedron then mesh.splitHexahedra
  else refuse (.mesh .notUniform)

/-- The mesh with new vertices and elements in the place of its own. The derived
tables kept before are those of the old elements and are dropped. -/
def replaceElements (vertexCount : Nat) (elements : List Element) : Result ElementMesh :=
  recount { mesh with vertexCount := vertexCount, elements := elements, tables := .none }

/-- The split mesh. -/
def refined : Result ElementMesh := do
  let (vertexCount, elements) ← mesh.split
  mesh.replaceElements vertexCount elements

/-- Split a mesh in place. A mesh that cannot be split stays as it is. A mesh
that can be stored fails in no other way: for the split mesh there is room, and its numbers
are words. -/
def refine : Action ElementMesh Unit := do
  let mesh ← Action.state
  let (vertexCount, elements) ← Action.ofResult mesh.split
  Action.note (.refinedMesh mesh.elements.length elements.length mesh.vertexCount vertexCount)
  let mesh ← Action.ofResult (mesh.replaceElements vertexCount elements)
  Action.setState mesh

end ElementMesh

end MeshIncidence
