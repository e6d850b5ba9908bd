/-
# Shapes of mesh elements

Each shape fixes how many corners an element has and which of its corners form
its local edges and faces. The order of the local edges and faces matters: the
numbering of a mesh follows it, so files that refer to edges and faces by their
vertices keep their meaning only under this very order.

Corners are referred to by their position in the element's corner list. Faces
are listed for solids only; a flat element is not a face of itself.
-/

namespace MeshIncidence

/-- The shapes an element of a mesh can have. -/
inductive CellShape
  | segment
  | triangle
  | quadrilateral
  | tetrahedron
  | hexahedron
deriving DecidableEq, Repr

namespace CellShape

/-- All shapes, by dimension. -/
def all : List CellShape :=
  [.segment, .triangle, .quadrilateral, .tetrahedron, .hexahedron]

/-- The word used for a shape in messages and listings. -/
def name : CellShape → String
  | .segment => "Segment"
  | .triangle => "Triangle"
  | .quadrilateral => "Quadrilateral"
  | .tetrahedron => "Tetrahedron"
  | .hexahedron => "Hexahedron"

/-- The shape with a given name. -/
def ofName? (name : String) : Option CellShape :=
  all.find? fun shape => shape.name == name

/-- Topological dimension. -/
def dimension : CellShape → Nat
  | .segment => 1
  | .triangle => 2
  | .quadrilateral => 2
  | .tetrahedron => 3
  | .hexahedron => 3

/-- Number of corners. -/
def cornerCount : CellShape → Nat
  | .segment => 2
  | .triangle => 3
  | .quadrilateral => 4
  | .tetrahedron => 4
  | .hexahedron => 8

/-- The corner pairs joined by a local edge, in numbering order. -/
def edges : CellShape → List (Nat × Nat)
  | .segment => [(0, 1)]
  | .triangle => [(0, 1), (1, 2), (2, 0)]
  | .quadrilateral => [(0, 1), (1, 2), (2, 3), (3, 0)]
  | .tetrahedron => [(0, 1), (0, 2), (0, 3), (1, 2), (1, 3), (2, 3)]
  | .hexahedron =>
    [(0, 1), (1, 2), (3, 2), (0, 3), (4, 5), (5, 6), (7, 6), (4, 7),
      (0, 4), (1, 5), (2, 6), (3, 7)]

/-- The corner lists of the local faces, in numbering order; none below
dimension three. -/
def faces : CellShape → List (List Nat)
  | .tetrahedron => [[1, 2, 3], [0, 3, 2], [0, 1, 3], [0, 2, 1]]
  | .hexahedron =>
    [[3, 2, 1, 0], [0, 1, 5, 4], [1, 2, 6, 5], [2, 3, 7, 6], [3, 0, 4, 7], [4, 5, 6, 7]]
  | _ => []

/-- The tag that stands for a face of this shape in a set file. Only the flat
shapes can be faces. -/
def faceTag : CellShape → Option Int
  | .triangle => some 2
  | .quadrilateral => some 3
  | _ => none

/-- The shape a face tag stands for. -/
def ofFaceTag? (tag : Int) : Option CellShape :=
  if tag = 2 then some .triangle
  else if tag = 3 then some .quadrilateral
  else none

/-- No two shapes share a name, so each is found by its own. -/
theorem ofName?_name (shape : CellShape) : ofName? shape.name = some shape := by
  cases shape <;> decide

/-- A local edge joins two corners of its shape. -/
theorem lt_cornerCount_of_mem_edges (shape : CellShape) :
    ∀ edge ∈ shape.edges, edge.1 < shape.cornerCount ∧ edge.2 < shape.cornerCount := by
  cases shape <;> decide

/-- A local face has three or four corners, all of its shape. -/
theorem lt_cornerCount_of_mem_faces (shape : CellShape) :
    ∀ face ∈ shape.faces, (face.length = 3 ∨ face.length = 4) ∧
      ∀ corner ∈ face, corner < shape.cornerCount := by
  cases shape <;> decide

/-- Reading a face tag back gives the shape it was written for. -/
theorem ofFaceTag?_eq_some_iff (tag : Int) (shape : CellShape) :
    ofFaceTag? tag = some shape ↔ shape.faceTag = some tag := by
  unfold ofFaceTag?
  cases shape <;> grind [faceTag]

end CellShape

end MeshIncidence
