/-
# How a shape is split

Which corners, middles and centers a child takes is the same for every element of a
shape, whatever its vertices are. `CellShape.children` keeps it as data: each child
is the list of its places. What neighbors share, which sub-faces a face has, and
that a child has no place twice are then finite facts about two shapes.

A statement about the refined mesh is proved from these facts and the numbers that
the mesh gives to the places, and never by going through the children again.
-/

import MeshIncidence.Mesh.Refinement

namespace MeshIncidence

/-- The member at a place of a list of four, counted around. -/
def around (row : List Nat) (position : Nat) : Nat := row.getD (position % 4) 0

/-- A point of a split element by what it lies in the middle of. -/
inductive Place
  | corner (position : Nat)
  | middle (edge : Nat)
  | faceCenter (face : Nat)
  | center
deriving DecidableEq, Repr

namespace Place

/-- The vertex at a place, given the vertices at the places of each sort. -/
def vertex (corner middle faceCenter : Nat → Nat) (center : Nat) : Place → Nat
  | .corner position => corner position
  | .middle edge => middle edge
  | .faceCenter face => faceCenter face
  | .center => center

/-- A shape has a place when it has the corner, edge or face in question. -/
def isOn (shape : CellShape) : Place → Bool
  | .corner position => position < shape.cornerCount
  | .middle edge => edge < shape.edges.length
  | .faceCenter face => face < shape.faces.length
  | .center => true

/-- A corner and the middle of an edge touch when the edge ends at the corner. -/
def touches (shape : CellShape) : Place → Place → Bool
  | .corner position, .middle edge =>
    let ends := shape.edges.getD edge (0, 0)
    position = ends.1 || position = ends.2
  | _, _ => true

end Place

/-- Every shape has corners. -/
theorem CellShape.cornerCount_eq (shape : CellShape) :
    shape.cornerCount = shape.cornerCount - 1 + 1 := by
  cases shape <;> rfl

/-- The local edges of a child by their places. -/
def placeEdges (shape : CellShape) (places : List Place) : List (Place × Place) :=
  shape.edges.map fun (first, second) => (places.getD first .center, places.getD second .center)

/-- The local faces of a child by their places. -/
def placeFaces (shape : CellShape) (places : List Place) : List (List Place) :=
  shape.faces.map fun corners => corners.map fun position => places.getD position .center

namespace CellShape

/-- The children of a shape by their places; none for a shape that is not split. -/
def children : CellShape → List (List Place)
  | .quadrilateral => quadrilateralChildren .corner .middle .center
  | .hexahedron => hexahedronChildren .corner .middle .faceCenter .center
  | _ => []

/-- The shapes that are split uniformly. -/
def IsSplit (shape : CellShape) : Prop := shape = .quadrilateral ∨ shape = .hexahedron

/-- The local edge that joins two corners. -/
def edgeBetween (shape : CellShape) (first second : Nat) : Nat :=
  shape.edges.findIdx fun edge => edge = (first, second) ∨ edge = (second, first)

/-- The places of the sub-face at one corner of a face of four: the corner, the middles
of the sides after and before it, and the center of the face. -/
def quarter (shape : CellShape) (corners : List Nat) (face position : Nat) : List Place :=
  [.corner (around corners position),
    .middle (shape.edgeBetween (around corners position) (around corners (position + 1))),
    .middle (shape.edgeBetween (around corners (position + 3)) (around corners position)),
    .faceCenter face]

variable {shape : CellShape}

/-- There is a child at each corner. -/
theorem length_children (hsplit : shape.IsSplit) :
    shape.children.length = shape.cornerCount := by
  rcases hsplit with rfl | rfl <;> rfl

theorem length_of_mem_children (hsplit : shape.IsSplit) :
    ∀ places ∈ shape.children, places.length = shape.cornerCount := by
  rcases hsplit with rfl | rfl <;> decide

/-- The child at a corner has that corner in the same position. -/
theorem getElem?_children (hsplit : shape.IsSplit) {position : Nat}
    (hposition : position < shape.cornerCount) :
    ∃ places, shape.children[position]? = some places ∧
      places[position]? = some (.corner position) := by
  have hall : ∀ position ∈ List.range shape.cornerCount,
      (shape.children.getD position [])[position]? = some (.corner position) := by
    rcases hsplit with rfl | rfl <;> decide
  have hlt : position < shape.children.length := by rwa [length_children hsplit]
  refine ⟨shape.children[position], List.getElem?_eq_getElem hlt, ?_⟩
  simpa [hlt] using hall position (List.mem_range.mpr hposition)

theorem isOn_of_mem_children (hsplit : shape.IsSplit) :
    ∀ places ∈ shape.children, ∀ place ∈ places, place.isOn shape := by
  rcases hsplit with rfl | rfl <;> decide

theorem nodup_of_mem_children (hsplit : shape.IsSplit) :
    ∀ places ∈ shape.children, places.Nodup := by
  rcases hsplit with rfl | rfl <;> decide

/-- Both halves of a local edge are local edges of children. -/
theorem half_mem_placeEdges (hsplit : shape.IsSplit) :
    ∀ edge ∈ shape.edges.zipIdx, ∀ position ∈ [edge.1.1, edge.1.2],
      ∃ places ∈ shape.children,
        (.corner position, .middle edge.2) ∈ placeEdges shape places ∨
          (.middle edge.2, .corner position) ∈ placeEdges shape places := by
  rcases hsplit with rfl | rfl <;> decide

/-- Away from the center of the element, a sub-face has the middles of such edges
only as end at its corner. -/
theorem touches_of_mem_placeFaces (hsplit : shape.IsSplit) :
    ∀ places ∈ shape.children, ∀ face ∈ placeFaces shape places, .center ∉ face →
      ∀ place ∈ face, ∀ other ∈ face, place.touches shape other := by
  rcases hsplit with rfl | rfl <;> decide +kernel

/-- Each quarter of a local face of a hexahedron is a local face of a child. -/
theorem quarter_mem_placeFaces :
    ∀ face ∈ hexahedron.faces.zipIdx, ∀ position ∈ List.range 4,
      ∃ places ∈ hexahedron.children, ∃ part ∈ placeFaces hexahedron places,
        part.Perm (hexahedron.quarter face.1 face.2 position) := by
  decide +kernel

/-- Two corners that are the ends of a local edge are joined by it. -/
theorem getElem?_edgeBetween {first second : Nat}
    (hedge : (first, second) ∈ shape.edges ∨ (second, first) ∈ shape.edges) :
    shape.edges[shape.edgeBetween first second]? = some (first, second) ∨
      shape.edges[shape.edgeBetween first second]? = some (second, first) := by
  have hfound : shape.edgeBetween first second < shape.edges.length := by
    apply List.findIdx_lt_length_of_exists
    rcases hedge with hedge | hedge
    · exact ⟨_, hedge, by simp⟩
    · exact ⟨_, hedge, by simp⟩
  have hends := List.findIdx_getElem (w := hfound)
  rw [decide_eq_true_eq] at hends
  rw [List.getElem?_eq_getElem hfound, Option.some.injEq, Option.some.injEq]
  exact hends

theorem length_of_mem_hexahedron_faces : ∀ corners ∈ hexahedron.faces, corners.length = 4 := by
  decide

end CellShape

end MeshIncidence
