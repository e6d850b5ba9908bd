/-
# Regular grids

A grid divides a rectangle into quadrilaterals or a box into hexahedra. Vertices
and elements are numbered along the first direction first. A grid with no cells
in some direction still has the vertices of its other directions.
-/

import MeshIncidence.Mesh.ElementMesh

namespace MeshIncidence

/-- Bytes of one element without its vertices. -/
def elementBytes : Nat := 32

/-- How many vertices stand along a direction with so many cells. -/
def verticesAlong (cells : Nat) : Result Nat := addWords cells 1

namespace ElementMesh

/-- The vertex at a place of a grid with `nx` cells along the first direction. -/
def planarVertex (nx i j : Nat) : Nat := j * (nx + 1) + i

/-- The quadrilateral at a place of a grid. -/
def quadrilateralAt (nx i j : Nat) : Element :=
  let vertex := planarVertex nx
  ⟨.quadrilateral, [vertex i j, vertex (i + 1) j, vertex (i + 1) (j + 1), vertex i (j + 1)]⟩

/-- A grid of `nx` by `ny` quadrilaterals. -/
def quadrilateralGrid (nx ny : Nat) : Result ElementMesh := do
  reserve (← mulWords nx ny) elementBytes
  let vertexCount ← mulWords (← verticesAlong nx) (← verticesAlong ny)
  ofElements 2 vertexCount <|
    (List.range ny).flatMap fun j => (List.range nx).map fun i => quadrilateralAt nx i j

/-- The vertex at a place of a grid with `nx` by `ny` cells in each layer. -/
def solidVertex (nx ny i j k : Nat) : Nat := (k * (ny + 1) + j) * (nx + 1) + i

/-- The hexahedron at a place of a grid. -/
def hexahedronAt (nx ny i j k : Nat) : Element :=
  let vertex := solidVertex nx ny
  ⟨.hexahedron,
    [vertex i j k, vertex (i + 1) j k, vertex (i + 1) (j + 1) k, vertex i (j + 1) k,
      vertex i j (k + 1), vertex (i + 1) j (k + 1), vertex (i + 1) (j + 1) (k + 1),
      vertex i (j + 1) (k + 1)]⟩

/-- A grid of `nx` by `ny` by `nz` hexahedra. -/
def hexahedronGrid (nx ny nz : Nat) : Result ElementMesh := do
  reserve (← mulWords (← mulWords nx ny) nz) elementBytes
  let layer ← mulWords (← verticesAlong nx) (← verticesAlong ny)
  let vertexCount ← mulWords layer (← verticesAlong nz)
  ofElements 3 vertexCount <|
    (List.range nz).flatMap fun k => (List.range ny).flatMap fun j =>
      (List.range nx).map fun i => hexahedronAt nx ny i j k

end ElementMesh

end MeshIncidence
