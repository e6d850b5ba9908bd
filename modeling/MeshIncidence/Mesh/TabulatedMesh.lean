/-
# Meshes given by tables

A mesh whose answers are written down one by one. They need not come from any
elements and need not fit together, which makes such a mesh a stand-in for
another program's mesh, right or wrong.

Besides the tables that it keeps, it may have tables that it can give away any
number of times, as if it built them.
-/

import MeshIncidence.Mesh.Connectivity

namespace MeshIncidence

/-- A mesh whose answers are written down. -/
structure TabulatedMesh where
  dimension : Nat
  vertexCount : Nat
  edgeCount : Nat
  faceCount : Nat
  elementCount : Nat
  /-- The edges by their vertices, in numbering order; repeated ones are met
  again. -/
  edges : List (Nat × Nat)
  /-- The faces by their vertices, in numbering order. -/
  faces : List (List Nat)
  /-- The derived tables that it keeps. -/
  kept : DerivedTables
  /-- The derived tables that it can build. -/
  buildable : DerivedTables
deriving DecidableEq, Repr

namespace TabulatedMesh

variable (mesh : TabulatedMesh)

/-- Hand a derived table over, the kept one or else one it can build. -/
def handOver (which : DerivedTable) : Result (IncidenceTable × TabulatedMesh) :=
  match mesh.kept.get which, mesh.buildable.get which with
  | some table, _ => .ok (table, { mesh with kept := mesh.kept.set which none })
  | none, some table => .ok (table, mesh)
  | none, none => refuse (.missingTables [which])

instance : Connectivity TabulatedMesh where
  dimension := dimension
  vertexCount := vertexCount
  edgeCount := edgeCount
  faceCount := faceCount
  elementCount := elementCount
  edges mesh := do
    let numbering ← PairNumbering.allocate mesh.vertexCount
    numbering.insertAll mesh.edges
  faces mesh := FaceNumbering.empty.insertAll mesh.faces
  kept := kept
  handOver which mesh := mesh.handOver which

end TabulatedMesh

end MeshIncidence
