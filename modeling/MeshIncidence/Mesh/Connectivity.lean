/-
# What a mesh tells about its connectivity

Named sets need to know of a mesh how many entities it has, how its edges and
faces are numbered, and which vertices and edges belong to an edge or a face.
`Connectivity` asks for just that. Nothing is assumed about how the answers fit
together: a mesh may number its edges in one way and list them in another, and
the operations on sets have to say what happens then.

A mesh may keep its derived tables. Asking for a table that it keeps hands the
table over, and the mesh is without it afterwards.
-/

import MeshIncidence.IncidenceTable.Basic
import MeshIncidence.PairNumbering
import MeshIncidence.FaceNumbering

namespace MeshIncidence

/-- The derived tables of a mesh, as far as they are at hand. -/
structure DerivedTables where
  /-- The two vertices of each edge. -/
  edgeVertex : Option IncidenceTable
  /-- The vertices of each face. -/
  faceVertex : Option IncidenceTable
  /-- The edges of each face. -/
  faceEdge : Option IncidenceTable
deriving DecidableEq, Repr

namespace DerivedTables

/-- No table is at hand. -/
def none : DerivedTables := ⟨Option.none, Option.none, Option.none⟩

/-- One of the tables. -/
def get (tables : DerivedTables) : DerivedTable → Option IncidenceTable
  | .edgeVertex => tables.edgeVertex
  | .faceVertex => tables.faceVertex
  | .faceEdge => tables.faceEdge

/-- Replace one of the tables and keep the others. -/
def set (tables : DerivedTables) (which : DerivedTable) (table : Option IncidenceTable) :
    DerivedTables :=
  match which with
  | .edgeVertex => { tables with edgeVertex := table }
  | .faceVertex => { tables with faceVertex := table }
  | .faceEdge => { tables with faceEdge := table }

@[simp] theorem get_none (which : DerivedTable) : none.get which = Option.none := by
  cases which <;> rfl

@[simp] theorem get_set_self (tables : DerivedTables) (which : DerivedTable)
    (table : Option IncidenceTable) : (tables.set which table).get which = table := by
  cases which <;> rfl

end DerivedTables

/-- The answers that sets need from a mesh `M`. -/
class Connectivity (M : Type) where
  /-- Dimension of the elements. -/
  dimension : M → Nat
  /-- Number of vertices. -/
  vertexCount : M → Nat
  /-- Number of edges. -/
  edgeCount : M → Nat
  /-- Number of faces. -/
  faceCount : M → Nat
  /-- Number of elements. -/
  elementCount : M → Nat
  /-- The edges by their vertices. -/
  edges : M → Result PairNumbering
  /-- The faces by their vertices. -/
  faces : M → Result FaceNumbering
  /-- The derived tables that the mesh keeps. -/
  kept : M → DerivedTables
  /-- Hand a derived table over; the mesh left behind does not keep it. -/
  handOver : DerivedTable → M → Result (IncidenceTable × M)

/-- A mesh of one of two sorts answers as its sort does. -/
instance {M N : Type} [Connectivity M] [Connectivity N] : Connectivity (M ⊕ N) where
  dimension := Sum.elim Connectivity.dimension Connectivity.dimension
  vertexCount := Sum.elim Connectivity.vertexCount Connectivity.vertexCount
  edgeCount := Sum.elim Connectivity.edgeCount Connectivity.edgeCount
  faceCount := Sum.elim Connectivity.faceCount Connectivity.faceCount
  elementCount := Sum.elim Connectivity.elementCount Connectivity.elementCount
  edges := Sum.elim Connectivity.edges Connectivity.edges
  faces := Sum.elim Connectivity.faces Connectivity.faces
  kept := Sum.elim Connectivity.kept Connectivity.kept
  handOver which
    | .inl mesh => do
      let (table, mesh) ← Connectivity.handOver which mesh
      return (table, .inl mesh)
    | .inr mesh => do
      let (table, mesh) ← Connectivity.handOver which mesh
      return (table, .inr mesh)

end MeshIncidence
