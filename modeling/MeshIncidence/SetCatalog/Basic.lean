/-
# The sets of a mesh

A catalog holds the named vertex, edge, face and element sets of a mesh. Members
are the mesh's numbers, so a catalog means something only together with the
numbering it was made for. To be able to say later which edge or face a number
stood for, it keeps copies of the mesh's derived tables, and the mesh's counts.

Binding a catalog to a mesh renews the copies: the edge table if there are edge
sets, the face tables if there are face sets. A mesh that keeps a table lends it;
otherwise it has to hand one over. Binding goes step by step, and a step that
fails leaves the earlier ones done.
-/

import MeshIncidence.SetCatalog.NamedSet
import MeshIncidence.Mesh.Connectivity
import MeshIncidence.Journal

namespace MeshIncidence

/-- The named sets of a mesh. -/
structure SetCatalog where
  /-- Dimension of the mesh. -/
  dimension : Nat
  /-- Number of vertices of the mesh. -/
  vertexCount : Nat
  /-- Number of edges of the mesh. -/
  edgeCount : Nat
  /-- Number of elements of the mesh. -/
  elementCount : Nat
  sets : SetsByKind Nat
  /-- Copies of the mesh's derived tables, for the kinds that need them. -/
  tables : DerivedTables
deriving DecidableEq, Repr

/-- A catalog and the mesh it is for. -/
structure Bound (M : Type) where
  catalog : SetCatalog
  mesh : M

namespace SetCatalog

/-- The catalog of a mesh without sets. -/
def ofMesh {M : Type} [Connectivity M] (mesh : M) : SetCatalog where
  dimension := Connectivity.dimension mesh
  vertexCount := Connectivity.vertexCount mesh
  edgeCount := Connectivity.edgeCount mesh
  elementCount := Connectivity.elementCount mesh
  sets := .none
  tables := .none

variable (catalog : SetCatalog)

/-- Remove all sets. The copied tables stay until the catalog is bound anew. -/
def clear : SetCatalog := { catalog with sets := .none }

/-- The number that the members of a kind stay below, where one is known. -/
def limit? : Kind → Option Nat
  | .vertex => some catalog.vertexCount
  | .edge => catalog.tables.edgeVertex.map IncidenceTable.rowCount
  | .face => catalog.tables.faceVertex.map IncidenceTable.rowCount
  | .element => some catalog.elementCount

/-- The first member of a kind that its limit excludes. -/
def memberDefect? (kind : Kind) : Option Error :=
  match catalog.limit? kind with
  | none => none
  | some limit =>
    (catalog.sets.get kind).findSome? fun set =>
      (set.members.find? fun member => limit ≤ member).map fun member =>
        .invariant (.memberOutside kind set.name member limit)

/-- The first defect of a copied table. -/
def tableDefect? (which : DerivedTable) : Option Error :=
  match catalog.tables.get which with
  | none => none
  | some table => table.defect?

/-- The first defect of a catalog: a member out of range, of the kinds that need
no table before the others, or else a defect of a table. -/
def defect? : Option Error :=
  ([.vertex, .element, .edge, .face].findSome? catalog.memberDefect?).or <|
    [.edgeVertex, .faceVertex, .faceEdge].findSome? catalog.tableDefect?

/-- The headline over the listing of sets, the sets of each kind with position,
size and name, and an empty line after each kind. Kinds without sets are left
out, and the headline with all of them. -/
def summary : String :=
  let block := fun (kind : Kind) =>
    let lines := (catalog.sets.get kind).zipIdx.map fun (set, position) =>
      s!"\t{position}\t{set.members.length}\t{set.name}\n"
    if lines.isEmpty then ""
    else s!"  {kind.name} Sets (Index, Size, Set Name):\n" ++ String.join lines ++ "\n"
  if Kind.all.any fun kind => 0 < catalog.sets.count kind then
    "\nMFEM Entity Sets:\n" ++ String.join (Kind.all.map block)
  else ""

end SetCatalog

namespace Bound

variable {M : Type} [Connectivity M]

/-- A mesh with a catalog without sets. -/
def ofMesh (mesh : M) : Bound M := ⟨.ofMesh mesh, mesh⟩

/-- A table that the mesh keeps, or else one that it hands over. -/
def obtain (which : DerivedTable) : Action (Bound M) IncidenceTable := do
  let bound ← Action.state
  match (Connectivity.kept bound.mesh).get which with
  | some table => return table
  | none => do
    Action.note (.tookTable which)
    let (table, mesh) ← Action.ofResult (Connectivity.handOver which bound.mesh)
    Action.setState { bound with mesh := mesh }
    return table

/-- Replace the catalog's copy of a table. -/
def setTable (which : DerivedTable) (table : Option IncidenceTable) :
    Action (Bound M) Unit := do
  let bound ← Action.state
  Action.setState { bound with
    catalog := { bound.catalog with tables := bound.catalog.tables.set which table } }

/-- Renew the catalog's copy of a table if it is needed, or else drop it. -/
def renewTable (needed : Bool) (which : DerivedTable) : Action (Bound M) Unit := do
  if needed then
    let table ← obtain which
    setTable which (some table)
  else setTable which none

/-- Bind the catalog to the mesh: renew its tables and its counts. A catalog that
does not fit the mesh then is broken. -/
def rebind : Action (Bound M) Unit := do
  let sets := (← Action.state).catalog.sets
  renewTable (0 < sets.count .edge) .edgeVertex
  renewTable (0 < sets.count .face) .faceVertex
  renewTable (0 < sets.count .face) .faceEdge
  let bound ← Action.state
  let catalog := { SetCatalog.ofMesh bound.mesh with
    sets := bound.catalog.sets
    tables := bound.catalog.tables }
  Action.setState { bound with catalog := catalog }
  Action.ofResult (insist catalog.defect?)

end Bound

end MeshIncidence
