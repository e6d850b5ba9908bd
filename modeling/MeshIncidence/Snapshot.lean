/-
# Snapshots

A mesh that is refined in some places numbers its edges and faces anew, so a
catalog cannot follow it by numbers. A snapshot keeps the members of the sets by
their vertices instead, in slots: one for a vertex, two for an edge, four for a
face, of which a triangle leaves the last one empty. An element keeps its number,
in one slot.

The slots of a set form one strip, without a mark between its members. How many
members there are, and which slots belong to one of them, is told by the number
of slots that the kind takes.

A snapshot is taken before refining and projected afterwards: each member becomes
the descendants that a lineage gives it. The corners of a quadrilateral are kept
in an order in which neighbours are joined by edges, as far as the lineage shows
one, because a row of a face table need not be in such an order.
-/

import MeshIncidence.SetCatalog.Basic
import MeshIncidence.Lineage

namespace MeshIncidence

/-- The members of sets by their vertices. -/
structure Snapshot where
  /-- Each set is the strip of its members' slots. -/
  sets : SetsByKind (Option Nat)
deriving DecidableEq, Repr

namespace Kind

variable (kind : Kind)

/-- How many members a strip of slots is for. -/
def membersIn (strip : List (Option Nat)) : Nat := strip.length / kind.slotCount

/-- The slots of the member at an index, cut out of a strip. -/
def slotsIn (strip : List (Option Nat)) (index : Nat) : Result (List (Option Nat)) :=
  if (index + 1) * kind.slotCount ≤ strip.length then
    .ok ((strip.drop (index * kind.slotCount)).take kind.slotCount)
  else stop .outOfRange

end Kind

/-- The slots of a face. Of a quadrilateral, the second and the third vertex
change places if the first and the second share no edge; otherwise the third and
the fourth do if the first and the fourth share none. -/
def faceSlots (lineage : Lineage) : List Nat → Result (List (Option Nat))
  | [a, b, c] => .ok [some a, some b, some c, none]
  | [a, b, c, d] =>
    if (lineage.joins a b).isNone then .ok [some a, some c, some b, some d]
    else if (lineage.joins a d).isNone then .ok [some a, some b, some d, some c]
    else .ok [some a, some b, some c, some d]
  | vertices => refuse (.mesh (.faceSize vertices.length))

/-- The slots of an edge. -/
def edgeSlots : List Nat → Result (List (Option Nat))
  | first :: second :: _ => .ok [some first, some second]
  | _ => stop .outOfRange

namespace SetCatalog

variable (catalog : SetCatalog)

/-- A copied table that a snapshot needs. -/
def neededTable (which : DerivedTable) : Result IncidenceTable :=
  match catalog.tables.get which with
  | some table => .ok table
  | none => refuse (.missingTables [which])

/-- The strip of a set: the slots of its members, one member after the other. -/
def setStrip (lineage : Lineage) (kind : Kind) (members : List Nat) :
    Result (List (Option Nat)) :=
  match kind with
  | .vertex | .element => .ok (members.map some)
  | .edge => do
    let table ← catalog.neededTable .edgeVertex
    return (← members.mapM fun edge => do edgeSlots (← table.row edge)).flatten
  | .face => do
    let table ← catalog.neededTable .faceVertex
    return (← members.mapM fun face => do faceSlots lineage (← table.row face)).flatten

/-- The sets of a kind by the vertices of their members. -/
def kindStrips (lineage : Lineage) (kind : Kind) : Result (List (NamedSet (Option Nat))) :=
  (catalog.sets.get kind).mapM fun set => do
    return ⟨set.name, ← catalog.setStrip lineage kind set.members⟩

/-- All sets by the vertices of their members. -/
def snapshot (lineage : Lineage) : Result Snapshot := do
  let vertex ← catalog.kindStrips lineage .vertex
  let edge ← catalog.kindStrips lineage .edge
  let face ← catalog.kindStrips lineage .face
  let element ← catalog.kindStrips lineage .element
  return ⟨⟨vertex, edge, face, element⟩⟩

end SetCatalog

namespace Snapshot

/-- The snapshot without sets. -/
def empty : Snapshot := ⟨.none⟩

/-- Take the snapshot of a catalog. -/
def capture (catalog : SetCatalog) (lineage : Lineage) : Action Unit Snapshot := do
  let snapshot ← Action.ofResult (catalog.snapshot lineage)
  Action.note (.captured snapshot.sets.counts)
  return snapshot

section Members

variable (snapshot : Snapshot) (kind : Kind)

/-- Number of members of the set at a position. -/
def memberCount (position : Nat) : Result Nat := do
  return kind.membersIn (← snapshot.sets.setAt kind position).members

/-- The slots of a member of the set at a position. -/
def slotsAt (position index : Nat) : Result (List (Option Nat)) := do
  kind.slotsIn (← snapshot.sets.setAt kind position).members index

/-- Number of members of the set that a name stands for. -/
def memberCountNamed (name : String) : Result Nat := do
  snapshot.memberCount kind (← snapshot.sets.positionOf kind name)

/-- The slots of a member of the set that a name stands for. -/
def slotsNamed (name : String) (index : Nat) : Result (List (Option Nat)) := do
  let position ← snapshot.sets.positionOf kind name
  let count ← snapshot.memberCount kind position
  if count ≤ index then refuse (.rowOutOfRange index count)
  else snapshot.slotsAt kind position index

end Members

/-- The vertex in a slot. The numbers of the member and of its set are for the
message when there is none. -/
def slot (kind : Kind) (set entity : Nat) (slots : List (Option Nat)) (position : Nat) :
    Result Nat :=
  match slots[position]? with
  | some (some vertex) => .ok vertex
  | _ => refuse (.invariant (.slotMissing kind entity set position))

/-- The descendants of a member. -/
def descendants (lineage : Lineage) (kind : Kind) (set entity : Nat)
    (slots : List (Option Nat)) : Result (List Nat) := do
  let slot := slot kind set entity slots
  match kind with
  | .vertex => return [← slot 0]
  | .edge =>
    let first ← slot 0
    let second ← slot 1
    return lineage.edges first second
  | .face =>
    let first ← slot 0
    let second ← slot 1
    let third ← slot 2
    return lineage.faces first second third (slots[3]?.join)
  | .element => return lineage.elements (← slot 0)

/-- The descendants of the members of a strip, one family after the other. -/
def stripDescendants (lineage : Lineage) (kind : Kind) (set : Nat) (strip : List (Option Nat)) :
    Result (List Nat) := do
  let families ← (List.range (kind.membersIn strip)).mapM fun entity => do
    descendants lineage kind set entity (← kind.slotsIn strip entity)
  return families.flatten

/-- The sets of a kind with every member replaced by its descendants. -/
def projectedSets (snapshot : Snapshot) (lineage : Lineage) (kind : Kind) :
    Result (List (NamedSet Nat)) :=
  (snapshot.sets.get kind).zipIdx.mapM fun (set, position) => do
    return ⟨set.name, ← stripDescendants lineage kind position set.members⟩

/-- All sets with every member replaced by its descendants. -/
def projected (snapshot : Snapshot) (lineage : Lineage) : Result (SetsByKind Nat) := do
  let vertex ← snapshot.projectedSets lineage .vertex
  let edge ← snapshot.projectedSets lineage .edge
  let face ← snapshot.projectedSets lineage .face
  let element ← snapshot.projectedSets lineage .element
  return ⟨vertex, edge, face, element⟩

end Snapshot

namespace Bound

variable {M : Type} [Connectivity M]

/-- Give a mesh a new catalog with the descendants of a snapshot's members, and
bind it. -/
def project (lineage : Lineage) (snapshot : Snapshot) : Action (Bound M) Unit := do
  let bound ← Action.state
  let sets ← Action.ofResult (snapshot.projected lineage)
  Action.setState { bound with catalog := { SetCatalog.ofMesh bound.mesh with sets := sets } }
  rebind

end Bound

end MeshIncidence
