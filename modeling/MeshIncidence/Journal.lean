/-
# Notes an operation leaves

Some operations tell what they are doing besides answering: which table they
took, how many entities they split. Such a note is no part of the answer, but it
is written at a definite moment, also when the operation fails later on.

An `Action` is an operation on a state that writes notes. When it fails, the
state stays as far as it had been changed. Failing is therefore visible to the
caller, who decides whether to go on with a state changed in part.

What works on a table or a numbering in place is an action too. It looks at the
state, may refuse, and then changes one array after the other.
-/

import MeshIncidence.Storage

namespace MeshIncidence

/-- What an operation can tell. -/
inductive Note
  /-- A mesh was split into finer elements. -/
  | refinedMesh (oldElements newElements oldVertices newVertices : Nat)
  /-- A table is handed over by the mesh for lack of a copy. -/
  | tookTable (table : DerivedTable)
  /-- A text was passed over, since its first line is not a set file's. -/
  | notSetFile (line : String)
  /-- A set file was read; so many sets of each kind. -/
  | loaded (sets : PerKind Nat)
  /-- The edges of a set are split in two. -/
  | splitEdges (edges : Nat)
  /-- The faces of a set are split in four. -/
  | splitFaces (faces : Nat)
  /-- The element sets of a mesh of so many elements follow their refinement. -/
  | splitElements (children elements : Nat)
  /-- A snapshot was taken; so many sets of each kind. -/
  | captured (sets : PerKind Nat)
deriving DecidableEq, Repr

/-- How much a note matters. -/
inductive NoteLevel
  | debug
  | trace
deriving DecidableEq, Repr

namespace NoteLevel

/-- The word used for a level in a journal. -/
def name : NoteLevel → String
  | .debug => "DEBUG"
  | .trace => "TRACE"

end NoteLevel

/-- Numbers of sets, told by kind. -/
def kindCounts (sets : PerKind Nat) : String :=
  s!"{sets.vertex} vertex, {sets.edge} edge, {sets.face} face and {sets.element} element sets"

namespace Note

/-- Notes on single sets matter least. -/
def level : Note → NoteLevel
  | .splitEdges _ => .trace
  | .splitFaces _ => .trace
  | _ => .debug

/-- The wording of a note. -/
def message : Note → String
  | .refinedMesh oldElements newElements oldVertices newVertices =>
    s!"uniform refinement: {oldElements} -> {newElements} elements, " ++
      s!"{oldVertices} -> {newVertices} vertices"
  | .tookTable table => s!"taking ownership of the mesh's {table.name} table"
  | .notSetFile line => s!"input is not an entity set file (first line `{line}`)"
  | .loaded sets => s!"loaded {kindCounts sets}"
  | .splitEdges edges => s!"splitting {edges} edges into {2 * edges}"
  | .splitFaces faces => s!"splitting {faces} faces into {4 * faces}"
  | .splitElements children elements =>
    s!"remapping element sets for a 1:{children} split of {elements} elements"
  | .captured sets => s!"captured {kindCounts sets} by vertex tuple"

end Note

/-- A state and the notes written so far. -/
structure Logged (σ : Type) where
  state : σ
  notes : List Note

/-- An operation on a state that may fail and may write notes. -/
abbrev Action (σ α : Type) := EStateM Failure (Logged σ) α

namespace Action

variable {σ τ α : Type}

/-- The state as it is now. -/
def state : Action σ σ := do
  return (← get).state

/-- Replace the state. -/
def setState (state : σ) : Action σ Unit :=
  modify fun logged => { logged with state := state }

/-- Write a note. -/
def note (note : Note) : Action σ Unit :=
  modify fun logged => { logged with notes := logged.notes ++ [note] }

/-- Take an outcome that depends on no state. -/
def ofResult : Result α → Action σ α
  | .ok value => pure value
  | .error failure => throw failure

/-- Change the state by an operation on it, if it succeeds. -/
def change (operation : σ → Result σ) : Action σ Unit := do
  setState (← ofResult (operation (← state)))

/-- Do an action on a part of the state, and put back what becomes of the part. -/
def onPart (part : σ → τ) (putBack : σ → τ → σ) (action : Action τ α) : Action σ α :=
  fun logged =>
    match action.run ⟨part logged.state, logged.notes⟩ with
    | .ok value inner => .ok value ⟨putBack logged.state inner.state, inner.notes⟩
    | .error failure inner => .error failure ⟨putBack logged.state inner.state, inner.notes⟩

/-- Do an action on a state with no notes yet: the outcome, the state reached and
the notes written. -/
def perform (action : Action σ α) (state : σ) : Result α × Logged σ :=
  match action.run ⟨state, []⟩ with
  | .ok value logged => (.ok value, logged)
  | .error failure logged => (.error failure, logged)

end Action

end MeshIncidence
