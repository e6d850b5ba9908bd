/-
# Tables of unordered pairs

An unordered pair is kept in the row of its smaller member, so that both ways of
naming it find the same slot. Everything else is a table's.
-/

import MeshIncidence.IncidenceTable.Slots

namespace MeshIncidence

/-- A table whose connections are unordered pairs. -/
structure PairTable where
  /-- The pairs, each in the row of its smaller member. -/
  table : IncidenceTable
deriving DecidableEq, Repr

namespace PairTable

/-- A pair with its smaller member first. -/
def sorted (first second : Nat) : Nat × Nat :=
  if first < second then (first, second) else (second, first)

theorem sorted_comm (first second : Nat) : sorted first second = sorted second first := by
  unfold sorted
  grind

/-- The table without rows. -/
def empty : PairTable := ⟨IncidenceTable.empty⟩

/-- A table whose rows have `capacity` free slots each. -/
def withCapacity (rows capacity : Nat) : Result PairTable := do
  return ⟨← IncidenceTable.withCapacity rows capacity⟩

variable (pairs : PairTable)

/-- Find a pair or put it into a free slot; the answer is the slot. -/
def insert (first second : Nat) : Result (Nat × PairTable) := do
  let (row, column) := sorted first second
  let (slot, table) ← pairs.table.insert row column
  return (slot, ⟨table⟩)

/-- Insert a pair into the table at hand. -/
def insertInPlace (first second : Nat) : Action PairTable Nat :=
  let (row, column) := sorted first second
  .onPart table (fun _ table => ⟨table⟩) (IncidenceTable.insertInPlace row column)

/-- The slot that holds a pair. -/
def find? (first second : Nat) : Result (Option Nat) :=
  let (row, column) := sorted first second
  pairs.table.find? row column

/-- Drop the free slots. -/
def pack : Result PairTable := do
  return ⟨← pairs.table.pack⟩

end PairTable

end MeshIncidence
