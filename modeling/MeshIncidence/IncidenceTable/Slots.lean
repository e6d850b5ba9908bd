/-
# Tables filled slot by slot

A table with free slots takes columns one at a time, in any order of rows. A
column that a row already has is found, not added again. Once no more columns
are to come, packing drops the slots that stayed free and keeps the order of
each row.

A packed table has no free slots, so it answers like a full one.
-/

import MeshIncidence.IncidenceTable.Sizing

namespace MeshIncidence

namespace IncidenceTable

variable (table : IncidenceTable)

/-- The slot that holds a column of a row. -/
def find? (row column : Nat) : Result (Option Nat) :=
  if table.rowCount ≤ row then .ok none
  else do
    let start ← entryAt table.offsets row
    let entries ← table.row row
    return (entries.idxOf? column).map (start + ·)

/-- Find a column in a row or put it into the row's next free slot; the answer
is the slot. -/
def insert (row column : Nat) : Result (Nat × IncidenceTable) :=
  if table.rowCount ≤ row then refuse (.rowOutOfRange row table.rowCount)
  else do
    let start ← entryAt table.offsets row
    let finish ← entryAt table.offsets (row + 1)
    let entries ← table.row row
    match entries.idxOf? column, table.fill with
    | some position, _ => return (start + position, table)
    | none, none => refuse (.rowFull row column)
    | none, some used =>
      let slot := start + entries.length
      if slot < finish then
        let columns ← replaceAt table.columns slot column
        return (slot, { table with
          columns := columns
          fill := some (used.setIfInBounds row (entries.length + 1)) })
      else refuse (.rowFull row column)

/-- Write a column into a slot. -/
def putColumn (slot column : Nat) : Result IncidenceTable := do
  let columns ← replaceAt table.columns slot column
  return { table with columns := columns }

/-- Count one more used slot of a row, where used slots are counted. -/
def raiseFill (row : Nat) : Result IncidenceTable :=
  match table.fill with
  | none => .ok table
  | some used => do
    let size ← entryAt used row
    return { table with fill := some (used.setIfInBounds row (size + 1)) }

/-- Insert a column into the table at hand: the column is written first, and its
slot is counted afterwards. -/
def insertInPlace (row column : Nat) : Action IncidenceTable Nat := do
  let table ← Action.state
  if table.rowCount ≤ row then
    Action.ofResult (refuse (.rowOutOfRange row table.rowCount))
  else
    let start ← Action.ofResult (entryAt table.offsets row)
    let finish ← Action.ofResult (entryAt table.offsets (row + 1))
    let entries ← Action.ofResult (table.row row)
    match entries.idxOf? column, table.fill with
    | some position, _ => return start + position
    | none, none => Action.ofResult (refuse (.rowFull row column))
    | none, some _ =>
      let slot := start + entries.length
      if slot < finish then
        Action.change (putColumn · slot column)
        Action.change (raiseFill · row)
        return slot
      else Action.ofResult (refuse (.rowFull row column))

/-- Move the used slots of each row, counted from `row` on, to the end of
`packed`, and let the row start there. A row's old start is read before it is
replaced, and later rows keep theirs until their turn. -/
def packRows (columns : Array Nat) :
    Nat → List Nat → Array Nat → List Nat → Result (Array Nat × List Nat)
  | _, [], offsets, packed => .ok (offsets, packed)
  | row, size :: sizes, offsets, packed => do
    let start ← entryAt offsets row
    let entries ← entriesFrom columns start size
    packRows columns (row + 1) sizes (offsets.setIfInBounds row packed.length)
      (packed ++ entries)

/-- Drop the free slots. A table whose slots are all in use only loses its
counters. -/
def pack : Result IncidenceTable :=
  match table.fill with
  | none => .ok table
  | some used =>
    let total := used.toList.foldl (· + ·) 0
    if total = table.columns.size then .ok { table with fill := none }
    else do
      let (offsets, packed) ← packRows table.columns 0 used.toList table.offsets []
      let offsets ← replaceAt offsets table.rowCount total
      let result : IncidenceTable := ⟨offsets, packed.toArray, none⟩
      insist result.defect?
      return result

end IncidenceTable

end MeshIncidence
