/-
# Incidence tables

An incidence table lists, for each row, the columns connected to it, in an order
that matters. All rows lie in one array of columns; the offsets say where each
row starts, and the offset after the last row says where the last row ends.

A table is *packed* when every slot between two offsets holds a column. A table
under construction may instead carry fill counters: the first so many slots of
each row are in use, and what the other slots hold has no meaning.

Nothing below assumes that the offsets are sensible. A row is looked up in
whatever the arrays hold, and the look-up stops with a fault where they do not
describe a row. `IncidenceTable.defect?` says whether they describe all of them.
-/

import MeshIncidence.Journal

namespace MeshIncidence

/-- Rows of columns in compressed form. -/
structure IncidenceTable where
  /-- Where each row starts, and where the last one ends. -/
  offsets : Array Nat
  /-- The slots of all rows. -/
  columns : Array Nat
  /-- How many slots of each row are in use, while the table has slots to spare. -/
  fill : Option (Array Nat)
deriving DecidableEq, Repr

/-- Where consecutive rows of the given sizes start, and where the last one
ends, if the first starts at `start`. -/
def offsetsFrom (start : Nat) : List Nat → List Nat
  | [] => [start]
  | size :: sizes => start :: offsetsFrom (start + size) sizes

@[simp] theorem length_offsetsFrom (start : Nat) (sizes : List Nat) :
    (offsetsFrom start sizes).length = sizes.length + 1 := by
  induction sizes generalizing start with
  | nil => rfl
  | cons size sizes ih => simp [offsetsFrom, ih]

theorem offsetsFrom_ne_nil (start : Nat) (sizes : List Nat) : offsetsFrom start sizes ≠ [] := by
  cases sizes <;> simp [offsetsFrom]

/-- One more than the largest of some numbers: how many columns it takes to have
room for all of them. -/
def columnBound (columns : List Nat) : Result Nat :=
  match columns.max? with
  | none => .ok 0
  | some largest => addWords largest 1

namespace IncidenceTable

/-- The table without rows. -/
def empty : IncidenceTable := ⟨#[0], #[], none⟩

/-- The packed table with the given rows. -/
def ofRows (rows : List (List Nat)) : IncidenceTable where
  offsets := (offsetsFrom 0 (rows.map List.length)).toArray
  columns := rows.flatten.toArray
  fill := none

/-- One row for each label, holding just that label. -/
def ofLabels (labels : List Nat) : IncidenceTable where
  offsets := (List.range (labels.length + 1)).toArray
  columns := labels.toArray
  fill := none

variable (table : IncidenceTable)

/-- Number of rows. -/
def rowCount : Nat := table.offsets.size - 1

/-- Where the last row ends: the number of slots, unused ones included. -/
def slotCount : Nat := table.offsets.back?.getD 0

/-- No slot is waiting to be filled. -/
def isPacked : Bool := table.fill.isNone

/-- Number of columns in a row. -/
def rowSize (row : Nat) : Result Nat :=
  match table.fill with
  | some used => entryAt used row
  | none => do
    let start ← entryAt table.offsets row
    let finish ← entryAt table.offsets (row + 1)
    if start ≤ finish then return finish - start else stop .overflow

/-- The columns of a row. -/
def row (row : Nat) : Result (List Nat) := do
  let start ← entryAt table.offsets row
  let size ← table.rowSize row
  entriesFrom table.columns start size

/-- The columns of every row. -/
def rows : Result (List (List Nat)) :=
  (List.range table.rowCount).mapM table.row

/-- How many columns the entries need: one more than the largest of them. -/
def width : Result Nat := do
  let rows ← table.rows
  columnBound rows.flatten

/-- Replace one column of a row. -/
def replaceEntry (row position column : Nat) : Result IncidenceTable := do
  let start ← entryAt table.offsets row
  let entries ← table.row row
  if position < entries.length then
    return { table with columns := table.columns.setIfInBounds (start + position) column }
  else stop .outOfRange

@[simp] theorem rowCount_empty : empty.rowCount = 0 := rfl

@[simp] theorem rowCount_ofRows (rows : List (List Nat)) :
    (ofRows rows).rowCount = rows.length := by
  simp [rowCount, ofRows]

@[simp] theorem rowCount_ofLabels (labels : List Nat) :
    (ofLabels labels).rowCount = labels.length := by
  simp [rowCount, ofLabels]

/-- The first row, counted from `row` on, that ends before it starts. -/
def firstDescent? (row : Nat) : List Nat → Option Nat
  | start :: finish :: offsets =>
    if finish < start then some row else firstDescent? (row + 1) (finish :: offsets)
  | _ => none

/-- The first row, counted from `row` on, with more used slots than it has. -/
def firstOverfull? (row : Nat) : List Nat → List Nat → Option (Nat × Nat)
  | start :: finish :: offsets, used :: counters =>
    if finish - start < used then some (row, used)
    else firstOverfull? (row + 1) (finish :: offsets) counters
  | _, _ => none

/-- The first defect of the offsets. -/
def layoutDefect? : Option LayoutDefect :=
  match table.offsets.toList with
  | [] => some .noOffsets
  | first :: rest =>
    if first ≠ 0 then some (.firstOffset first)
    else match firstDescent? 0 (first :: rest) with
      | some row => some (.descent row)
      | none =>
        if table.slotCount ≠ table.columns.size then
          some (.endMismatch table.slotCount table.columns.size)
        else none

/-- The first defect of the fill counters, given sound offsets. -/
def fillDefect? : Option InvariantDefect :=
  match table.fill with
  | none => none
  | some used =>
    if used.size ≠ table.rowCount then some (.fillCount used.size table.rowCount)
    else (firstOverfull? 0 table.offsets.toList used.toList).map fun (row, count) =>
      .overfilled row count

/-- The first defect of a table: of its offsets, then of its fill counters. -/
def defect? : Option Error :=
  match table.layoutDefect? with
  | some defect => some (.layout defect)
  | none => table.fillDefect?.map .invariant

/-- Accept a table assembled elsewhere if it has no defect. -/
def checked : Result IncidenceTable := do
  accept table.defect?
  return table

/-- Take over arrays in place of those at hand, once they have been checked. -/
def adopt (offsets columns : List Nat) : Action IncidenceTable Unit := do
  let candidate ← Action.ofResult (checked ⟨offsets.toArray, columns.toArray, none⟩)
  Action.setState candidate

end IncidenceTable

end MeshIncidence
