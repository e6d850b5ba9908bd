/-
# Tables built in two passes

A table can be built without knowing its rows one after the other. The first
pass counts the columns of each row, in any order; the counts are kept in the
place of the offsets. Laying out turns the counts into row starts and makes room
for all columns. The second pass places the columns, in any order of rows; the
start of a row moves along as a cursor. Restoring moves every start back, using
that a full row's cursor stands where the next row began.

Each step works on whatever the arrays hold, and none of them checks that the
columns placed are those that were counted.
-/

import MeshIncidence.IncidenceTable.Sizing

namespace MeshIncidence

namespace IncidenceTable

variable (table : IncidenceTable)

/-- Begin a build with a number of rows and all counts at zero. -/
def startCounts (rows : Nat) : Result IncidenceTable := do
  let resized ← table.resize rows 0
  return { resized with offsets := Array.replicate resized.offsets.size 0 }

/-- Count more columns for a row. -/
def count (row columns : Nat) : Result IncidenceTable := do
  let counted ← entryAt table.offsets row
  let total ← addWords counted columns
  return { table with offsets := table.offsets.setIfInBounds row total }

/-- Turn the counts into row starts and make room for the columns. -/
def layOut : Result IncidenceTable := do
  let counts := table.offsets.toList.take table.rowCount
  let columns ← zeros (← word (counts.foldl (· + ·) 0))
  return { table with
    offsets := (offsetsFrom 0 counts).toArray
    columns := columns }

/-- Put a column at the cursor of a row. A cursor that has reached the end of
all rows has run past the row's count. -/
def place (row column : Nat) : Result IncidenceTable := do
  let cursor ← entryAt table.offsets row
  if cursor < table.slotCount then
    let columns ← replaceAt table.columns cursor column
    return { table with
      offsets := table.offsets.setIfInBounds row (cursor + 1)
      columns := columns }
  else stop .rowOverflow

/-- Put several columns at the cursor of a row. -/
def placeAll (row : Nat) (entries : List Nat) : Result IncidenceTable := do
  let cursor ← entryAt table.offsets row
  let columns ← replaceFrom table.columns cursor entries
  return { table with
    offsets := table.offsets.setIfInBounds row (cursor + entries.length)
    columns := columns }

/-- Move every row start back to where it stood before the second pass. -/
def restoreStarts : IncidenceTable :=
  { table with offsets := (0 :: table.offsets.toList.dropLast).toArray }

end IncidenceTable

end MeshIncidence
