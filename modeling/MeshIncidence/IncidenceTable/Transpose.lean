/-
# Transposed tables

Row `c` of the transposed table lists the rows of the given table that contain
`c`, in increasing order and as often as they contain it. It is found by a
counting sort: count the occurrences of each column one place to the right, add
up, and scatter the row numbers, using the sums as cursors.

The result can be written over an existing table, whose arrays are used again
where their sizes fit; nothing of their contents survives.
-/

import MeshIncidence.IncidenceTable.Counted

namespace MeshIncidence

namespace IncidenceTable

/-- Every connection of some rows as a pair of row and column, row by row. The
first row has number `row`. -/
def connectionsFrom (row : Nat) : List (List Nat) → List (Nat × Nat)
  | [] => []
  | entries :: rows => entries.map (row, ·) ++ connectionsFrom (row + 1) rows

/-- Count each column one place to the right of its own. -/
def countColumns (offsets : Array Nat) (columns : List Nat) : Result (Array Nat) :=
  columns.foldlM
    (fun counts column => do
      let counted ← entryAt counts (column + 1)
      replaceAt counts (column + 1) (counted + 1))
    offsets

/-- Replace every count by the sum of the counts up to it. -/
def sumCounts (offsets : Array Nat) : Array Nat :=
  match offsets.toList with
  | [] => #[]
  | first :: counts => (offsetsFrom first counts).toArray

/-- Put the row of each connection at the cursor of its column. -/
def scatter (offsets columns : Array Nat) (connections : List (Nat × Nat)) :
    Result (Array Nat × Array Nat) :=
  connections.foldlM
    (fun (offsets, columns) (row, column) => do
      let cursor ← entryAt offsets column
      let columns ← replaceAt columns cursor row
      return (offsets.setIfInBounds column (cursor + 1), columns))
    (offsets, columns)

/-- Write the transposed table over `target`. Without a number of columns, the
width of the table is taken. -/
def transposeOnto (table target : IncidenceTable) (columnCount : Option Nat) :
    Result IncidenceTable := do
  let width ← table.width
  let columnCount := columnCount.getD width
  if columnCount < width then
    refuse (.layout (.columnOutside (width - 1) columnCount))
  else do
    let rows ← table.rows
    let target ← target.resize columnCount rows.flatten.length
    let counts ← countColumns (Array.replicate target.offsets.size 0) rows.flatten
    let (cursors, columns) ←
      scatter (sumCounts counts) target.columns (connectionsFrom 0 rows)
    return restoreStarts { target with offsets := cursors, columns := columns }

/-- The transposed table. -/
def transpose (table : IncidenceTable) (columnCount : Option Nat) : Result IncidenceTable :=
  table.transposeOnto empty columnCount

/-- The table whose row `p` lists the positions of the label `p`, in increasing
order. -/
def positionsOf (labels : List Nat) (labelCount : Option Nat) : Result IncidenceTable := do
  let width ← columnBound labels
  let labelCount := labelCount.getD width
  if labelCount < width then
    refuse (.layout (.labelOutside (width - 1) labelCount))
  else do
    let started ← empty.startCounts labelCount
    let counted ← labels.foldlM (fun table label => table.count label 1) started
    let laidOut ← counted.layOut
    let placed ← labels.zipIdx.foldlM
      (fun table (label, position) => table.place label position) laidOut
    return placed.restoreStarts

end IncidenceTable

end MeshIncidence
