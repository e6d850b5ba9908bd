/-
# Products of incidence tables

If the columns of one table are the rows of another, following both connects the
rows of the first with the columns of the second. Row `i` of the product lists
what the rows of the second table reach from row `i` of the first, each column
once, in the order in which it is reached first.

While a row is formed, a marker for each column remembers the last row that
reached it, so the markers need not be cleared between rows. As with
transposing, the result can be written over an existing table.
-/

import MeshIncidence.IncidenceTable.Sizing

namespace MeshIncidence

/-- Bytes of one marker. -/
def markerBytes : Nat := 16

namespace IncidenceTable

/-- The columns that no marker shows as reached from `row` yet, each once, and
the markers after them. -/
def freshColumns (row : Nat) :
    List Nat → Array (Option Nat) → List Nat × Array (Option Nat)
  | [], markers => ([], markers)
  | column :: columns, markers =>
    if markers[column]? = some (some row) then freshColumns row columns markers
    else
      let (fresh, markers) :=
        freshColumns row columns (markers.setIfInBounds column (some row))
      (column :: fresh, markers)

/-- The rows of the product, of which the first has number `row`. -/
def productRows (targets : Array (List Nat)) (row : Nat) :
    List (List Nat) → Array (Option Nat) → List (List Nat)
  | [], _ => []
  | entries :: rows, markers =>
    let reached := entries.flatMap fun entry => targets.getD entry []
    let (fresh, markers) := freshColumns row reached markers
    fresh :: productRows targets (row + 1) rows markers

/-- Write rows one after the other, the first of them with number `row` and from
slot `start` on. -/
def writeRows : Nat → Nat → List (List Nat) → Array Nat → Array Nat →
    Result (Array Nat × Array Nat)
  | _, _, [], offsets, columns => .ok (offsets, columns)
  | row, start, entries :: rows, offsets, columns => do
    let columns ← replaceFrom columns start entries
    writeRows (row + 1) (start + entries.length) rows
      (offsets.setIfInBounds row start) columns

/-- Write the product over `target`. Every column of the first table has to be a
row of the second. -/
def multiplyOnto (first second target : IncidenceTable) : Result IncidenceTable := do
  let width ← first.width
  if second.rowCount < width then
    refuse (.shapeMismatch width second.rowCount)
  else do
    let columnCount ← second.width
    reserve columnCount markerBytes
    let sources ← first.rows
    let targets ← second.rows
    let reached :=
      productRows targets.toArray 0 sources (Array.replicate columnCount none)
    let target ← target.resize first.rowCount reached.flatten.length
    let (offsets, columns) ← writeRows 0 0 reached target.offsets target.columns
    return { target with offsets := offsets, columns := columns }

/-- The product of two tables. -/
def multiply (first second : IncidenceTable) : Result IncidenceTable :=
  multiplyOnto first second empty

end IncidenceTable

end MeshIncidence
