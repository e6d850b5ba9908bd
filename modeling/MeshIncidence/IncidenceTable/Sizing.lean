/-
# Sizes of an incidence table

Giving a table a number of rows and slots keeps the arrays that have the right
size already and replaces the others by zeros. Offsets that are kept are cut
down to the new number of slots, so that a table with rows in order still has
its rows in order afterwards; the entries are the caller's to fill in.
-/

import MeshIncidence.IncidenceTable.Basic

namespace MeshIncidence

namespace IncidenceTable

/-- The offset of a row in a table cut down to `slots` slots: the first row
starts at zero, the last one ends at `slots`, and no offset between exceeds it. -/
def clampedOffset (offsets : Array Nat) (rows slots row : Nat) : Nat :=
  if row = rows then slots
  else if row = 0 then 0
  else min (offsets.getD row 0) slots

/-- Give a table a number of rows and slots, all in use. -/
def resize (table : IncidenceTable) (rows slots : Nat) : Result IncidenceTable := do
  let offsets ←
    if table.rowCount = rows then pure table.offsets
    else do zeros (← addWords rows 1)
  let columns ← if table.columns.size = slots then pure table.columns else zeros slots
  return {
    offsets := ((List.range (rows + 1)).map (clampedOffset offsets rows slots)).toArray
    columns := columns
    fill := none }

/-- Give a table a number of rows with `capacity` free slots each. -/
def reserveRows (table : IncidenceTable) (rows capacity : Nat) : Result IncidenceTable := do
  let slots ← mulWords rows capacity
  let resized ← table.resize rows slots
  let used ← zeros rows
  return {
    offsets := ((List.range (rows + 1)).map (· * capacity)).toArray
    columns := resized.columns
    fill := some used }

/-- A new table whose rows have `capacity` free slots each. -/
def withCapacity (rows capacity : Nat) : Result IncidenceTable :=
  empty.reserveRows rows capacity

end IncidenceTable

end MeshIncidence
