/-
# Tables built in two passes

Both passes change one entry of the offsets at a time, and what is still to come says how
far each entry is from where it has to end: a count from the total of its row, a cursor from
the end of its row. `IsShort` is this relation. It is kept by every step, whatever the order
of the rows, it bounds the cursor by the end of its row as long as columns are to come, and
when nothing is to come it says that each cursor stands where the next row begins.

Building, transposing and listing the positions of labels are three uses of it. A product
writes its rows one after the other and needs no counts.
-/

import MeshIncidence.IncidenceTable.Product
import MeshIncidence.IncidenceTable.Transpose
import MeshIncidence.Proofs.Table.Filling

namespace MeshIncidence

/-- What rows with amounts come to for one row. -/
def amountFor (row : Nat) : List (Nat × Nat) → Nat
  | [] => 0
  | (other, amount) :: amounts => (if other = row then amount else 0) + amountFor row amounts

theorem amountFor_eq_zero {row : Nat} {amounts : List (Nat × Nat)}
    (hother : ∀ entry ∈ amounts, entry.1 ≠ row) : amountFor row amounts = 0 := by
  induction amounts with
  | nil => rfl
  | cons entry amounts ih =>
      have hrest := ih fun later hlater => hother later (by simp [hlater])
      rw [amountFor, if_neg (hother entry (by simp)), hrest]

/-- A single amount, found again among the rows. -/
theorem sum_range_ite {rows row : Nat} (hrow : row < rows) (amount : Nat) :
    ((List.range rows).map fun other => if row = other then amount else 0).sum = amount := by
  induction rows with
  | zero => exact absurd hrow (Nat.not_lt_zero row)
  | succ rows ih =>
      rw [List.range_succ, List.map_append, List.sum_append, List.map_singleton,
        List.sum_singleton]
      obtain hlt | rfl := Nat.lt_succ_iff_lt_or_eq.mp hrow
      · rw [ih hlt, if_neg (Nat.ne_of_lt hlt), Nat.add_zero]
      · have hnone : ∀ other ∈ List.range row, (if row = other then amount else 0) = 0 := by
          intro other hother
          rw [if_neg (Nat.ne_of_gt (List.mem_range.mp hother))]
        rw [List.map_congr_left hnone]
        simp

/-- Amounts for rows within bounds are all counted. -/
theorem sum_amountFor {rows : Nat} {amounts : List (Nat × Nat)}
    (hrows : ∀ entry ∈ amounts, entry.1 < rows) :
    ((List.range rows).map (amountFor · amounts)).sum = (amounts.map Prod.snd).sum := by
  induction amounts with
  | nil => simp [amountFor]
  | cons entry amounts ih =>
      have hrest := ih fun later hlater => hrows later (by simp [hlater])
      simp only [amountFor]
      rw [List.sum_map_add, sum_range_ite (hrows entry (by simp)), hrest, List.map_cons,
        List.sum_cons]

/-- Every entry is short of its target by what is still to come for it. -/
def IsShort (target : Nat → Nat) (pending : List (Nat × Nat)) (entries : Array Nat) : Prop :=
  ∀ position entry, entries[position]? = some entry →
    entry + amountFor position pending = target position

namespace IsShort

variable {target : Nat → Nat} {pending : List (Nat × Nat)} {entries : Array Nat}

/-- Entries that begin with zeros. -/
theorem replicate (size : Nat) (amounts : List (Nat × Nat)) :
    IsShort (amountFor · amounts) amounts (Array.replicate size 0) := by
  intro position entry hentry
  obtain ⟨-, rfl⟩ := Array.getElem?_eq_some_iff.mp hentry
  simp

/-- Adding an amount to its entry brings that entry nearer, and no other. -/
theorem add {position amount entry : Nat}
    (hshort : IsShort target ((position, amount) :: pending) entries)
    (hentry : entries[position]? = some entry) :
    IsShort target pending (entries.setIfInBounds position (entry + amount)) := by
  intro other value hvalue
  rw [Array.getElem?_setIfInBounds] at hvalue
  by_cases hsame : position = other
  · subst hsame
    have hbefore := hshort position entry hentry
    rw [if_pos rfl] at hvalue
    split at hvalue
    · obtain rfl := Option.some.inj hvalue
      rw [amountFor, if_pos rfl] at hbefore
      omega
    · simp at hvalue
  · rw [if_neg hsame] at hvalue
    have hbefore := hshort other value hvalue
    rwa [amountFor, if_neg hsame, Nat.zero_add] at hbefore

/-- Once nothing is to come, the entries are their targets. -/
theorem toList_eq (hshort : IsShort target [] entries) :
    entries.toList = (List.range entries.size).map target := by
  refine List.ext_getElem? fun position => ?_
  rw [Array.getElem?_toList, List.getElem?_map]
  cases hentry : entries[position]? with
  | none =>
      have hlast := Array.getElem?_eq_none_iff.mp hentry
      simp [hlast]
  | some entry =>
      obtain ⟨hlt, -⟩ := Array.getElem?_eq_some_iff.mp hentry
      have htarget := hshort position entry hentry
      rw [amountFor, Nat.add_zero] at htarget
      simp [List.getElem?_range hlt, htarget]

end IsShort

/-- Where a row of a table with given sizes ends. -/
def rowEnd (sizes : List Nat) (row : Nat) : Nat := (sizes.take (row + 1)).sum

/-- All offsets but the first are the ends of rows. -/
theorem offsetsFrom_zero_eq (sizes : List Nat) :
    offsetsFrom 0 sizes = 0 :: (List.range sizes.length).map (rowEnd sizes) := by
  refine List.ext_getElem? fun position => ?_
  obtain hover | hle := Nat.lt_or_ge sizes.length position
  · rw [List.getElem?_eq_none (by simp; omega), List.getElem?_eq_none (by simp; omega)]
  · rw [getElem?_offsetsFrom 0 hle, Nat.zero_add]
    cases position with
    | zero => rfl
    | succ row =>
        rw [List.getElem?_cons_succ, List.getElem?_map, List.getElem?_range hle]
        rfl

namespace IncidenceTable

/-- The second pass: cursors move to the ends of their rows, within the columns. -/
structure Placing (sizes : List Nat) (pending : List (Nat × Nat)) (offsets columns : Array Nat) :
    Prop where
  size_offsets : offsets.size = sizes.length + 1
  size_columns : columns.size = sizes.sum
  row_lt : ∀ entry ∈ pending, entry.1 < sizes.length
  isShort : IsShort (rowEnd sizes) pending offsets

namespace Placing

variable {sizes : List Nat} {pending : List (Nat × Nat)} {offsets columns : Array Nat}

/-- At first each cursor stands at the start of its row. -/
theorem start (hcolumns : columns.size = sizes.sum)
    (hrows : ∀ entry ∈ pending, entry.1 < sizes.length)
    (hamounts : ∀ row, ∀ size, sizes[row]? = some size → amountFor row pending = size) :
    Placing sizes pending (offsetsFrom 0 sizes).toArray columns where
  size_offsets := by simp
  size_columns := hcolumns
  row_lt := hrows
  isShort := by
    intro row cursor hcursor
    rw [List.getElem?_toArray] at hcursor
    have hrow : row ≤ sizes.length := by
      have hlt := (List.getElem?_eq_some_iff.mp hcursor).1
      rw [length_offsetsFrom] at hlt
      omega
    rw [getElem?_offsetsFrom 0 hrow, Nat.zero_add] at hcursor
    obtain rfl := Option.some.inj hcursor
    rw [rowEnd, List.take_add_one, List.sum_append]
    cases hsize : sizes[row]? with
    | some size => simp [hamounts row size hsize]
    | none =>
        have hlast := List.getElem?_eq_none_iff.mp hsize
        rw [amountFor_eq_zero fun entry hentry => by have hlt := hrows entry hentry; omega]
        simp

/-- While columns are to come for a row, its cursor leaves room for them. -/
theorem exists_cursor {row amount : Nat}
    (hplacing : Placing sizes ((row, amount) :: pending) offsets columns) :
    ∃ cursor, entryAt offsets row = .ok cursor ∧ cursor + amount ≤ columns.size ∧
      ∀ written : Array Nat, written.size = columns.size →
        Placing sizes pending (offsets.setIfInBounds row (cursor + amount)) written := by
  have hrow : row < sizes.length := hplacing.row_lt (row, amount) (by simp)
  have hbound : row < offsets.size := by
    rw [hplacing.size_offsets]
    omega
  have hcursor : offsets[row]? = some offsets[row] := Array.getElem?_eq_getElem hbound
  refine ⟨offsets[row], entryAt_eq_ok_iff.mpr hcursor, ?_, fun written hwritten =>
    { size_offsets := ?_, size_columns := ?_, row_lt := ?_, isShort := ?_ }⟩
  · have hshort := hplacing.isShort row _ hcursor
    rw [amountFor, if_pos rfl, rowEnd] at hshort
    have hend := List.sum_take_add_sum_drop sizes (row + 1)
    rw [hplacing.size_columns]
    omega
  · rw [Array.size_setIfInBounds, hplacing.size_offsets]
  · rw [hwritten, hplacing.size_columns]
  · exact fun entry hentry => hplacing.row_lt entry (List.mem_cons_of_mem _ hentry)
  · exact hplacing.isShort.add hcursor

end Placing

/-- What the second pass puts into a row at once. -/
inductive Placement
  | one (row column : Nat)
  | several (row : Nat) (columns : List Nat)

namespace Placement

/-- The row and the number of columns. -/
def entry : Placement → Nat × Nat
  | one row _ => (row, 1)
  | several row columns => (row, columns.length)

/-- Put the columns at the cursor of the row. -/
def apply (table : IncidenceTable) : Placement → Result IncidenceTable
  | one row column => table.place row column
  | several row columns => table.placeAll row columns

end Placement

/-- A whole build: count, lay out, place, restore the starts. -/
def build (table : IncidenceTable) (rows : Nat) (counts : List (Nat × Nat))
    (placements : List Placement) : Result IncidenceTable := do
  let started ← table.startCounts rows
  let counted ← counts.foldlM (fun table (row, columns) => table.count row columns) started
  let laidOut ← counted.layOut
  let placed ← placements.foldlM Placement.apply laidOut
  return placed.restoreStarts

/-- How many columns were counted for each of the rows. -/
def countedSizes (rows : Nat) (counts : List (Nat × Nat)) : List Nat :=
  (List.range rows).map (amountFor · counts)

variable {table : IncidenceTable}

namespace Placing

variable {sizes : List Nat} {pending : List (Nat × Nat)}

/-- The offset after the last row is not moved. -/
theorem slotCount_eq (hplacing : Placing sizes pending table.offsets table.columns) :
    table.slotCount = table.columns.size := by
  have hbound : sizes.length < table.offsets.size := by
    rw [hplacing.size_offsets]
    omega
  have hlast := Array.getElem?_eq_getElem hbound
  have hshort := hplacing.isShort _ _ hlast
  rw [amountFor_eq_zero fun entry hin => Nat.ne_of_lt (hplacing.row_lt entry hin), Nat.add_zero,
    rowEnd, List.take_of_length_le (Nat.le_succ _)] at hshort
  rw [slotCount, Array.back?_eq_getElem?, hplacing.size_offsets, Nat.add_sub_cancel, hlast,
    Option.getD_some, hshort, hplacing.size_columns]

/-- Once all columns are placed, moving the starts back gives the rows that were counted. -/
theorem hasCapacities_restoreStarts (hpacked : table.fill = none)
    (hplacing : Placing sizes [] table.offsets table.columns) :
    table.restoreStarts.HasCapacities sizes := by
  refine ⟨?_, hplacing.size_columns, by simp [restoreStarts, hpacked]⟩
  rw [offsetsFrom_zero_eq, restoreStarts, List.toList_toArray, hplacing.isShort.toList_eq,
    hplacing.size_offsets, List.range_succ, List.map_append, List.map_singleton,
    List.dropLast_concat]

end Placing

end IncidenceTable

end MeshIncidence
