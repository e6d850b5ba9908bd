/-
# Tables made of rows

`IncidenceTable.ofRows` lays rows out one after the other. Looking a row up in the
arrays gives that row back, and the arrays have no defect, so a table made of rows
can be taken for the list of them.
-/

import MeshIncidence.IncidenceTable.Basic
import MeshIncidence.Proofs.Outcome
import Mathlib.Algebra.BigOperators.Group.List.Basic
import Mathlib.Algebra.GroupWithZero.Nat

namespace MeshIncidence

/-- An offset is the room that the rows before it take. -/
theorem getElem?_offsetsFrom (start : Nat) {sizes : List Nat} {row : Nat}
    (hrow : row ≤ sizes.length) :
    (offsetsFrom start sizes)[row]? = some (start + (sizes.take row).sum) := by
  induction sizes generalizing start row with
  | nil =>
      obtain rfl : row = 0 := by simpa using hrow
      rfl
  | cons size sizes ih =>
      cases row with
      | zero => rfl
      | succ row =>
          have hrest := ih (start + size) (Nat.le_of_succ_le_succ hrow)
          rw [offsetsFrom, List.getElem?_cons_succ, hrest]
          simp [Nat.add_assoc]

/-- The last offset leaves room for all rows. -/
theorem getLast_offsetsFrom (start : Nat) (sizes : List Nat) :
    (offsetsFrom start sizes).getLast (offsetsFrom_ne_nil start sizes) = start + sizes.sum := by
  induction sizes generalizing start with
  | nil => rfl
  | cons size sizes ih =>
    have hlast := ih (start + size)
    simp only [offsetsFrom, List.getLast_cons (offsetsFrom_ne_nil _ _), List.sum_cons]
    rw [hlast, Nat.add_assoc]

theorem offsetsFrom_eq_cons (start : Nat) (sizes : List Nat) :
    ∃ rest, offsetsFrom start sizes = start :: rest := by
  cases sizes with
  | nil => exact ⟨[], rfl⟩
  | cons size sizes => exact ⟨offsetsFrom (start + size) sizes, rfl⟩

namespace IncidenceTable

section Rows

variable {table : IncidenceTable} {rows : List (List Nat)}

theorem length_of_rows_eq_ok (hrows : table.rows = .ok rows) : rows.length = table.rowCount := by
  rw [Result.length_of_mapM_eq_ok hrows, List.length_range]

theorem row_of_rows_eq_ok (hrows : table.rows = .ok rows) {row : Nat} {entries : List Nat}
    (hentries : rows[row]? = some entries) : table.row row = .ok entries := by
  have hlt := (List.getElem?_eq_some_iff.mp hentries).1
  rw [length_of_rows_eq_ok hrows] at hlt
  obtain ⟨others, hothers, hrow⟩ := Result.exists_of_mapM_eq_ok hrows (List.getElem?_range hlt)
  rw [hentries] at hothers
  rwa [Option.some.inj hothers]

end Rows

theorem firstDescent?_offsetsFrom (row start : Nat) (sizes : List Nat) :
    firstDescent? row (offsetsFrom start sizes) = none := by
  induction sizes generalizing row start with
  | nil => rfl
  | cons size sizes ih =>
      obtain ⟨rest, hrest⟩ := offsetsFrom_eq_cons (start + size) sizes
      rw [offsetsFrom, hrest, firstDescent?, if_neg (by omega), ← hrest]
      exact ih (row + 1) (start + size)

variable {rows : List (List Nat)}

theorem entryAt_offsets_ofRows {row : Nat} (hrow : row ≤ rows.length) :
    entryAt (ofRows rows).offsets row = .ok ((rows.map List.length).take row).sum := by
  rw [entryAt_eq_ok_iff, ofRows, List.getElem?_toArray,
    getElem?_offsetsFrom 0 (by simpa using hrow), Nat.zero_add]

theorem rowSize_ofRows {row : Nat} {entries : List Nat} (hrow : rows[row]? = some entries) :
    (ofRows rows).rowSize row = .ok entries.length := by
  obtain ⟨hlt, rfl⟩ := List.getElem?_eq_some_iff.mp hrow
  have hfinish : ((rows.map List.length).take (row + 1)).sum =
      ((rows.map List.length).take row).sum + rows[row].length := by
    rw [List.sum_take_succ _ _ (by simpa using hlt), List.getElem_map]
  have hpacked : (ofRows rows).fill = none := rfl
  simp only [rowSize, hpacked, entryAt_offsets_ofRows (Nat.le_of_lt hlt), entryAt_offsets_ofRows hlt,
    Result.ok_bind, hfinish]
  rw [if_pos (Nat.le_add_right _ _), Nat.add_sub_cancel_left]
  rfl

/-- Each row is looked up as it was given. -/
theorem row_ofRows {row : Nat} {entries : List Nat} (hrow : rows[row]? = some entries) :
    (ofRows rows).row row = .ok entries := by
  obtain ⟨hlt, hentries⟩ := List.getElem?_eq_some_iff.mp hrow
  have hrest : rows.flatten.drop ((rows.map List.length).take row).sum =
      entries ++ (rows.drop (row + 1)).flatten := by
    rw [List.drop_sum_flatten, List.drop_eq_getElem_cons hlt, hentries, List.flatten_cons]
  have hroom : ((rows.map List.length).take row).sum + entries.length ≤ rows.flatten.length := by
    rw [List.length_flatten, ← List.sum_take_add_sum_drop (rows.map List.length) row,
      ← List.map_drop, List.drop_eq_getElem_cons hlt, hentries, List.map_cons, List.sum_cons]
    omega
  simp only [IncidenceTable.row, entryAt_offsets_ofRows (Nat.le_of_lt hlt), rowSize_ofRows hrow,
    Result.ok_bind, entriesFrom]
  rw [if_pos (by simpa [ofRows] using hroom)]
  simp only [ofRows, List.toList_toArray]
  rw [hrest, List.take_left]

theorem rows_ofRows (rows : List (List Nat)) : (ofRows rows).rows = .ok rows := by
  rw [IncidenceTable.rows, rowCount_ofRows]
  exact Result.mapM_range_eq_ok fun _ _ hrow => row_ofRows hrow

theorem slotCount_ofRows (rows : List (List Nat)) :
    (ofRows rows).slotCount = rows.flatten.length := by
  have hlast := getLast_offsetsFrom 0 (rows.map List.length)
  simp only [slotCount, ofRows, List.back?_toArray]
  rw [List.getLast?_eq_getLast_of_ne_nil (offsetsFrom_ne_nil _ _), Option.getD_some, hlast,
    Nat.zero_add, List.length_flatten]

/-- A table made of rows has no defect. -/
theorem defect?_ofRows (rows : List (List Nat)) : (ofRows rows).defect? = none := by
  obtain ⟨rest, hrest⟩ := offsetsFrom_eq_cons 0 (rows.map List.length)
  have hoffsets : (ofRows rows).offsets.toList = 0 :: rest := by simp [ofRows, hrest]
  have hordered : firstDescent? 0 (0 :: rest) = none := by
    rw [← hrest]
    exact firstDescent?_offsetsFrom 0 0 _
  have hend : (ofRows rows).slotCount = (ofRows rows).columns.size := by
    rw [slotCount_ofRows]
    simp [ofRows]
  have hlayout : (ofRows rows).layoutDefect? = none := by
    simp [layoutDefect?, hoffsets, hordered, hend]
  have hpacked : (ofRows rows).fill = none := rfl
  simp [defect?, hlayout, fillDefect?, hpacked]

end IncidenceTable

end MeshIncidence
