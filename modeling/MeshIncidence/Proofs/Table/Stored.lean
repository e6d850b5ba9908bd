/-
# Tables in memory

What is said of tables from here on is said of their rows. `IncidenceTable.Stores` ties a table to
the rows it has: it has no defect, its arrays are in memory, and its entries leave room for the
number of columns. Nothing else about a table decides what an operation comes to, neither the free
slots nor what they hold.

Whatever can be stored can be stored again without the free slots, by `IncidenceTable.ofRows`.
-/

import MeshIncidence.Proofs.Table.Filling
import MeshIncidence.Proofs.Table.Packing

namespace MeshIncidence

/-- How many columns a table has to have to have room for some. -/
def columnsNeeded (columns : List Nat) : Nat :=
  match columns.max? with
  | none => 0
  | some largest => largest + 1

theorem columnsNeeded_le_iff {columns : List Nat} {bound : Nat} :
    columnsNeeded columns ≤ bound ↔ ∀ column ∈ columns, column < bound := by
  unfold columnsNeeded
  split
  · rename_i hnone
    obtain rfl := List.max?_eq_none_iff.mp hnone
    simp
  · rename_i largest hlargest
    obtain ⟨hmember, hle⟩ := List.max?_eq_some_iff.mp hlargest
    refine ⟨fun hbound column hcolumn => ?_, fun hall => hall largest hmember⟩
    exact Nat.lt_of_lt_of_le (Nat.lt_succ_of_le (hle column hcolumn)) hbound

theorem lt_columnsNeeded {columns : List Nat} {column : Nat} (hcolumn : column ∈ columns) :
    column < columnsNeeded columns :=
  columnsNeeded_le_iff.mp (Nat.le_refl _) column hcolumn

theorem columnsNeeded_lt_wordBound {columns : List Nat}
    (hcolumns : ∀ column ∈ columns, column + 1 < wordBound) :
    columnsNeeded columns < wordBound := by
  have hle : columnsNeeded columns ≤ wordBound - 1 :=
    columnsNeeded_le_iff.mpr fun column hcolumn => by
      have hlt := hcolumns column hcolumn
      omega
  exact Nat.lt_of_le_of_lt hle (by decide)

theorem columnBound_eq_word (columns : List Nat) :
    columnBound columns = word (columnsNeeded columns) := by
  unfold columnBound columnsNeeded
  cases columns.max? with
  | none => exact (word_eq_ok (by decide)).symm
  | some largest => rfl

theorem answers_columnBound (columns : List Nat) :
    (columnBound columns).Answers fun bound => ∀ column ∈ columns, column < bound := by
  rw [columnBound_eq_word]
  refine (answers_word _).mono ?_
  rintro _ rfl column hcolumn
  exact lt_columnsNeeded hcolumn

theorem mem_flatten_of_mem_getD {rows : List (List Nat)} {row column : Nat}
    (hmember : column ∈ rows.getD row []) : column ∈ rows.flatten := by
  rw [List.getD_eq_getElem?_getD] at hmember
  cases hentries : rows[row]? with
  | none => simp [hentries] at hmember
  | some entries =>
      rw [hentries, Option.getD_some] at hmember
      exact List.mem_flatten.mpr ⟨entries, List.mem_of_getElem? hentries, hmember⟩

namespace IncidenceTable

theorem width_eq {table : IncidenceTable} {rows : List (List Nat)}
    (hrows : table.rows = .ok rows) :
    table.width = word (columnsNeeded rows.flatten) := by
  rw [width, hrows, Result.ok_bind, columnBound_eq_word]

/-- The table has no defect and is in memory, and it has the given rows. -/
structure Stores (table : IncidenceTable) (rows : List (List Nat)) : Prop where
  defect?_eq_none : table.defect? = none
  rows_eq : table.rows = .ok rows
  /-- Arrays that are in memory have been allocated. -/
  offsets_le : table.offsets.size * wordBytes ≤ byteBound
  columns_le : table.columns.size * wordBytes ≤ byteBound
  /-- The number of columns is a word. -/
  column_lt : ∀ column ∈ rows.flatten, column + 1 < wordBound

namespace Stores

variable {table : IncidenceTable} {rows : List (List Nat)}

theorem columnsNeeded_lt (hstores : table.Stores rows) : columnsNeeded rows.flatten < wordBound :=
  columnsNeeded_lt_wordBound hstores.column_lt

theorem width_eq_ok (hstores : table.Stores rows) :
    table.width = .ok (columnsNeeded rows.flatten) := by
  rw [width_eq hstores.rows_eq, word_eq_ok hstores.columnsNeeded_lt]

/-- Every table in memory without defect stores some rows. -/
theorem exists_of_defect?_eq_none (hdefect : table.defect? = none)
    (hoffsets : table.offsets.size * wordBytes ≤ byteBound)
    (hcolumns : table.columns.size * wordBytes ≤ byteBound)
    (hlt : ∀ rows, table.rows = .ok rows → ∀ column ∈ rows.flatten, column + 1 < wordBound) :
    ∃ rows, table.Stores rows := by
  obtain ⟨capacities, htable⟩ := defect?_eq_none_iff.mp hdefect
  obtain ⟨rows, hrows, -⟩ := htable.exists_rows
  exact ⟨rows, hdefect, hrows, hoffsets, hcolumns, hlt rows hrows⟩

/-- There is room for an offset for each row and one more. -/
theorem length_le (hstores : table.Stores rows) : (rows.length + 1) * wordBytes ≤ byteBound := by
  obtain ⟨capacities, htable⟩ := defect?_eq_none_iff.mp hstores.defect?_eq_none
  have hoffsets := hstores.offsets_le
  rwa [htable.size_offsets, ← htable.rowCount_eq, ← length_of_rows_eq_ok hstores.rows_eq]
    at hoffsets

/-- There is room for the entries of all rows. -/
theorem length_flatten_le (hstores : table.Stores rows) :
    rows.flatten.length * wordBytes ≤ byteBound := by
  obtain ⟨capacities, htable⟩ := defect?_eq_none_iff.mp hstores.defect?_eq_none
  have hrows := Except.ok.inj (htable.rows_eq.symm.trans hstores.rows_eq)
  have hroom : 0 + capacities.sum ≤ table.columns.toList.length := by
    rw [Nat.zero_add, Array.length_toList, htable.size_columns]
  have hsizes := map_length_slices htable.usedSizes_le hroom
  have hle := htable.usedSizes_le.sum_le_sum
  rw [← htable.size_columns] at hle
  rw [List.length_flatten, ← hrows, hsizes]
  exact Nat.le_trans (Nat.mul_le_mul_right _ hle) hstores.columns_le

/-- The table made of some rows stores them if there is room. -/
theorem ofRows (hlength : (rows.length + 1) * wordBytes ≤ byteBound)
    (hflatten : rows.flatten.length * wordBytes ≤ byteBound)
    (hcolumns : ∀ column ∈ rows.flatten, column + 1 < wordBound) : (ofRows rows).Stores rows where
  defect?_eq_none := defect?_ofRows rows
  rows_eq := rows_ofRows rows
  offsets_le := by simpa [IncidenceTable.ofRows] using hlength
  columns_le := by simpa [IncidenceTable.ofRows] using hflatten
  column_lt := hcolumns

end Stores

/-- Rows with free slots: the first one holds a column twice, the second one has slots and no
columns, and what the last free slot holds is no entry. -/
def repeatingTable : IncidenceTable :=
  ⟨#[0, 3, 4, 7], #[1, 3, 1, 8, 4, 1, 9], some #[3, 0, 2]⟩

theorem stores_repeatingTable : repeatingTable.Stores [[1, 3, 1], [], [4, 1]] :=
  ⟨by decide, by decide, by decide, by decide, by decide⟩

end IncidenceTable

end MeshIncidence
