/-
# The layout of a table

A table has no defect exactly when its offsets are those of some capacities, one for each
row, its columns fill the capacities, and no fill counter exceeds the capacity of its row.
`IncidenceTable.HasCapacities` names the capacities, so that what is said further on about
operations is about capacities of rows and not about single offsets.

In a table without defect every question about a row has an answer.
-/

import MeshIncidence.IncidenceTable.Text
import MeshIncidence.IncidenceTable.Slots
import MeshIncidence.Proofs.TableRows
import Mathlib.Data.List.Forall2

namespace MeshIncidence

/-- Numbers that never decrease are the offsets of some sizes. -/
theorem exists_offsetsFrom_eq {start : Nat} {offsets : List Nat}
    (hordered : (start :: offsets).IsChain (· ≤ ·)) :
    ∃ sizes, offsetsFrom start sizes = start :: offsets := by
  induction offsets generalizing start with
  | nil => exact ⟨[], rfl⟩
  | cons next offsets ih =>
      obtain ⟨hle, hrest⟩ := List.isChain_cons_cons.mp hordered
      obtain ⟨sizes, hsizes⟩ := ih hrest
      refine ⟨(next - start) :: sizes, ?_⟩
      rw [offsetsFrom, Nat.add_sub_cancel' hle, hsizes]

/-- All rows but the last start, and the last one ends. -/
theorem dropLast_offsetsFrom_append (start : Nat) (sizes : List Nat) :
    (offsetsFrom start sizes).dropLast ++ [start + sizes.sum] = offsetsFrom start sizes := by
  rw [← getLast_offsetsFrom, List.dropLast_concat_getLast]

/-- A row ends before any later one starts. -/
theorem sum_take_add_le {sizes : List Nat} {row size other : Nat} (hsize : sizes[row]? = some size)
    (hlt : row < other) : (sizes.take row).sum + size ≤ (sizes.take other).sum := by
  obtain ⟨hrow, rfl⟩ := List.getElem?_eq_some_iff.mp hsize
  have hprefix : sizes.take (row + 1) <+: sizes.take other :=
    List.take_prefix_take_left hlt
  obtain ⟨rest, hrest⟩ := hprefix
  rw [← List.sum_take_succ sizes row hrow, ← hrest, List.sum_append]
  exact Nat.le_add_right _ _

namespace IncidenceTable

/-- From each start on as many columns as the size there says. -/
def slices (columns starts sizes : List Nat) : List (List Nat) :=
  List.zipWith (fun start size => (columns.drop start).take size) starts sizes

/-- How many slots of each row are in use, if the rows have given capacities. -/
def usedSizes (table : IncidenceTable) (capacities : List Nat) : List Nat :=
  match table.fill with
  | some used => used.toList
  | none => capacities

/-- The rows have given capacities, one after the other, and are not overfull. -/
structure HasCapacities (table : IncidenceTable) (capacities : List Nat) : Prop where
  offsets_eq : table.offsets.toList = offsetsFrom 0 capacities
  size_columns : table.columns.size = capacities.sum
  fill_le : ∀ used, table.fill = some used → List.Forall₂ (· ≤ ·) used.toList capacities

theorem firstDescent?_eq_none_iff {row : Nat} {offsets : List Nat} :
    firstDescent? row offsets = none ↔ offsets.IsChain (· ≤ ·) := by
  fun_induction firstDescent? row offsets with
  | case1 row start finish offsets hdescent =>
      simp only [reduceCtorEq, List.isChain_cons_cons, false_iff, not_and]
      omega
  | case2 row start finish offsets hascent ih =>
      rw [ih, List.isChain_cons_cons]
      exact ⟨fun hrest => ⟨by omega, hrest⟩, And.right⟩
  | case3 offsets row hshort =>
      cases offsets with
      | nil => simp
      | cons start offsets =>
          cases offsets with
          | nil => simp
          | cons finish offsets => exact absurd rfl (hshort start finish offsets)

/-- Of as many fill counters as rows none is overfull if each is within the capacity. -/
theorem firstOverfull?_eq_none_iff (row start : Nat) {capacities used : List Nat}
    (hlength : used.length = capacities.length) :
    firstOverfull? row (offsetsFrom start capacities) used = none ↔
      List.Forall₂ (· ≤ ·) used capacities := by
  induction capacities generalizing row start used with
  | nil =>
      obtain rfl : used = [] := List.eq_nil_of_length_eq_zero hlength
      simp [offsetsFrom, firstOverfull?]
  | cons capacity capacities ih =>
      cases used with
      | nil => simp at hlength
      | cons count used =>
          have hrest := ih (row + 1) (start + capacity) (Nat.succ.inj hlength)
          obtain ⟨rest, heq⟩ := offsetsFrom_eq_cons (start + capacity) capacities
          rw [heq] at hrest
          rw [offsetsFrom, heq, firstOverfull?, List.forall₂_cons, ← hrest,
            Nat.add_sub_cancel_left]
          split
          · simp only [reduceCtorEq, false_iff, not_and]
            omega
          · exact ⟨fun hnone => ⟨by omega, hnone⟩, And.right⟩

variable {table : IncidenceTable} {capacities : List Nat}

/-- Offsets of capacities end where the last row does. -/
theorem slotCount_of_offsets_eq (hoffsets : table.offsets.toList = offsetsFrom 0 capacities) :
    table.slotCount = capacities.sum := by
  have hlast := getLast_offsetsFrom 0 capacities
  rw [slotCount, ← Array.getLast?_toList, hoffsets,
    List.getLast?_eq_getLast_of_ne_nil (offsetsFrom_ne_nil 0 capacities), hlast,
    Option.getD_some, Nat.zero_add]

theorem rowCount_of_offsets_eq (hoffsets : table.offsets.toList = offsetsFrom 0 capacities) :
    table.rowCount = capacities.length := by
  rw [rowCount, ← Array.length_toList, hoffsets, length_offsetsFrom, Nat.add_sub_cancel]

/-- The layout has no defect exactly when it is that of some capacities. -/
theorem layoutDefect?_eq_none_iff :
    table.layoutDefect? = none ↔ ∃ capacities,
      table.offsets.toList = offsetsFrom 0 capacities ∧ table.columns.size = capacities.sum := by
  constructor
  · intro hnone
    cases hlist : table.offsets.toList with
    | nil => simp [layoutDefect?, hlist] at hnone
    | cons first rest =>
        simp only [layoutDefect?, hlist] at hnone
        split at hnone
        · simp at hnone
        · rename_i hfirst
          obtain rfl : first = 0 := by simpa using hfirst
          split at hnone
          · simp at hnone
          · rename_i hordered
            obtain ⟨capacities, heq⟩ :=
              exists_offsetsFrom_eq (firstDescent?_eq_none_iff.mp hordered)
            have hend := slotCount_of_offsets_eq (hlist.trans heq.symm)
            refine ⟨capacities, heq.symm, ?_⟩
            split at hnone
            · simp at hnone
            · omega
  · rintro ⟨capacities, hoffsets, hcolumns⟩
    obtain ⟨rest, hrest⟩ := offsetsFrom_eq_cons 0 capacities
    have hordered : firstDescent? 0 (0 :: rest) = none := by
      rw [← hrest]
      exact firstDescent?_offsetsFrom 0 0 capacities
    have hend := slotCount_of_offsets_eq hoffsets
    simp [layoutDefect?, hoffsets, hrest, hordered, hend, hcolumns]

theorem fillDefect?_eq_none_iff (hoffsets : table.offsets.toList = offsetsFrom 0 capacities) :
    table.fillDefect? = none ↔
      ∀ used, table.fill = some used → List.Forall₂ (· ≤ ·) used.toList capacities := by
  cases hfill : table.fill with
  | none => simp [fillDefect?, hfill]
  | some used =>
      simp only [fillDefect?, hfill, rowCount_of_offsets_eq hoffsets, hoffsets]
      rw [← Array.length_toList]
      constructor
      · intro hnone other hother
        obtain rfl := Option.some.inj hother
        split at hnone
        · simp at hnone
        · rename_i hlength
          exact (firstOverfull?_eq_none_iff 0 0 (not_not.mp hlength)).mp
            (Option.map_eq_none_iff.mp hnone)
      · intro hle
        have hwithin := hle used rfl
        rw [if_neg (not_not.mpr hwithin.length_eq), Option.map_eq_none_iff]
        exact (firstOverfull?_eq_none_iff 0 0 hwithin.length_eq).mpr hwithin

/-- A table has no defect exactly when its rows have some capacities. -/
theorem defect?_eq_none_iff :
    table.defect? = none ↔ ∃ capacities, table.HasCapacities capacities := by
  constructor
  · intro hnone
    cases hlayout : table.layoutDefect? with
    | some defect => simp [defect?, hlayout] at hnone
    | none =>
        obtain ⟨capacities, hoffsets, hcolumns⟩ := layoutDefect?_eq_none_iff.mp hlayout
        simp only [defect?, hlayout, Option.map_eq_none_iff] at hnone
        exact ⟨capacities, hoffsets, hcolumns, (fillDefect?_eq_none_iff hoffsets).mp hnone⟩
  · rintro ⟨capacities, hoffsets, hcolumns, hfill⟩
    have hlayout := layoutDefect?_eq_none_iff.mpr ⟨capacities, hoffsets, hcolumns⟩
    simp [defect?, hlayout, (fillDefect?_eq_none_iff hoffsets).mpr hfill]

/-- Rows have the capacities of their lengths in the table made of them. -/
theorem hasCapacities_ofRows (rows : List (List Nat)) :
    (ofRows rows).HasCapacities (rows.map List.length) :=
  ⟨by simp [ofRows], by simp [ofRows, List.length_flatten], by simp [ofRows]⟩

theorem checked_eq_ok (hsound : table.defect? = none) : table.checked = .ok table := by
  rw [checked, hsound]
  rfl

theorem checked_eq_refuse {error : Error} (hdefect : table.defect? = some error) :
    table.checked = refuse error := by
  rw [checked, hdefect]
  rfl

/-- A table accepted by the check has no defect. -/
theorem defect?_of_checked {accepted : IncidenceTable} (hchecked : table.checked = .ok accepted) :
    accepted = table ∧ table.defect? = none := by
  cases hdefect : table.defect? with
  | none =>
      rw [checked_eq_ok hdefect] at hchecked
      exact ⟨(Except.ok.inj hchecked).symm, rfl⟩
  | some error =>
      rw [checked_eq_refuse hdefect] at hchecked
      cases hchecked

namespace HasCapacities

theorem rowCount_eq (htable : table.HasCapacities capacities) :
    table.rowCount = capacities.length := rowCount_of_offsets_eq htable.offsets_eq

theorem size_offsets (htable : table.HasCapacities capacities) :
    table.offsets.size = capacities.length + 1 := by
  rw [← Array.length_toList, htable.offsets_eq, length_offsetsFrom]

/-- A row starts after the capacities of the rows before it. -/
theorem entryAt_offsets (htable : table.HasCapacities capacities) {row : Nat}
    (hrow : row ≤ capacities.length) :
    entryAt table.offsets row = .ok (capacities.take row).sum := by
  rw [entryAt_eq_ok_iff, ← Array.getElem?_toList, htable.offsets_eq, getElem?_offsetsFrom 0 hrow,
    Nat.zero_add]

/-- A row ends a capacity after its start. -/
theorem entryAt_offsets_succ (htable : table.HasCapacities capacities) {row capacity : Nat}
    (hcapacity : capacities[row]? = some capacity) :
    entryAt table.offsets (row + 1) = .ok ((capacities.take row).sum + capacity) := by
  obtain ⟨hlt, hat⟩ := List.getElem?_eq_some_iff.mp hcapacity
  rw [htable.entryAt_offsets hlt, List.sum_take_succ capacities row hlt, hat]

/-- Within a row there are slots. -/
theorem add_le_size_columns (htable : table.HasCapacities capacities) {row capacity : Nat}
    (hcapacity : capacities[row]? = some capacity) :
    (capacities.take row).sum + capacity ≤ table.columns.size := by
  obtain ⟨hlt, rfl⟩ := List.getElem?_eq_some_iff.mp hcapacity
  rw [htable.size_columns, ← List.sum_take_add_sum_drop capacities row,
    List.drop_eq_getElem_cons hlt, List.sum_cons]
  omega

/-- As many slots are in use as a row has, or fewer. -/
theorem usedSizes_le (htable : table.HasCapacities capacities) :
    List.Forall₂ (· ≤ ·) (table.usedSizes capacities) capacities := by
  unfold usedSizes
  split
  · rename_i used hfill
    exact htable.fill_le used hfill
  · exact List.forall₂_same.mpr fun _ _ => Nat.le_refl _

theorem rowSize_eq (htable : table.HasCapacities capacities) {row size : Nat}
    (hsize : (table.usedSizes capacities)[row]? = some size) : table.rowSize row = .ok size := by
  cases hfill : table.fill with
  | none =>
      simp only [usedSizes, hfill] at hsize
      obtain ⟨hlt, -⟩ := List.getElem?_eq_some_iff.mp hsize
      simp only [rowSize, hfill, htable.entryAt_offsets (Nat.le_of_lt hlt),
        htable.entryAt_offsets_succ hsize, Result.ok_bind]
      rw [if_pos (Nat.le_add_right _ _), Nat.add_sub_cancel_left, Result.pure_eq_ok]
  | some used =>
      simp only [usedSizes, hfill, Array.getElem?_toList] at hsize
      simp only [rowSize, hfill]
      exact entryAt_eq_ok_iff.mpr hsize

/-- The slots in use come first in a row. -/
theorem row_eq (htable : table.HasCapacities capacities) {row size : Nat}
    (hsize : (table.usedSizes capacities)[row]? = some size) :
    table.row row = .ok ((table.columns.toList.drop (capacities.take row).sum).take size) := by
  have hwithin := htable.usedSizes_le
  obtain ⟨hlt, hat⟩ := List.getElem?_eq_some_iff.mp hsize
  have hrow : row < capacities.length := hwithin.length_eq ▸ hlt
  have hle : size ≤ capacities[row] := hat ▸ hwithin.get hlt hrow
  have hroom := htable.add_le_size_columns (List.getElem?_eq_getElem hrow)
  rw [IncidenceTable.row, htable.entryAt_offsets (Nat.le_of_lt hrow), Result.ok_bind,
    htable.rowSize_eq hsize, Result.ok_bind, entriesFrom, if_pos (by omega)]

/-- A row has columns, as many as its size says. -/
theorem exists_row (htable : table.HasCapacities capacities) {row capacity : Nat}
    (hcapacity : capacities[row]? = some capacity) :
    ∃ entries, table.row row = .ok entries ∧ table.rowSize row = .ok entries.length ∧
      entries.length ≤ capacity := by
  have hwithin := htable.usedSizes_le
  obtain ⟨hlt, hat⟩ := List.getElem?_eq_some_iff.mp hcapacity
  have hused : row < (table.usedSizes capacities).length := by rwa [hwithin.length_eq]
  have hsize := List.getElem?_eq_getElem hused
  have hle : (table.usedSizes capacities)[row] ≤ capacity := hat ▸ hwithin.get hused hlt
  have hroom := htable.add_le_size_columns hcapacity
  have hlength : ((table.columns.toList.drop (capacities.take row).sum).take
      (table.usedSizes capacities)[row]).length = (table.usedSizes capacities)[row] := by
    rw [List.length_take, List.length_drop, Array.length_toList]
    omega
  refine ⟨_, htable.row_eq hsize, ?_, ?_⟩
  · rw [hlength, htable.rowSize_eq hsize]
  · rwa [hlength]

/-- The columns of a row, and how many of its slots are in use. -/
theorem getElem?_usedSizes (htable : table.HasCapacities capacities) {row : Nat}
    (hrow : row < capacities.length) {entries : List Nat} (hentries : table.row row = .ok entries) :
    (table.usedSizes capacities)[row]? = some entries.length := by
  have hused : row < (table.usedSizes capacities).length := by
    rwa [htable.usedSizes_le.length_eq]
  obtain ⟨others, hothers, hsize, -⟩ := htable.exists_row (List.getElem?_eq_getElem hrow)
  obtain rfl := Except.ok.inj (hothers.symm.trans hentries)
  rw [htable.rowSize_eq (List.getElem?_eq_getElem hused)] at hsize
  rw [List.getElem?_eq_getElem hused, Except.ok.inj hsize]

theorem length_slices (htable : table.HasCapacities capacities) :
    (slices table.columns.toList (offsetsFrom 0 capacities) (table.usedSizes capacities)).length =
      table.rowCount := by
  rw [slices, List.length_zipWith, length_offsetsFrom, htable.usedSizes_le.length_eq,
    htable.rowCount_eq]
  omega

/-- The rows are slices of the columns. -/
theorem rows_eq (htable : table.HasCapacities capacities) :
    table.rows = .ok (slices table.columns.toList (offsetsFrom 0 capacities)
      (table.usedSizes capacities)) := by
  rw [rows, ← htable.length_slices]
  refine Result.mapM_range_eq_ok fun row entries hentries => ?_
  rw [slices, List.getElem?_zipWith_eq_some] at hentries
  obtain ⟨start, size, hstart, hsize, rfl⟩ := hentries
  have hrow : row ≤ capacities.length := by
    obtain ⟨hlt, -⟩ := List.getElem?_eq_some_iff.mp hsize
    rw [htable.usedSizes_le.length_eq] at hlt
    exact Nat.le_of_lt hlt
  rw [getElem?_offsetsFrom 0 hrow, Nat.zero_add] at hstart
  obtain rfl := Option.some.inj hstart
  exact htable.row_eq hsize

/-- The columns of all rows can be listed. -/
theorem exists_rows (htable : table.HasCapacities capacities) :
    ∃ rows, table.rows = .ok rows ∧ rows.length = table.rowCount :=
  ⟨_, htable.rows_eq, htable.length_slices⟩

/-- A column is found at its position from the start of the row on. -/
theorem find?_eq (htable : table.HasCapacities capacities) {row : Nat}
    (hrow : row < capacities.length) {entries : List Nat} (hentries : table.row row = .ok entries)
    (column : Nat) : table.find? row column =
      .ok ((entries.idxOf? column).map ((capacities.take row).sum + ·)) := by
  rw [find?, if_neg (by rw [htable.rowCount_eq]; omega), htable.entryAt_offsets (Nat.le_of_lt hrow),
    Result.ok_bind, hentries]
  rfl

/-- Whether a row has a column can be asked of any row. -/
theorem exists_find? (htable : table.HasCapacities capacities) (row column : Nat) :
    ∃ slot, table.find? row column = .ok slot := by
  by_cases hrow : row < capacities.length
  · obtain ⟨entries, hentries, -⟩ := htable.exists_row (List.getElem?_eq_getElem hrow)
    exact ⟨_, htable.find?_eq hrow hentries column⟩
  · rw [find?, if_pos (by rw [htable.rowCount_eq]; omega)]
    exact ⟨none, rfl⟩

theorem exists_listing (htable : table.HasCapacities capacities) (layout : ListingLayout) :
    ∃ text, table.listing layout = .ok text := by
  obtain ⟨rows, hrows, -⟩ := htable.exists_rows
  rw [listing, hrows]
  exact ⟨_, rfl⟩

theorem exists_saved (htable : table.HasCapacities capacities) :
    ∃ text, table.saved = .ok text := by
  obtain ⟨rows, hrows, -⟩ := htable.exists_rows
  rw [saved, hrows]
  exact ⟨_, rfl⟩

end HasCapacities

end IncidenceTable

end MeshIncidence
