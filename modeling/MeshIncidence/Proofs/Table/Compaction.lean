/-
# Packing loses nothing

Packing sums up the fill counters and looks whether the sum is the number of slots. If it is, no
slot is free, since no row has more columns than slots, and dropping the counters is all there is to
do. If it is not, every row is moved. `IncidenceTable.packChecked` makes each sum a machine word,
asks for the room of what is moved, and can be told to move the rows in either case; both ways come
to the table that `IncidenceTable.pack` gives.

The packed table has the rows of the table and as many slots as these have columns. Packing it once
more leaves it as it is.
-/

import MeshIncidence.Proofs.Table.Stored

namespace MeshIncidence

/-- Sums of words that stay words do not overflow. -/
theorem foldlM_addWords {numbers : List Nat} {start : Nat} (hlt : start + numbers.sum < wordBound) :
    numbers.foldlM addWords start = .ok (start + numbers.sum) := by
  induction numbers generalizing start with
  | nil => rfl
  | cons number numbers ih =>
      rw [List.sum_cons, ← Nat.add_assoc] at hlt ⊢
      rw [List.foldlM_cons, addWords_of_lt (by omega), Result.ok_bind, ih hlt]

namespace IncidenceTable

/-- Pack with sums that are words and with room asked for. Rows are moved if there are free slots,
and also otherwise if `always` says so. -/
def packChecked (table : IncidenceTable) (always : Bool) : Result IncidenceTable :=
  match table.fill with
  | none => .ok table
  | some used => do
    let total ← used.toList.foldlM addWords 0
    if total = table.columns.size ∧ always = false then return { table with fill := none }
    else do
      reserve total wordBytes
      table.compact used.toList total

/-- What is left of a table once it has been packed: all of its rows, and no slot besides. -/
structure PacksExactly (table packed : IncidenceTable) : Prop where
  pack_eq : table.pack = .ok packed
  /-- No sum overflows, and it does not matter whether full rows are moved. -/
  packChecked_eq : ∀ always, table.packChecked always = .ok packed
  isPacked_eq : packed.isPacked = true
  defect?_eq_none : packed.defect? = none
  rowCount_eq : packed.rowCount = table.rowCount
  exists_row : ∀ row < table.rowCount, ∃ entries,
    table.row row = .ok entries ∧ packed.row row = .ok entries
  /-- The slots are those that were in use. -/
  exists_sizes : ∃ sizes, (List.range table.rowCount).mapM table.rowSize = .ok sizes ∧
    packed.slotCount = sizes.sum ∧ packed.columns.size = sizes.sum
  pack_again : packed.pack = .ok packed
  packChecked_again : ∀ always, packed.packChecked always = .ok packed

namespace HasCapacities

variable {table : IncidenceTable} {capacities : List Nat}

/-- There is no more to add up than there are slots, and both ways pack the same rows. -/
theorem packChecked_eq (htable : table.HasCapacities capacities)
    (hroom : table.columns.size * wordBytes ≤ byteBound) (always : Bool) :
    table.packChecked always = table.pack := by
  rw [htable.pack_eq, packChecked, usedSizes]
  cases hfill : table.fill with
  | none =>
      dsimp only
      rw [← htable.eq_ofRows, ← hfill]
  | some used =>
      have hwithin := htable.fill_le used hfill
      have hle : used.toList.sum ≤ table.columns.size := by
        rw [htable.size_columns]
        exact hwithin.sum_le_sum
      have hfits : used.toList.sum * wordBytes ≤ byteBound :=
        Nat.le_trans (Nat.mul_le_mul_right _ hle) hroom
      have hword : 0 + used.toList.sum < wordBound := by
        rw [Nat.zero_add]
        exact lt_wordBound_of_mul_le hfits
      have htotal := foldlM_addWords hword
      rw [Nat.zero_add] at htotal
      dsimp only
      rw [htotal, Result.ok_bind]
      split
      · rename_i hfull
        rw [Result.pure_eq_ok, htable.eq_ofRows_of_full hwithin hfull.1]
      · rw [reserve, if_pos hfits, Result.ok_bind, htable.compact_eq hwithin]

/-- The sizes of the rows are the counters, or the capacities where there are none. -/
theorem mapM_rowSize (htable : table.HasCapacities capacities) :
    (List.range table.rowCount).mapM table.rowSize = .ok (table.usedSizes capacities) := by
  have hlength : (table.usedSizes capacities).length = table.rowCount := by
    rw [htable.usedSizes_le.length_eq, htable.rowCount_eq]
  rw [← hlength]
  exact Result.mapM_range_eq_ok fun _ _ hsize => htable.rowSize_eq hsize

theorem packsExactly (htable : table.HasCapacities capacities)
    (hroom : table.columns.size * wordBytes ≤ byteBound) {rows : List (List Nat)}
    (hrows : table.rows = .ok rows) : PacksExactly table (ofRows rows) where
  pack_eq := htable.pack_eq_ofRows hrows
  packChecked_eq always := by
    rw [htable.packChecked_eq hroom, htable.pack_eq_ofRows hrows]
  isPacked_eq := rfl
  defect?_eq_none := defect?_ofRows rows
  rowCount_eq := by rw [rowCount_ofRows, length_of_rows_eq_ok hrows]
  exists_row row hrow := by
    rw [← length_of_rows_eq_ok hrows] at hrow
    have hentries := List.getElem?_eq_getElem hrow
    exact ⟨_, row_of_rows_eq_ok hrows hentries, row_ofRows hentries⟩
  exists_sizes := by
    have hsum : rows.flatten.length = (table.usedSizes capacities).sum := by
      obtain rfl := Except.ok.inj (htable.rows_eq.symm.trans hrows)
      rw [List.length_flatten, map_length_slices htable.usedSizes_le
        (by rw [Nat.zero_add, Array.length_toList, htable.size_columns])]
    refine ⟨_, htable.mapM_rowSize, ?_, ?_⟩
    · rw [slotCount_ofRows, hsum]
    · rw [← hsum, ofRows, List.size_toArray]
  pack_again := rfl
  packChecked_again _ := rfl

end HasCapacities

/-- **Packing.** A table without defect can be packed, and no row loses or moves a column. Whether
rows are moved where all slots are in use makes no difference, and neither does packing twice. -/
theorem exists_packsExactly {table : IncidenceTable} (hsound : table.defect? = none)
    (hroom : table.columns.size * wordBytes ≤ byteBound) :
    ∃ packed, PacksExactly table packed := by
  obtain ⟨capacities, htable⟩ := defect?_eq_none_iff.mp hsound
  exact ⟨_, htable.packsExactly hroom htable.rows_eq⟩

theorem exists_packsExactly_repeatingTable : repeatingTable.defect? = none ∧
    ∃ packed, PacksExactly repeatingTable packed :=
  ⟨stores_repeatingTable.defect?_eq_none,
    exists_packsExactly stores_repeatingTable.defect?_eq_none stores_repeatingTable.columns_le⟩

-- The last row keeps neither its place nor its free slot.
example : repeatingTable.pack = .ok ⟨#[0, 3, 3, 5], #[1, 3, 1, 4, 1], none⟩ := by decide

end IncidenceTable

end MeshIncidence
