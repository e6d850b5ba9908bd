/-
# Packed tables

Packing puts the rows one after the other and lets each start where those before it end. So
the packed table is the table made of the rows, whichever slots were free and whatever they
held. Where all slots are in use that is the table itself, without its counters; otherwise
`IncidenceTable.compact` moves the rows, each past what has been moved already.
-/

import MeshIncidence.Proofs.Table.Layout
import Mathlib.Algebra.Order.BigOperators.Group.List
import Mathlib.Algebra.Order.Group.Nat

namespace MeshIncidence

namespace IncidenceTable

/-- Slices have the sizes asked for, as far as there are columns. -/
theorem map_length_slices {columns sizes capacities : List Nat}
    (hsizes : List.Forall₂ (· ≤ ·) sizes capacities) {start : Nat}
    (hroom : start + capacities.sum ≤ columns.length) :
    (slices columns (offsetsFrom start capacities) sizes).map List.length = sizes := by
  induction hsizes generalizing start with
  | nil => rfl
  | @cons size capacity sizes capacities hsize _ ih =>
      rw [List.sum_cons] at hroom
      have hrest : (slices columns (offsetsFrom (start + capacity) capacities) sizes).map
          List.length = sizes := ih (by omega)
      have hfirst : ((columns.drop start).take size).length = size := by
        rw [List.length_take, List.length_drop]
        omega
      rw [offsetsFrom, slices, List.zipWith_cons_cons, List.map_cons, hfirst, ← slices, hrest]

/-- Slices that leave nothing out make up the columns. -/
theorem flatten_slices_self (columns : List Nat) (start : Nat) (capacities : List Nat) :
    (slices columns (offsetsFrom start capacities) capacities).flatten =
      (columns.drop start).take capacities.sum := by
  induction capacities generalizing start with
  | nil => rfl
  | cons capacity capacities ih =>
      rw [offsetsFrom, slices, List.zipWith_cons_cons, List.flatten_cons, ← slices, ih,
        List.sum_cons, List.take_add, List.drop_drop]

/-- Sizes within capacities that take all the room are the capacities. -/
theorem eq_of_forall₂_le_of_sum_eq {sizes capacities : List Nat}
    (hsizes : List.Forall₂ (· ≤ ·) sizes capacities) (hsum : sizes.sum = capacities.sum) :
    sizes = capacities := by
  induction hsizes with
  | nil => rfl
  | cons hsize hrest ih =>
      have hle := hrest.sum_le_sum
      rw [List.sum_cons, List.sum_cons] at hsum
      rw [ih (by omega), show _ = _ from Nat.le_antisymm hsize (by omega)]

/-- Packing moves each row down to where the used slots of the rows before it end. -/
theorem exists_packRows (before : List Nat) {columns : Array Nat} {sizes capacities : List Nat}
    (hsizes : List.Forall₂ (· ≤ ·) sizes capacities) {start : Nat} {offsets : Array Nat}
    (hoffsets : offsets.toList = before ++ offsetsFrom start capacities)
    (hroom : start + capacities.sum ≤ columns.size) (packed : List Nat) :
    ∃ moved, packRows columns before.length sizes offsets packed = .ok (moved,
        packed ++ (slices columns.toList (offsetsFrom start capacities) sizes).flatten) ∧
      moved.toList = before ++ (offsetsFrom packed.length sizes).dropLast ++
        [start + capacities.sum] := by
  induction hsizes generalizing before start offsets packed with
  | nil =>
      refine ⟨offsets, ?_, by simpa [offsetsFrom] using hoffsets⟩
      rw [packRows, slices, List.zipWith_nil_right, List.flatten_nil, List.append_nil]
  | @cons size capacity sizes capacities hsize _ ih =>
      have hstart : entryAt offsets before.length = .ok start := by
        rw [entryAt_eq_ok_iff, ← Array.getElem?_toList, hoffsets]
        simp [offsetsFrom]
      rw [List.sum_cons] at hroom
      have hentries : entriesFrom columns start size =
          .ok ((columns.toList.drop start).take size) := by
        rw [entriesFrom, if_pos (by omega)]
      have hlength : ((columns.toList.drop start).take size).length = size := by
        rw [List.length_take, List.length_drop, Array.length_toList]
        omega
      have hrest : (offsets.setIfInBounds before.length packed.length).toList =
          (before ++ [packed.length]) ++ offsetsFrom (start + capacity) capacities := by
        rw [Array.toList_setIfInBounds, hoffsets, offsetsFrom,
          List.set_append_right _ _ (Nat.le_refl _), Nat.sub_self, List.set_cons_zero,
          List.append_assoc, List.singleton_append]
      obtain ⟨moved, hpacked, hmoved⟩ :=
        ih _ hrest (by omega) (packed ++ (columns.toList.drop start).take size)
      rw [List.length_append, hlength] at hmoved
      refine ⟨moved, ?_, ?_⟩
      · rw [packRows, hstart, Result.ok_bind, hentries, Result.ok_bind, offsetsFrom, slices,
          List.zipWith_cons_cons, List.flatten_cons, ← slices, ← List.append_assoc]
        simpa using hpacked
      · rw [hmoved, offsetsFrom, List.dropLast_cons_of_ne_nil (offsetsFrom_ne_nil _ _)]
        simp [Nat.add_assoc]

/-- The last offset is where the last row ends. -/
theorem toList_setIfInBounds_last {offsets : Array Nat} {sizes : List Nat} {last : Nat}
    (hoffsets : offsets.toList = (offsetsFrom 0 sizes).dropLast ++ [last]) :
    (offsets.setIfInBounds sizes.length sizes.sum).toList = offsetsFrom 0 sizes := by
  have hlength : (offsetsFrom 0 sizes).dropLast.length = sizes.length := by simp
  rw [Array.toList_setIfInBounds, hoffsets, List.set_append_right _ _ (Nat.le_of_eq hlength),
    hlength, Nat.sub_self, List.set_cons_zero]
  simpa using dropLast_offsetsFrom_append 0 sizes

/-- Move every row down to where the one before it ends, whether or not a slot is free. -/
def compact (table : IncidenceTable) (used : List Nat) (total : Nat) : Result IncidenceTable := do
  let (offsets, packed) ← packRows table.columns 0 used table.offsets []
  let offsets ← replaceAt offsets table.rowCount total
  let result : IncidenceTable := ⟨offsets, packed.toArray, none⟩
  insist result.defect?
  return result

namespace HasCapacities

variable {table : IncidenceTable} {capacities : List Nat}

/-- A table with all slots in use is made of its rows. -/
theorem eq_ofRows (htable : table.HasCapacities capacities) :
    { table with fill := none } =
      ofRows (slices table.columns.toList (offsetsFrom 0 capacities) capacities) := by
  have hsize : table.columns.toList.length = capacities.sum := htable.size_columns
  have hlengths := map_length_slices (List.forall₂_same.mpr fun _ _ => Nat.le_refl _)
    (Nat.le_of_eq ((Nat.zero_add _).trans hsize.symm))
  rw [ofRows, hlengths, flatten_slices_self, List.drop_zero, ← hsize, List.take_length,
    ← htable.offsets_eq, Array.toArray_toList, Array.toArray_toList]

/-- Compacting gives the table made of the used slots, also if there are no others. -/
theorem compact_eq (htable : table.HasCapacities capacities) {used : List Nat}
    (hwithin : List.Forall₂ (· ≤ ·) used capacities) :
    table.compact used used.sum =
      .ok (ofRows (slices table.columns.toList (offsetsFrom 0 capacities) used)) := by
  have hroom : 0 + capacities.sum ≤ table.columns.size := by
    rw [Nat.zero_add, htable.size_columns]
  obtain ⟨moved, hpacked, hmoved⟩ :=
    exists_packRows [] hwithin (by simpa using htable.offsets_eq) hroom []
  rw [List.nil_append] at hmoved hpacked
  rw [List.length_nil] at hpacked
  have hlast : table.rowCount < moved.size := by
    rw [← Array.length_toList, hmoved, htable.rowCount_eq, ← hwithin.length_eq]
    simp
  have hoffsets := toList_setIfInBounds_last hmoved
  rw [hwithin.length_eq, ← htable.rowCount_eq] at hoffsets
  have hrows : IncidenceTable.mk (moved.setIfInBounds table.rowCount used.sum)
      (slices table.columns.toList (offsetsFrom 0 capacities) used).flatten.toArray none =
        ofRows (slices table.columns.toList (offsetsFrom 0 capacities) used) := by
    rw [ofRows, map_length_slices hwithin hroom, ← hoffsets, Array.toArray_toList]
  rw [compact, hpacked, Result.ok_bind]
  simp only [replaceAt]
  rw [if_pos hlast, Result.ok_bind, hrows, defect?_ofRows]
  rfl

/-- Counters that add up to all slots are those of full rows. -/
theorem eq_ofRows_of_full (htable : table.HasCapacities capacities) {used : List Nat}
    (hwithin : List.Forall₂ (· ≤ ·) used capacities) (htotal : used.sum = table.columns.size) :
    { table with fill := none } =
      ofRows (slices table.columns.toList (offsetsFrom 0 capacities) used) := by
  rw [htable.size_columns] at htotal
  rw [eq_of_forall₂_le_of_sum_eq hwithin htotal, htable.eq_ofRows]

/-- Whatever the fill counters, packing gives the table made of the rows. -/
theorem pack_eq (htable : table.HasCapacities capacities) :
    table.pack = .ok (ofRows (slices table.columns.toList (offsetsFrom 0 capacities)
      (table.usedSizes capacities))) := by
  rw [pack, usedSizes]
  cases hfill : table.fill with
  | none =>
      simp only [← htable.eq_ofRows]
      rw [← hfill]
  | some used =>
      have hwithin := htable.fill_le used hfill
      simp only [← List.sum_eq_foldl]
      split
      · rename_i htotal
        rw [htable.eq_ofRows_of_full hwithin htotal]
      · exact htable.compact_eq hwithin

/-- The packed table is made of the rows that are looked up. -/
theorem pack_eq_ofRows (htable : table.HasCapacities capacities) {rows : List (List Nat)}
    (hrows : table.rows = .ok rows) : table.pack = .ok (ofRows rows) := by
  rw [htable.pack_eq, Except.ok.inj (htable.rows_eq.symm.trans hrows)]

theorem exists_pack (htable : table.HasCapacities capacities) :
    ∃ packed sizes, table.pack = .ok packed ∧ packed.HasCapacities sizes :=
  ⟨_, _, htable.pack_eq, hasCapacities_ofRows _⟩

end HasCapacities

end IncidenceTable

end MeshIncidence
