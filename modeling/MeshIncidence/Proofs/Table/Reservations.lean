/-
# Rows with slots reserved

What a table with reserved slots answers after any insertions, successful or refused, is known
from the insertions alone: which columns its rows hold, which slots they have, what is refused
and why. The packed table holds the same columns and takes no more.

Unordered pairs are kept in the row of their smaller member, and the same is true of them.
-/

import MeshIncidence.PairTable
import MeshIncidence.Proofs.Numbering.Pairs
import MeshIncidence.Proofs.Table.Insertions

namespace MeshIncidence

namespace IncidenceTable

/-- The rows of a packed table are given lists. It finds what they hold and takes no more. -/
structure IsPackedOf (rows : Nat) (held : Nat → List Nat) (packed : IncidenceTable) : Prop where
  eq_ofRows : packed = ofRows ((List.range rows).map held)
  pack_eq : packed.pack = .ok packed
  row_eq : ∀ row < rows, packed.row row = .ok (held row)
  exists_find?_iff : ∀ row column, (∃ slot, packed.find? row column = .ok (some slot)) ↔
    row < rows ∧ column ∈ held row
  insert_eq_refuse : ∀ row < rows, ∀ column, column ∉ held row →
    packed.insert row column = refuse (.rowFull row column)

theorem exists_map_idxOf?_iff {entries : List Nat} {start column : Nat} :
    (∃ slot, (entries.idxOf? column).map (start + ·) = some slot) ↔ column ∈ entries := by
  rw [← Option.isSome_iff_exists, Option.isSome_map, List.isSome_idxOf?]

theorem isPackedOf_ofRows (rows : Nat) (held : Nat → List Nat) :
    (ofRows ((List.range rows).map held)).IsPackedOf rows held := by
  have hcapacities := hasCapacities_ofRows ((List.range rows).map held)
  have hrow : ∀ row < rows, (ofRows ((List.range rows).map held)).row row = .ok (held row) :=
    fun row hrow => row_ofRows (by simp [hrow])
  refine ⟨rfl, rfl, hrow, fun row column => ?_, fun row hlt column hmissing => ?_⟩
  · by_cases hlt : row < rows
    · rw [hcapacities.find?_eq (by simpa using hlt) (hrow row hlt)]
      simp only [Except.ok.injEq, exists_map_idxOf?_iff, hlt, true_and]
    · rw [find?, if_pos (by simpa using hlt)]
      simp [hlt]
  · exact hcapacities.insert_of_full (by simpa using hlt) (hrow row hlt) hmissing (.inl rfl)

/-- Columns have been put into the rows of a table with `capacity` slots each. -/
structure FillsAsAsked (rows capacity : Nat) (insertions : List (Nat × Nat))
    (table : IncidenceTable) : Prop where
  row_eq : ∀ row < rows, table.row row = .ok (heldBy capacity insertions row)
  nodup_row : ∀ row, (heldBy capacity insertions row).Nodup
  insert_outside_iff : ∀ row column,
    table.insert row column = refuse (.rowOutOfRange row rows) ↔ rows ≤ row
  insert_full_iff : ∀ row column, table.insert row column = refuse (.rowFull row column) ↔
    row < rows ∧ (heldBy capacity insertions row).length = capacity ∧
      column ∉ heldBy capacity insertions row
  /-- Done to the table at hand, an insertion has the same answer. -/
  fst_perform : ∀ row column,
    ((insertInPlace row column).perform table).1 = (table.insert row column).map Prod.fst
  leaves_eq : ∀ row column error, table.insert row column = refuse error →
    table.leaves (row, column) = table
  /-- Where there is a slot, the answer is that of the position in the row. -/
  insert_eq_ok : ∀ row column, row < rows →
    (heldBy capacity insertions row).length < capacity ∨ column ∈ heldBy capacity insertions row →
      ∃ position,
        (heldBy capacity (insertions ++ [(row, column)]) row).idxOf? column = some position ∧
          table.insert row column = .ok (row * capacity + position, table.leaves (row, column))
  /-- The slot stays the same, however often the column is asked for. -/
  insert_again : ∀ row column slot after, table.insert row column = .ok (slot, after) →
    ∀ later, (∃ last, (after.leavesAll later).insert row column = .ok (slot, last)) ∧
      (after.leavesAll later).find? row column = .ok (some slot)
  find?_eq : ∀ row column, table.find? row column = .ok
    (if row < rows then ((heldBy capacity insertions row).idxOf? column).map (row * capacity + ·)
    else none)
  row_leaves : ∀ row column, ∀ other < rows, other ≠ row →
    (table.leaves (row, column)).row other = table.row other
  exists_pack : ∃ packed, table.pack = .ok packed ∧
    packed.IsPackedOf rows (heldBy capacity insertions) ∧
    ∀ row column, (∃ slot, packed.find? row column = .ok (some slot)) ↔
      ∃ slot, table.find? row column = .ok (some slot)

namespace Holds

variable {rows capacity : Nat} {insertions : List (Nat × Nat)} {table : IncidenceTable}

theorem fillsAsAsked (hholds : table.Holds rows capacity (heldBy capacity insertions)) :
    table.FillsAsAsked rows capacity insertions where
  row_eq := hholds.row_eq
  nodup_row _ := nodup_heldBy
  insert_outside_iff row column := by
    refine ⟨fun hrefused => ?_, fun hrow => ?_⟩
    · by_contra hrow
      rcases hholds.insert_cases (Nat.not_le.mp hrow) column with ⟨position, -, hinsert⟩ |
        ⟨-, -, hinsert⟩ | ⟨-, -, after, hinsert, -⟩
      all_goals
        rw [hinsert] at hrefused
        cases hrefused
    · rw [insert_of_le (by rwa [hholds.rowCount_eq]), hholds.rowCount_eq]
  insert_full_iff row column := by
    refine ⟨fun hrefused => ?_, fun ⟨hrow, hfull, hmissing⟩ => ?_⟩
    · have hrow : row < rows := by
        by_contra hrow
        rw [insert_of_le (by rw [hholds.rowCount_eq]; omega)] at hrefused
        cases hrefused
      rcases hholds.insert_cases hrow column with ⟨position, -, hinsert⟩ | ⟨hmissing, hfull, -⟩ |
        ⟨-, -, after, hinsert, -⟩
      · rw [hinsert] at hrefused
        cases hrefused
      · exact ⟨hrow, hfull, hmissing⟩
      · rw [hinsert] at hrefused
        cases hrefused
    · rw [hholds.insert_eq hrow, heldBy_concat_self, if_pos (.inr hfull),
        List.idxOf?_eq_none_iff.mpr hmissing]
  fst_perform row column := (table.insertInPlace_performs row column).fst_perform
  leaves_eq _ _ _ hrefused := leaves_of_eq_error hrefused
  insert_eq_ok row column hrow hroom := by
    have hmember : column ∈ heldBy capacity (insertions ++ [(row, column)]) row := by
      rw [heldBy_concat_self]
      split
      · rename_i hheld
        rcases hroom with hfree | hmember
        · exact hheld.resolve_right (Nat.ne_of_lt hfree)
        · exact hmember
      · simp
    obtain ⟨position, hfound⟩ := Option.isSome_iff_exists.mp (List.isSome_idxOf?.mpr hmember)
    refine ⟨position, hfound, ?_⟩
    rw [hholds.insert_eq hrow, hfound]
  insert_again _ _ _ _ hinsert later := hholds.insert_again hinsert later
  find?_eq := hholds.find?_eq_ite
  row_leaves row column other hother hne := by
    rw [(hholds.leaves (row, column)).row_eq other hother, heldBy_concat_of_ne hne,
      hholds.row_eq other hother]
  exists_pack := by
    have hpacked := isPackedOf_ofRows rows (heldBy capacity insertions)
    refine ⟨_, hholds.pack_eq, hpacked, fun row column => ?_⟩
    rw [hpacked.exists_find?_iff, hholds.find?_eq_ite]
    by_cases hrow : row < rows
    · simp only [hrow, if_true, Except.ok.injEq, exists_map_idxOf?_iff, true_and]
    · simp [hrow]

end Holds

end IncidenceTable

namespace PairTable

/-- The table after a pair has been inserted, whether that succeeds or not. -/
def leaves (pairs : PairTable) (pair : Nat × Nat) : PairTable :=
  (insertInPlace pair.1 pair.2).reached pairs

/-- The table after some pairs have been inserted. -/
def leavesAll (pairs : PairTable) (given : List (Nat × Nat)) : PairTable :=
  given.foldl leaves pairs

/-- The row and the column of each pair. -/
def keys (given : List (Nat × Nat)) : List (Nat × Nat) :=
  given.map fun pair => PairNumbering.key pair.1 pair.2

/-- Pairs have been put into the rows of their smaller members. -/
structure FillsAsAsked (rows capacity : Nat) (given : List (Nat × Nat)) (pairs : PairTable) :
    Prop where
  table_fills : pairs.table.FillsAsAsked rows capacity (keys given)
  insert_eq : ∀ first second, pairs.insert first second =
    (pairs.table.insert (min first second) (max first second)).map fun (slot, after) =>
      (slot, ⟨after⟩)
  insert_comm : ∀ first second, pairs.insert first second = pairs.insert second first
  fst_perform : ∀ first second,
    ((insertInPlace first second).perform pairs).1 = (pairs.insert first second).map Prod.fst
  leavesAll_eq : ∀ later, pairs.leavesAll later = ⟨pairs.table.leavesAll (keys later)⟩
  find?_eq : ∀ first second,
    pairs.find? first second = pairs.table.find? (min first second) (max first second)
  find?_comm : ∀ first second, pairs.find? first second = pairs.find? second first
  pack_eq : pairs.pack = pairs.table.pack.map PairTable.mk

theorem sorted_eq_key (first second : Nat) :
    sorted first second = PairNumbering.key first second := by
  unfold sorted PairNumbering.key
  grind

variable {pairs : PairTable}

theorem insert_eq_map (pairs : PairTable) (first second : Nat) : pairs.insert first second =
    (pairs.table.insert (min first second) (max first second)).map fun (slot, after) =>
      (slot, ⟨after⟩) := by
  rw [insert, sorted_eq_key]
  rfl

/-- An insertion is done to the table that holds the pairs. -/
theorem perform_insertInPlace (pairs : PairTable) (first second : Nat) :
    (insertInPlace first second).perform pairs =
      let performed := (IncidenceTable.insertInPlace (min first second) (max first second)).perform
        pairs.table
      (performed.1, ⟨⟨performed.2.state⟩, performed.2.notes⟩) := by
  rw [insertInPlace, sorted_eq_key, PairNumbering.key]
  exact Action.perform_onPart _ _ _ pairs

theorem leaves_eq (pairs : PairTable) (pair : Nat × Nat) :
    pairs.leaves pair = ⟨pairs.table.leaves (PairNumbering.key pair.1 pair.2)⟩ := by
  rw [leaves, Action.reached, perform_insertInPlace]
  rfl

theorem leavesAll_eq (pairs : PairTable) (given : List (Nat × Nat)) :
    pairs.leavesAll given = ⟨pairs.table.leavesAll (keys given)⟩ := by
  induction given generalizing pairs with
  | nil => rfl
  | cons pair given ih =>
      rw [leavesAll, List.foldl_cons, ← leavesAll, ih, leaves_eq]
      rfl

theorem fillsAsAsked {rows capacity : Nat} {given : List (Nat × Nat)}
    (hfills : pairs.table.FillsAsAsked rows capacity (keys given)) :
    pairs.FillsAsAsked rows capacity given where
  table_fills := hfills
  insert_eq := pairs.insert_eq_map
  insert_comm first second := by rw [insert, insert, sorted_comm]
  fst_perform first second := by
    rw [perform_insertInPlace, hfills.fst_perform, insert_eq_map]
    cases pairs.table.insert (min first second) (max first second) <;> rfl
  leavesAll_eq := pairs.leavesAll_eq
  find?_eq first second := by
    rw [find?, sorted_eq_key]
    rfl
  find?_comm first second := by rw [find?, find?, sorted_comm]
  pack_eq := rfl

end PairTable

namespace IncidenceTable

/-- A table that can be stored is made, and so is a table of pairs; whatever columns and whatever
pairs are then inserted, in whatever order, both hold the first different ones of each row, answer
the same slots from then on, and are packed without loss. -/
theorem withCapacity_fillsAsAsked (rows capacity : Nat) :
    (CanReserve rows capacity → ∃ fresh, withCapacity rows capacity = .ok fresh ∧
      (∀ insertions, (fresh.leavesAll insertions).FillsAsAsked rows capacity insertions) ∧
      PairTable.withCapacity rows capacity = .ok ⟨fresh⟩ ∧
      ∀ given, (PairTable.leavesAll ⟨fresh⟩ given).FillsAsAsked rows capacity given) ∧
    (¬ CanReserve rows capacity → (withCapacity rows capacity).RunsOut ∧
      (PairTable.withCapacity rows capacity).RunsOut) := by
  refine ⟨fun hroom => ?_, fun hfull => ?_⟩
  · have hmade := withCapacity_eq_ok hroom
    have hfills (insertions : List (Nat × Nat)) :
        ((reserved rows capacity).leavesAll insertions).FillsAsAsked rows capacity insertions := by
      have hholds := (holds_reserved rows capacity).leavesAll insertions
      exact Holds.fillsAsAsked (by simpa using hholds)
    refine ⟨_, hmade, hfills, by rw [PairTable.withCapacity, hmade]; rfl, fun given => ?_⟩
    rw [PairTable.leavesAll_eq]
    exact PairTable.fillsAsAsked (hfills _)
  · have hrunsOut := withCapacity_runsOut hfull
    refine ⟨hrunsOut, ?_⟩
    rw [PairTable.withCapacity]
    exact hrunsOut.bind _

/-- Rows of two slots, for columns and for pairs. -/
theorem withCapacity_fillsAsAsked_two_slots : CanReserve 3 2 ∧
    ∃ fresh, withCapacity 3 2 = .ok fresh ∧
      (∀ insertions, (fresh.leavesAll insertions).FillsAsAsked 3 2 insertions) ∧
      PairTable.withCapacity 3 2 = .ok ⟨fresh⟩ ∧
      ∀ given, (PairTable.leavesAll ⟨fresh⟩ given).FillsAsAsked 3 2 given :=
  ⟨⟨by decide, by decide⟩, (withCapacity_fillsAsAsked 3 2).1 ⟨by decide, by decide⟩⟩

end IncidenceTable

end MeshIncidence
