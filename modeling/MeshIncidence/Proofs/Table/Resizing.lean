/-
# Resizing keeps a layout

Offsets and columns are kept or made anew, each by its own size. Then the first offset, those inside
and the last one are written in turn. `IncidenceTable.resizeStepwise` does this write by write, and
comes to what `IncidenceTable.resize` gives at once.

Whichever arrays were kept, the result lays out the rows and slots that were asked for. This cannot
be had for slots without rows: with no row the first offset is also the last one, and no table at
all has such a size and no defect.
-/

import MeshIncidence.Proofs.Table.Checking

namespace MeshIncidence

/-- Cut the offsets between the first and the last row down to a number of slots. -/
def clampInside (offsets : Array Nat) (rows slots : Nat) : Array Nat :=
  offsets.mapIdx fun row offset => if 0 < row ∧ row < rows then min offset slots else offset

namespace IncidenceTable

/-- Write the first offset, the offsets inside and the last one, in this order. -/
def clampStepwise (offsets : Array Nat) (rows slots : Nat) : Result (Array Nat) := do
  let started ← replaceAt offsets 0 0
  replaceAt (clampInside started rows slots) rows slots

/-- The offsets of a table if it has the rows already, or else new ones. -/
def sizedOffsets (table : IncidenceTable) (rows : Nat) : Result (Array Nat) := do
  let rowCount ← subtractWords table.offsets.size 1
  if rowCount = rows then return table.offsets
  else zeros (← addWords rows 1)

/-- The columns of a table if it has the slots already, or else new ones. -/
def sizedColumns (table : IncidenceTable) (slots : Nat) : Result (Array Nat) :=
  if table.columns.size = slots then return table.columns else zeros slots

/-- Give a table a number of rows and slots, write by write. -/
def resizeStepwise (table : IncidenceTable) (rows slots : Nat) : Result IncidenceTable := do
  let offsets ← table.sizedOffsets rows
  let columns ← table.sizedColumns slots
  let clamped ← clampStepwise offsets rows slots
  return ⟨clamped, columns, none⟩

/-- Without rows, the first offset is overwritten by the last one. -/
theorem clampStepwise_eq_ok {offsets : Array Nat} {rows : Nat} (hsize : offsets.size = rows + 1)
    (slots : Nat) : clampStepwise offsets rows slots =
      .ok ((List.range (rows + 1)).map (clampedOffset offsets rows slots)).toArray := by
  rw [clampStepwise, replaceAt, if_pos (by omega), Result.ok_bind, replaceAt,
    if_pos (by simp [clampInside, hsize])]
  refine congrArg Except.ok (Array.ext_getElem? fun row => ?_)
  conv_rhs => rw [List.getElem?_toArray, List.getElem?_map]
  rw [Array.getElem?_setIfInBounds, clampInside, Array.getElem?_mapIdx,
    Array.getElem?_setIfInBounds, Array.size_mapIdx, Array.size_setIfInBounds, hsize]
  obtain hinside | rfl | houtside := Nat.lt_trichotomy row rows
  · have hlt : row < offsets.size := by omega
    rw [if_neg (Nat.ne_of_gt hinside), List.getElem?_range (by omega), Option.map_some,
      Array.getElem?_eq_getElem hlt, clampedOffset, if_neg (Nat.ne_of_lt hinside),
      Array.getD_eq_getD_getElem?, Array.getElem?_eq_getElem hlt, Option.getD_some]
    obtain rfl | hpos := Nat.eq_zero_or_pos row
    · rfl
    · rw [if_neg (Nat.ne_of_lt hpos), Option.map_some, if_pos ⟨hpos, hinside⟩,
        if_neg (Nat.ne_of_gt hpos)]
  · rw [if_pos rfl, if_pos (Nat.lt_succ_self row), List.getElem?_range (Nat.lt_succ_self row),
      Option.map_some, clampedOffset, if_pos rfl]
  · rw [if_neg (Nat.ne_of_lt houtside), if_neg (by omega), Array.getElem?_eq_none (by omega),
      List.getElem?_eq_none (by simp; omega)]
    rfl

section Stepwise

variable {table : IncidenceTable}

theorem sizedOffsets_eq (hoffsets : 0 < table.offsets.size) (rows : Nat) :
    table.sizedOffsets rows =
      if table.rowCount = rows then pure table.offsets else word (rows + 1) >>= zeros := by
  have hcount : subtractWords table.offsets.size 1 = .ok table.rowCount := if_pos hoffsets
  rw [sizedOffsets, hcount, Result.ok_bind]
  rfl

theorem answers_sizedOffsets (hoffsets : 0 < table.offsets.size) (rows : Nat) :
    (table.sizedOffsets rows).Answers (·.size = rows + 1) := by
  rw [sizedOffsets_eq hoffsets]
  split
  · rename_i hsame
    have hsize : table.offsets.size - 1 = rows := hsame
    exact Result.answers_of_eq_ok rfl (by omega)
  · refine (answers_word (rows + 1)).bind ?_
    rintro _ rfl
    exact (answers_zeros _).mono fun _ hzeros => hzeros ▸ Array.size_replicate

/-- Write by write, resizing comes to what it gives at once. Only a table without any offset could
not be asked for its rows. -/
theorem resizeStepwise_eq (hoffsets : 0 < table.offsets.size) (rows slots : Nat) :
    table.resizeStepwise rows slots = table.resize rows slots := by
  have hanswers := answers_sizedOffsets hoffsets rows
  rw [resize_eq, ← sizedOffsets_eq hoffsets, resizeStepwise]
  cases hsized : table.sizedOffsets rows with
  | error failure => rfl
  | ok offsets =>
      have hsize := hanswers.of_eq_ok hsized
      rw [Result.ok_bind, Result.ok_bind, clampStepwise_eq_ok hsize]
      rfl

end Stepwise

theorem getElem?_clampedOffsets (offsets : Array Nat) {rows row : Nat} (hrow : row ≤ rows)
    (slots : Nat) : ((List.range (rows + 1)).map (clampedOffset offsets rows slots)).toArray[row]? =
      some (clampedOffset offsets rows slots row) := by
  rw [List.getElem?_toArray, List.getElem?_map, List.getElem?_range (Nat.lt_succ_of_le hrow)]
  rfl

/-- What becomes of a table that is given a number of rows and slots. -/
structure IsResized (table : IncidenceTable) (rows slots : Nat) (after : IncidenceTable) :
    Prop where
  isPacked : after.fill = none
  rowCount_eq : after.rowCount = rows
  slotCount_eq : after.slotCount = slots
  size_columns : after.columns.size = slots
  /-- The table passes the check, unless it has slots and no row to hold them. -/
  defect?_eq_none_iff : after.defect? = none ↔ 0 < rows ∨ slots = 0
  /-- Columns are kept if their number is. -/
  columns_kept : table.columns.size = slots → after.columns = table.columns
  columns_fresh : table.columns.size ≠ slots → after.columns = Array.replicate slots 0
  /-- The first row starts with the first slot. -/
  getElem?_offsets_zero : 0 < rows → after.offsets[0]? = some 0
  /-- Offsets are kept if their number is, and are cut down. -/
  getElem?_offsets_kept : table.rowCount = rows → ∀ row, 0 < row → row < rows →
    ∃ offset, table.offsets[row]? = some offset ∧ after.offsets[row]? = some (min offset slots)
  getElem?_offsets_fresh : table.rowCount ≠ rows → ∀ row, row < rows → after.offsets[row]? = some 0
  /-- A table that has the size already is only made packed. -/
  eq_of_size_eq : table.rowCount = rows → table.slotCount = slots →
    after = { table with fill := none }

/-- No table without defect has slots and no row. All other sizes occur. -/
theorem exists_sound_iff (rows slots : Nat) :
    (∃ table : IncidenceTable, table.defect? = none ∧ table.rowCount = rows ∧
      table.slotCount = slots) ↔ 0 < rows ∨ slots = 0 := by
  constructor
  · rintro ⟨table, hsound, hrows, hslots⟩
    obtain ⟨capacities, htable⟩ := defect?_eq_none_iff.mp hsound
    rw [htable.rowCount_eq] at hrows
    rw [slotCount_of_offsets_eq htable.offsets_eq] at hslots
    obtain hnone | hsome := Nat.eq_zero_or_pos rows
    · obtain rfl := List.eq_nil_of_length_eq_zero (hrows.trans hnone)
      exact .inr hslots.symm
    · exact .inl hsome
  · intro hrows
    obtain ⟨capacities, hclamped, hsum⟩ :=
      @exists_capacities_clamped #[] rows slots hrows fun row _ => Nat.le_of_eq rfl
    have hlength : capacities.length = rows := by
      have hlengths := congrArg List.length hclamped
      rw [length_offsetsFrom, List.length_map, List.length_range] at hlengths
      omega
    have htable : HasCapacities ⟨(offsetsFrom 0 capacities).toArray, Array.replicate slots 0, none⟩
        capacities := ⟨rfl, by simp [hsum], nofun⟩
    exact ⟨_, htable.defect?_eq_none, htable.rowCount_eq.trans hlength,
      (slotCount_of_offsets_eq htable.offsets_eq).trans hsum⟩

namespace HasCapacities

variable {table : IncidenceTable} {capacities : List Nat} {rows slots : Nat}

theorem slotCount_eq (htable : table.HasCapacities capacities) :
    table.slotCount = capacities.sum := slotCount_of_offsets_eq htable.offsets_eq

/-- No offset is beyond the last slot, so that nothing is cut down to it. -/
theorem clampedOffset_eq (htable : table.HasCapacities capacities) {row : Nat}
    (hrow : row ≤ capacities.length) :
    clampedOffset table.offsets capacities.length capacities.sum row =
      (capacities.take row).sum := by
  have hentry := entryAt_eq_ok_iff.mp (htable.entryAt_offsets hrow)
  have hle : (capacities.take row).sum ≤ capacities.sum :=
    List.sum_take_add_sum_drop capacities row ▸ Nat.le_add_right _ _
  rw [clampedOffset, Array.getD_eq_getD_getElem?, hentry, Option.getD_some, Nat.min_eq_left hle]
  split_ifs with hlast hfirst
  · rw [hlast, List.take_length]
  · rw [hfirst, List.take_zero, List.sum_nil]
  · rfl

/-- Cut down to its own size, a table keeps its offsets. -/
theorem clampedOffsets_eq (htable : table.HasCapacities capacities) :
    ((List.range (capacities.length + 1)).map
      (clampedOffset table.offsets capacities.length capacities.sum)).toArray = table.offsets := by
  refine Array.ext_getElem? fun row => ?_
  obtain hover | hle := Nat.lt_or_ge capacities.length row
  · rw [Array.getElem?_eq_none (by simp; omega), Array.getElem?_eq_none (by
      rw [htable.size_offsets]
      exact hover)]
  · rw [getElem?_clampedOffsets _ hle, htable.clampedOffset_eq hle,
      entryAt_eq_ok_iff.mp (htable.entryAt_offsets hle)]

/-- Where there is room, a table without defect gets the size and keeps what fits it. -/
theorem exists_isResized (htable : table.HasCapacities capacities)
    (hroom : table.CanResize rows slots) :
    ∃ after, table.resize rows slots = .ok after ∧ table.IsResized rows slots after := by
  have hresized := resize_eq_ok hroom
  have hsizes := (resize_answers table rows slots).of_eq_ok hresized
  have hrowCount : rowCount _ = rows := Nat.sub_eq_of_eq_add hsizes.size_offsets
  have hslotCount : slotCount _ = slots := congrArg (Option.getD · 0) hsizes.back?_offsets
  refine ⟨_, hresized, hsizes.isPacked, hrowCount, hslotCount, hsizes.size_columns,
    ⟨fun hsound => (exists_sound_iff rows slots).mp ⟨_, hsound, hrowCount, hslotCount⟩,
      fun hrows => ?_⟩, fun hsame => if_pos hsame, fun hother => if_neg hother, fun hrows => ?_,
    fun hsame row hpos hlt => ?_, fun hother row hlt => ?_, fun hsameRows hsameSlots => ?_⟩
  · obtain ⟨sizes, hafter⟩ :=
      ((htable.answers_resize hrows).of_eq_ok hresized).exists_capacities
    exact hafter.defect?_eq_none
  · rw [getElem?_clampedOffsets _ (Nat.zero_le rows), clampedOffset, if_neg (Nat.ne_of_lt hrows),
      if_pos rfl]
  · have hsize : row < table.offsets.size := by
      rw [htable.size_offsets, ← htable.rowCount_eq]
      omega
    have hoffset := Array.getElem?_eq_getElem hsize
    refine ⟨_, hoffset, ?_⟩
    rw [getElem?_clampedOffsets _ (Nat.le_of_lt hlt), clampedOffset, if_neg (Nat.ne_of_lt hlt),
      if_neg (Nat.ne_of_gt hpos), if_pos hsame, Array.getD_eq_getD_getElem?, hoffset,
      Option.getD_some]
  · rw [getElem?_clampedOffsets _ (Nat.le_of_lt hlt), clampedOffset, if_neg (Nat.ne_of_lt hlt),
      if_neg hother, Array.getD_eq_getD_getElem?, Array.getElem?_replicate,
      if_pos (Nat.lt_succ_of_lt hlt), Option.getD_some, Nat.zero_min, ite_self]
  · rw [htable.slotCount_eq, ← htable.size_columns] at hsameSlots
    rw [if_pos hsameRows, if_pos hsameSlots, mk.injEq]
    refine ⟨?_, rfl, rfl⟩
    rw [htable.rowCount_eq] at hsameRows
    rw [htable.size_columns] at hsameSlots
    rw [← hsameRows, ← hsameSlots, htable.clampedOffsets_eq]

end HasCapacities

/-- What giving a number of rows and slots to a table does. -/
structure ResizesSoundly (table : IncidenceTable) (rows slots : Nat) : Prop where
  stepwise_eq : table.resizeStepwise rows slots = table.resize rows slots
  exists_isResized : table.CanResize rows slots →
    ∃ after, table.resize rows slots = .ok after ∧ table.IsResized rows slots after
  runsOut : ¬ table.CanResize rows slots → (table.resize rows slots).RunsOut
  /-- The result has a defect only where no table of that size is without one. -/
  exists_sound_iff : (∃ other : IncidenceTable, other.defect? = none ∧ other.rowCount = rows ∧
    other.slotCount = slots) ↔ 0 < rows ∨ slots = 0

/-- **Resizing.** A table without defect takes on any size that its arrays have room for. What it
holds is kept as far as the sizes agree, and the result is without defect if any table of that size
is. -/
theorem resizesSoundly {table : IncidenceTable} (hsound : table.defect? = none) (rows slots : Nat) :
    table.ResizesSoundly rows slots := by
  obtain ⟨capacities, htable⟩ := defect?_eq_none_iff.mp hsound
  have hoffsets : 0 < table.offsets.size := htable.size_offsets ▸ Nat.succ_pos _
  exact ⟨resizeStepwise_eq hoffsets rows slots, htable.exists_isResized, resize_runsOut,
    exists_sound_iff rows slots⟩

theorem resizesSoundly_two_rows : (ofRows [[1, 2], [3]]).defect? = none ∧
    (ofRows [[1, 2], [3]]).ResizesSoundly 2 1 :=
  have hsound : (ofRows [[1, 2], [3]]).defect? = none := by decide
  ⟨hsound, resizesSoundly hsound 2 1⟩

example : (ofRows [[1, 2], [3]]).resize 2 1 = .ok ⟨#[0, 1, 1], #[0], none⟩ := rfl

/-- With slots and no row, the table ends with a defect that it did not have. -/
theorem resize_slots_without_rows : empty.defect? = none ∧ empty.CanResize 0 1 ∧
    ∃ after, empty.resize 0 1 = .ok after ∧ after.defect? = some (.layout (.firstOffset 1)) := by
  refine ⟨by decide, ⟨.inl rfl, .inr (by decide)⟩, ⟨#[1], #[0], none⟩, rfl, by decide⟩

end IncidenceTable

end MeshIncidence
