/-
# More columns than were counted

In the second pass the cursor of a row moves along with the columns that are placed, and nothing
remembers where the row ends. A placement is stopped at the end of all rows only. So a row that is
full takes further columns as long as later rows have slots, and writes over these.

What the cursor of a row is depends on the placements in this row alone: it is as many slots behind
the start of the row as columns have been placed there. A placement is therefore stopped once the
row has got as many columns as there are slots from its start to the end of the table. These are its
own slots exactly if no later row has any, and this is when all overruns of the row are caught.
-/

import MeshIncidence.Proofs.Table.Builds
import MeshIncidence.Proofs.Table.Checking

namespace MeshIncidence

/-- A slot within rows of the given sizes is in one of the rows. -/
theorem exists_row_of_lt_sum {sizes : List Nat} {slot : Nat} (hslot : slot < sizes.sum) :
    ∃ row size, sizes[row]? = some size ∧ (sizes.take row).sum ≤ slot ∧
      slot < (sizes.take row).sum + size := by
  induction sizes generalizing slot with
  | nil => simp at hslot
  | cons first sizes ih =>
      obtain hfirst | hlater := Nat.lt_or_ge slot first
      · exact ⟨0, first, rfl, Nat.zero_le slot, by simpa using hfirst⟩
      · rw [List.sum_cons] at hslot
        obtain ⟨row, size, hsize, hstart, hfinish⟩ := @ih (slot - first) (by omega)
        refine ⟨row + 1, size, hsize, ?_, ?_⟩ <;> rw [List.take_succ_cons, List.sum_cons] <;> omega

theorem row_lt_of_lt_sum_drop {sizes : List Nat} {row amount : Nat}
    (hamount : amount < (sizes.drop row).sum) : row < sizes.length := by
  by_contra hrow
  rw [List.drop_of_length_le (Nat.le_of_not_lt hrow)] at hamount
  exact absurd hamount (Nat.not_lt_zero amount)

/-- A row that ends the others has all the slots from its start on. -/
theorem sum_drop_eq_iff {sizes : List Nat} {row size : Nat} (hsize : sizes[row]? = some size) :
    (sizes.drop row).sum = size ↔ ∀ later other, row < later → sizes[later]? = some other →
      other = 0 := by
  obtain ⟨hrow, rfl⟩ := List.getElem?_eq_some_iff.mp hsize
  rw [List.drop_eq_getElem_cons hrow, List.sum_cons, Nat.add_eq_left, List.sum_eq_zero_iff]
  constructor
  · intro hnone later other hlater hother
    refine hnone other (List.mem_iff_getElem?.mpr ⟨later - (row + 1), ?_⟩)
    rw [List.getElem?_drop, ← hother]
    congr 1
    omega
  · intro hnone other hother
    obtain ⟨position, hposition⟩ := List.mem_iff_getElem?.mp hother
    rw [List.getElem?_drop] at hposition
    exact hnone _ other (by omega) hposition

namespace IncidenceTable

/-- Place columns one after the other, each in the row that is given with it. -/
def placeEach (table : IncidenceTable) (calls : List (Nat × Nat)) : Result IncidenceTable :=
  calls.foldlM (fun table call => table.place call.1 call.2) table

/-- How many of the columns are for a row. -/
def callsFor (row : Nat) (calls : List (Nat × Nat)) : Nat := calls.countP (·.1 = row)

theorem callsFor_concat (row : Nat) (calls : List (Nat × Nat)) (call : Nat × Nat) :
    callsFor row (calls ++ [call]) = callsFor row calls + if call.1 = row then 1 else 0 := by
  simp [callsFor, List.countP_cons]

theorem callsFor_replicate (row other column count : Nat) :
    callsFor other (List.replicate count (row, column)) = if row = other then count else 0 := by
  simp [callsFor, List.countP_replicate]

variable {table : IncidenceTable} {rows : Nat} {counts : List (Nat × Nat)}

theorem length_countedSizes : (countedSizes rows counts).length = rows := by
  simp [countedSizes]

theorem getElem?_countedSizes {row : Nat} (hrow : row < rows) :
    (countedSizes rows counts)[row]? = some (amountFor row counts) := by
  simp [countedSizes, hrow]

/-- Counting that has succeeded has counted everything, whatever the rows. -/
theorem Counting.of_foldlM_eq_ok {target : Nat → Nat} {pending : List (Nat × Nat)}
    {counted : IncidenceTable} (hsize : table.offsets.size = rows + 1) (hpacked : table.fill = none)
    (hshort : IsShort target pending table.offsets)
    (hok : pending.foldlM (fun table (row, columns) => table.count row columns) table =
      .ok counted) : Counting rows target [] counted := by
  induction pending generalizing table with
  | nil =>
      obtain rfl := Except.ok.inj hok
      exact ⟨hsize, hpacked, by simp, hshort⟩
  | cons entry pending ih =>
      obtain ⟨row, columns⟩ := entry
      rw [List.foldlM_cons] at hok
      obtain ⟨next, hnext, hrest⟩ := Result.bind_eq_ok_iff.mp hok
      obtain ⟨before, hbefore, hadded⟩ := Result.bind_eq_ok_iff.mp hnext
      obtain ⟨total, htotal, hcounted⟩ := Result.bind_eq_ok_iff.mp hadded
      obtain rfl := (addWords_eq_ok_iff.mp htotal).2
      obtain rfl := Except.ok.inj hcounted
      have hsame : (table.offsets.setIfInBounds row (before + columns)).size = rows + 1 := by
        rw [Array.size_setIfInBounds, hsize]
      exact @ih ⟨_, _, _⟩ hsame hpacked (hshort.add (entryAt_eq_ok_iff.mp hbefore)) hrest

/-- Rows of given sizes between the two passes. -/
def laidOutRows (sizes : List Nat) : IncidenceTable :=
  ⟨(offsetsFrom 0 sizes).toArray, Array.replicate sizes.sum 0, none⟩

theorem hasCapacities_laidOutRows (sizes : List Nat) :
    (laidOutRows sizes).HasCapacities sizes :=
  ⟨by simp [laidOutRows], Array.size_replicate, by simp [laidOutRows]⟩

/-- A first pass that succeeds has laid out the sizes it has counted. -/
theorem eq_of_firstPass_eq_ok {laidOut : IncidenceTable}
    (hlaidOut : table.firstPass rows counts = .ok laidOut) :
    laidOut = laidOutRows (countedSizes rows counts) := by
  obtain ⟨started, hstarted, hrest⟩ := Result.bind_eq_ok_iff.mp hlaidOut
  have hzeros : started = ⟨Array.replicate (rows + 1) 0, #[], none⟩ := by
    by_cases hroom : table.rowCount = rows ∨ (rows + 1) * wordBytes ≤ byteBound
    · exact Except.ok.inj (hstarted.symm.trans (startCounts_eq_ok hroom))
    · exact absurd hstarted ((startCounts_runsOut hroom).ne_ok started)
  subst hzeros
  obtain ⟨counted, hcounted, hlast⟩ := Result.bind_eq_ok_iff.mp hrest
  have hcounting : Counting rows (amountFor · counts) [] counted :=
    .of_foldlM_eq_ok Array.size_replicate rfl (IsShort.replicate _ counts) hcounted
  rw [hcounting.layOut_eq] at hlast
  obtain ⟨columns, hcolumns, hmade⟩ := Result.bind_eq_ok_iff.mp hlast
  obtain ⟨total, htotal, hreserved⟩ := Result.bind_eq_ok_iff.mp hcolumns
  obtain rfl := (word_eq_ok_iff.mp htotal).2
  obtain rfl := (answers_zeros _).of_eq_ok hreserved
  exact (Except.ok.inj hmade).symm

/-- Columns have been placed. Each cursor is as far behind the start of its row as columns have been
placed there, and none is behind the end of the table. -/
structure Advanced (sizes : List Nat) (calls : List (Nat × Nat)) (table : IncidenceTable) :
    Prop where
  size_offsets : table.offsets.size = sizes.length + 1
  size_columns : table.columns.size = sizes.sum
  getElem?_offsets : ∀ row ≤ sizes.length,
    table.offsets[row]? = some ((sizes.take row).sum + callsFor row calls)
  callsFor_le : ∀ row, callsFor row calls ≤ (sizes.drop row).sum

/-- A slot from the start of a row on is the row's own or a later row's. -/
theorem exists_owner {sizes : List Nat} {row slot : Nat} (hstart : (sizes.take row).sum ≤ slot)
    (hslot : slot < sizes.sum) : ∃ owner, (laidOutRows sizes).HasSlot owner slot ∧ row ≤ owner ∧
      ∀ size, sizes[row]? = some size → (owner = row ↔ slot < (sizes.take row).sum + size) := by
  obtain ⟨owner, size, hsize, hfrom, hto⟩ := exists_row_of_lt_sum hslot
  refine ⟨owner, (hasCapacities_laidOutRows sizes).hasSlot_iff.mpr ⟨size, hsize, hfrom, hto⟩, ?_,
    fun own hown => ⟨?_, fun hwithin => ?_⟩⟩
  · by_contra hbefore
    have hend := sum_take_add_le hsize (Nat.lt_of_not_le hbefore)
    omega
  · rintro rfl
    rwa [← Option.some.inj (hsize.symm.trans hown)]
  · obtain hbefore | hsame | hafter := Nat.lt_trichotomy owner row
    · have hend := sum_take_add_le hsize hbefore
      omega
    · exact hsame
    · have hend := sum_take_add_le hown hafter
      omega

namespace Advanced

variable {sizes : List Nat} {calls : List (Nat × Nat)}

theorem start (sizes : List Nat) : Advanced sizes [] (laidOutRows sizes) where
  size_offsets := by simp [laidOutRows]
  size_columns := Array.size_replicate
  getElem?_offsets row hrow := by
    rw [laidOutRows, List.getElem?_toArray, getElem?_offsetsFrom 0 hrow, Nat.zero_add]
    rfl
  callsFor_le row := Nat.zero_le _

/-- The offset after the last row does not move, as there is no slot for it. -/
theorem slotCount_eq (hadvanced : Advanced sizes calls table) : table.slotCount = sizes.sum := by
  have hlast := hadvanced.getElem?_offsets sizes.length (Nat.le_refl _)
  have hnone := hadvanced.callsFor_le sizes.length
  rw [List.drop_length, List.sum_nil] at hnone
  rw [slotCount, Array.back?_eq_getElem?, hadvanced.size_offsets, Nat.add_sub_cancel, hlast,
    Option.getD_some, List.take_length]
  omega

/-- Whether a placement is stopped depends on its row alone. -/
theorem place_eq (hadvanced : Advanced sizes calls table) {row : Nat} (hrow : row ≤ sizes.length)
    (column : Nat) : table.place row column =
      if callsFor row calls < (sizes.drop row).sum then
        .ok { table with
          offsets := table.offsets.setIfInBounds row
            ((sizes.take row).sum + callsFor row calls + 1)
          columns := table.columns.setIfInBounds ((sizes.take row).sum + callsFor row calls)
            column }
      else stop .rowOverflow := by
  have htotal := List.sum_take_add_sum_drop sizes row
  rw [place, entryAt_eq_ok_iff.mpr (hadvanced.getElem?_offsets row hrow), Result.ok_bind,
    hadvanced.slotCount_eq]
  by_cases hroom : callsFor row calls < (sizes.drop row).sum
  · rw [if_pos hroom, if_pos (by omega), replaceAt,
      if_pos (by rw [hadvanced.size_columns]; omega)]
    rfl
  · rw [if_neg hroom, if_neg (by omega)]

theorem place_eq_outOfRange (hadvanced : Advanced sizes calls table) {row : Nat}
    (hrow : sizes.length < row) (column : Nat) : table.place row column = stop .outOfRange := by
  have hnone : table.offsets[row]? = none := by
    rw [Array.getElem?_eq_none_iff, hadvanced.size_offsets]
    omega
  rw [place, entryAt, hnone]
  rfl

theorem place_eq_outOfRange_iff (hadvanced : Advanced sizes calls table) {row column : Nat} :
    table.place row column = stop .outOfRange ↔ sizes.length < row := by
  refine ⟨fun hstopped => ?_, fun hrow => hadvanced.place_eq_outOfRange hrow column⟩
  by_contra hrow
  rw [hadvanced.place_eq (Nat.le_of_not_lt hrow)] at hstopped
  split at hstopped <;> cases hstopped

theorem place_eq_rowOverflow_iff (hadvanced : Advanced sizes calls table) {row column : Nat} :
    table.place row column = stop .rowOverflow ↔
      row ≤ sizes.length ∧ callsFor row calls = (sizes.drop row).sum := by
  have hle := hadvanced.callsFor_le row
  constructor
  · intro hstopped
    have hrow : row ≤ sizes.length := by
      by_contra hrow
      rw [hadvanced.place_eq_outOfRange (Nat.lt_of_not_le hrow)] at hstopped
      cases hstopped
    rw [hadvanced.place_eq hrow] at hstopped
    split at hstopped
    · cases hstopped
    · exact ⟨hrow, by omega⟩
  · rintro ⟨hrow, hfull⟩
    rw [hadvanced.place_eq hrow, if_neg (by omega)]

theorem lt_of_place_eq_ok (hadvanced : Advanced sizes calls table) {row column : Nat}
    {after : IncidenceTable} (hplaced : table.place row column = .ok after) :
    row < sizes.length ∧ callsFor row calls < (sizes.drop row).sum := by
  obtain hrow | hrow := Nat.lt_or_ge sizes.length row
  · rw [hadvanced.place_eq_outOfRange hrow] at hplaced
    cases hplaced
  · rw [hadvanced.place_eq hrow] at hplaced
    split at hplaced
    · rename_i hroom
      exact ⟨row_lt_of_lt_sum_drop hroom, hroom⟩
    · cases hplaced

/-- A placement moves the cursor of its row by one slot, and no other. -/
theorem next (hadvanced : Advanced sizes calls table) {row column : Nat} {after : IncidenceTable}
    (hplaced : table.place row column = .ok after) :
    Advanced sizes (calls ++ [(row, column)]) after := by
  obtain ⟨hrow, hroom⟩ := hadvanced.lt_of_place_eq_ok hplaced
  rw [hadvanced.place_eq (Nat.le_of_lt hrow), if_pos hroom] at hplaced
  obtain rfl := Except.ok.inj hplaced
  refine ⟨?_, ?_, fun other hother => ?_, fun other => ?_⟩
  · rw [Array.size_setIfInBounds, hadvanced.size_offsets]
  · rw [Array.size_setIfInBounds, hadvanced.size_columns]
  · rw [Array.getElem?_setIfInBounds, callsFor_concat]
    by_cases hsame : row = other
    · subst hsame
      rw [if_pos rfl, if_pos rfl, if_pos (by rw [hadvanced.size_offsets]; omega)]
      rfl
    · rw [if_neg hsame, if_neg hsame, hadvanced.getElem?_offsets other hother]
      rfl
  · have hle := hadvanced.callsFor_le other
    rw [callsFor_concat]
    split
    · rename_i hsame
      obtain rfl : row = other := hsame
      omega
    · omega

/-- However many columns have been placed, the cursors tell for each row how many. -/
theorem of_placeEach_eq_ok {late : List (Nat × Nat)} {current : IncidenceTable}
    (hadvanced : Advanced sizes calls table) (hplaced : table.placeEach late = .ok current) :
    Advanced sizes (calls ++ late) current := by
  induction late generalizing table calls with
  | nil =>
      obtain rfl := Except.ok.inj hplaced
      rwa [List.append_nil]
  | cons call late ih =>
      obtain ⟨after, hafter, hrest⟩ := Result.bind_eq_ok_iff.mp hplaced
      have hlate := ih (hadvanced.next hafter) hrest
      rwa [List.append_assoc, List.singleton_append] at hlate

/-- Columns for which there are slots can all be placed, whatever the order of the rows. -/
theorem exists_placeEach {late : List (Nat × Nat)} (hadvanced : Advanced sizes calls table)
    (hroom : ∀ row, callsFor row (calls ++ late) ≤ (sizes.drop row).sum) :
    ∃ current, table.placeEach late = .ok current := by
  induction late generalizing table calls with
  | nil => exact ⟨table, rfl⟩
  | cons call late ih =>
      obtain ⟨row, column⟩ := call
      have hslots : callsFor row calls < (sizes.drop row).sum := by
        refine Nat.lt_of_lt_of_le ?_ (hroom row)
        simp [callsFor]
      have hplaced := hadvanced.place_eq (Nat.le_of_lt (row_lt_of_lt_sum_drop hslots)) column
      rw [if_pos hslots] at hplaced
      obtain ⟨current, hcurrent⟩ := ih (hadvanced.next hplaced) (by simpa using hroom)
      refine ⟨current, ?_⟩
      rw [placeEach, List.foldlM_cons, hplaced, Result.ok_bind, ← placeEach, hcurrent]

/-- A placement that returns writes behind the columns of its row, in its own slots or not. -/
theorem exists_slot (hadvanced : Advanced sizes calls table) {row column : Nat}
    {after : IncidenceTable} (hplaced : table.place row column = .ok after) :
    ∃ slot owner, table.offsets[row]? = some slot ∧ (laidOutRows sizes).HasSlot owner slot ∧
      row ≤ owner ∧
      (∀ size, sizes[row]? = some size → (owner = row ↔ callsFor row calls < size)) ∧
      after.columns[slot]? = some column ∧
      ∀ other, other ≠ slot → after.columns[other]? = table.columns[other]? := by
  obtain ⟨hrow, hroom⟩ := hadvanced.lt_of_place_eq_ok hplaced
  have htotal := List.sum_take_add_sum_drop sizes row
  rw [hadvanced.place_eq (Nat.le_of_lt hrow), if_pos hroom] at hplaced
  obtain rfl := Except.ok.inj hplaced
  obtain ⟨owner, hslot, hle, hown⟩ :=
    exists_owner (Nat.le_add_right (sizes.take row).sum (callsFor row calls)) (by omega)
  refine ⟨_, owner, hadvanced.getElem?_offsets row (Nat.le_of_lt hrow), hslot, hle,
    fun size hsize => ?_, ?_, fun other hother => ?_⟩
  · rw [hown size hsize]
    omega
  · rw [Array.getElem?_setIfInBounds, if_pos rfl, if_pos (by rw [hadvanced.size_columns]; omega)]
  · rw [Array.getElem?_setIfInBounds, if_neg (Ne.symm hother)]

end Advanced

/-- Every placement in the row is stopped once the row has got as many columns as it has slots,
whatever has been placed in the other rows. -/
def CatchesOverruns (laidOut : IncidenceTable) (row size : Nat) : Prop :=
  ∀ calls current, laidOut.placeEach calls = .ok current → size ≤ callsFor row calls →
    ∀ column, current.place row column = stop .rowOverflow

theorem catchesOverruns_laidOutRows_iff {sizes : List Nat} {row size : Nat}
    (hsize : sizes[row]? = some size) : (laidOutRows sizes).CatchesOverruns row size ↔
      (sizes.drop row).sum = size := by
  obtain ⟨hrow, hsame⟩ := List.getElem?_eq_some_iff.mp hsize
  have hle : size ≤ (sizes.drop row).sum := by
    rw [List.drop_eq_getElem_cons hrow, List.sum_cons, hsame]
    exact Nat.le_add_right _ _
  constructor
  · intro hcatches
    -- The row is filled first, and no other.
    have hfilled : callsFor row (List.replicate size (row, 0)) = size := by
      rw [callsFor_replicate, if_pos rfl]
    have hroom : ∀ other, callsFor other ([] ++ List.replicate size (row, 0)) ≤
        (sizes.drop other).sum := by
      intro other
      rw [List.nil_append, callsFor_replicate]
      split
      · rename_i hother
        rwa [← hother]
      · exact Nat.zero_le _
    obtain ⟨current, hcurrent⟩ := (Advanced.start sizes).exists_placeEach hroom
    have hadvanced := (Advanced.start sizes).of_placeEach_eq_ok hcurrent
    have hstopped := hcatches _ current hcurrent (Nat.le_of_eq hfilled.symm) 0
    rw [hadvanced.place_eq (Nat.le_of_lt hrow), List.nil_append, hfilled] at hstopped
    split at hstopped
    · cases hstopped
    · omega
  · intro hlast calls current hcurrent hfull column
    have hadvanced := (Advanced.start sizes).of_placeEach_eq_ok hcurrent
    rw [hadvanced.place_eq (Nat.le_of_lt hrow), List.nil_append, if_neg (by omega)]

/-- The slots from the start of a row to the end of the table. -/
def slotsFrom (rows : Nat) (counts : List (Nat × Nat)) (row : Nat) : Nat :=
  ((countedSizes rows counts).drop row).sum

/-- When placements are stopped, and what those write that are not. -/
structure StopsAtLastSlot (rows : Nat) (counts : List (Nat × Nat)) (laidOut : IncidenceTable) :
    Prop where
  /-- All columns can be placed if no row gets more of them than there are slots from its start
  on. Their order does not matter. -/
  exists_placeEach_iff : ∀ calls, (∃ current, laidOut.placeEach calls = .ok current) ↔
    ∀ row, callsFor row calls ≤ slotsFrom rows counts row
  rowOverflow_iff : ∀ calls current, laidOut.placeEach calls = .ok current →
    ∀ row column, current.place row column = stop .rowOverflow ↔
      row ≤ rows ∧ callsFor row calls = slotsFrom rows counts row
  outOfRange_iff : ∀ calls current, laidOut.placeEach calls = .ok current →
    ∀ row column, current.place row column = stop .outOfRange ↔ rows < row
  /-- One slot is written, that of the cursor. It is the row's own unless the row is full, and a
  later row's then. -/
  exists_slot : ∀ calls current, laidOut.placeEach calls = .ok current →
    ∀ row column after, current.place row column = .ok after → ∃ slot owner,
      current.offsets[row]? = some slot ∧ laidOut.HasSlot owner slot ∧ row ≤ owner ∧
        (owner = row ↔ callsFor row calls < amountFor row counts) ∧
        after.columns[slot]? = some column ∧
        ∀ other, other ≠ slot → after.columns[other]? = current.columns[other]?
  /-- A row can be overrun exactly if a later row has slots. -/
  catchesOverruns_iff : ∀ row < rows, laidOut.CatchesOverruns row (amountFor row counts) ↔
    ∀ later, row < later → later < rows → amountFor later counts = 0
  /-- All overruns are caught only if all slots are those of the first row. -/
  catchesOverruns_all_iff : (∀ row < rows, laidOut.CatchesOverruns row (amountFor row counts)) ↔
    ∀ later, 0 < later → later < rows → amountFor later counts = 0

theorem catchesOverruns_countedSizes_iff {row : Nat} (hrow : row < rows) :
    (laidOutRows (countedSizes rows counts)).CatchesOverruns row (amountFor row counts) ↔
      ∀ later, row < later → later < rows → amountFor later counts = 0 := by
  have hsize : (countedSizes rows counts)[row]? = some (amountFor row counts) :=
    getElem?_countedSizes hrow
  rw [catchesOverruns_laidOutRows_iff hsize, sum_drop_eq_iff hsize]
  constructor
  · intro hnone later hlater hlt
    exact hnone later _ hlater (getElem?_countedSizes hlt)
  · intro hnone later size hlater hother
    have hlt := (List.getElem?_eq_some_iff.mp hother).1
    rw [length_countedSizes] at hlt
    rw [getElem?_countedSizes hlt] at hother
    rw [← Option.some.inj hother]
    exact hnone later hlater hlt

/-- **Overruns.** After any first pass that succeeds, placements are stopped at the end of the table
and not at the end of their rows. -/
theorem firstPass_stopsAtLastSlot {laidOut : IncidenceTable}
    (hlaidOut : table.firstPass rows counts = .ok laidOut) :
    StopsAtLastSlot rows counts laidOut := by
  obtain rfl := eq_of_firstPass_eq_ok hlaidOut
  have hadvanced {calls : List (Nat × Nat)} {current : IncidenceTable}
      (hcurrent : (laidOutRows (countedSizes rows counts)).placeEach calls = .ok current) :
      Advanced (countedSizes rows counts) calls current :=
    (Advanced.start _).of_placeEach_eq_ok hcurrent
  exact {
    exists_placeEach_iff := fun calls => by
      constructor
      · rintro ⟨current, hcurrent⟩
        exact (hadvanced hcurrent).callsFor_le
      · intro hroom
        exact (Advanced.start _).exists_placeEach hroom
    rowOverflow_iff := fun calls current hcurrent row column => by
      rw [(hadvanced hcurrent).place_eq_rowOverflow_iff, length_countedSizes]
      rfl
    outOfRange_iff := fun calls current hcurrent row column => by
      rw [(hadvanced hcurrent).place_eq_outOfRange_iff, length_countedSizes]
    exists_slot := fun calls current hcurrent row column after hplaced => by
      have hrow := ((hadvanced hcurrent).lt_of_place_eq_ok hplaced).1
      rw [length_countedSizes] at hrow
      obtain ⟨slot, owner, hcursor, hslot, hle, hown, hwritten⟩ :=
        (hadvanced hcurrent).exists_slot hplaced
      exact ⟨slot, owner, hcursor, hslot, hle, hown _ (getElem?_countedSizes hrow), hwritten⟩
    catchesOverruns_iff := fun row hrow => catchesOverruns_countedSizes_iff hrow
    catchesOverruns_all_iff := by
      constructor
      · intro hall later hlater hlt
        exact (catchesOverruns_countedSizes_iff (Nat.zero_lt_of_lt hlt)).mp
          (hall 0 (Nat.zero_lt_of_lt hlt)) later hlater hlt
      · intro hnone row hrow
        rw [catchesOverruns_countedSizes_iff hrow]
        exact fun later hlater hlt => hnone later (Nat.zero_lt_of_lt hlater) hlt }

/-- Three rows, of which the first has no slot, are counted over a table in the middle of another
build. The second row can be overrun by one column and the third by none. -/
theorem firstPass_stopsAtLastSlot_three_rows :
    firstPass ⟨#[1, 3, 3], #[4, 4, 5], none⟩ 3 [(2, 1), (1, 1)] = .ok (laidOutRows [0, 1, 1]) ∧
      (∃ current, (laidOutRows [0, 1, 1]).placeEach [(1, 7), (2, 8), (1, 9)] = .ok current) ∧
      (laidOutRows [0, 1, 1]).CatchesOverruns 2 1 := by
  have hlaidOut : firstPass ⟨#[1, 3, 3], #[4, 4, 5], none⟩ 3 [(2, 1), (1, 1)] =
      .ok (laidOutRows [0, 1, 1]) := by decide
  have hstops := firstPass_stopsAtLastSlot hlaidOut
  refine ⟨hlaidOut, ⟨⟨#[0, 2, 2, 2], #[7, 9], none⟩, by decide⟩, ?_⟩
  exact (hstops.catchesOverruns_iff 2 (by decide)).mpr fun later hlater hlt => by omega

/-- Two rows of one slot each. Both have got their column when the first row gets a second one, and
the column of the second row is lost. -/
theorem not_catchesOverruns_two_rows : empty.firstPass 2 [(0, 1), (1, 1)] =
      .ok (laidOutRows [1, 1]) ∧ ¬ (laidOutRows [1, 1]).CatchesOverruns 0 1 ∧
    ∃ current after, (laidOutRows [1, 1]).placeEach [(1, 9), (0, 7)] = .ok current ∧
      current.place 0 8 = .ok after ∧ (laidOutRows [1, 1]).HasSlot 1 1 ∧
      current.columns[1]? = some 9 ∧ after.columns[1]? = some 8 ∧
      after.restoreStarts.rows = .ok [[7, 8], []] := by
  have hcurrent : (laidOutRows [1, 1]).placeEach [(1, 9), (0, 7)] =
      .ok ⟨#[1, 2, 2], #[7, 9], none⟩ := by decide
  have hafter : place ⟨#[1, 2, 2], #[7, 9], none⟩ 0 8 = .ok ⟨#[2, 2, 2], #[7, 8], none⟩ := by decide
  refine ⟨by decide, fun hcatches => ?_, _, _, hcurrent, hafter, ⟨1, 2, by decide⟩, by decide,
    by decide, by decide⟩
  have hstopped := hcatches _ _ hcurrent (by decide) 8
  rw [hafter] at hstopped
  cases hstopped

end IncidenceTable

end MeshIncidence
