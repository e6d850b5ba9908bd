/-
# Tables with free slots

Sizing and filling a table keep its layout. A sized table has capacities again, whatever
offsets were kept, and a column goes into a free slot of its own row, so that the row's
counter stays within the capacity.

Each operation is described by one `Result.Answers`, or, where it cannot fail, by an
equation.
-/

import MeshIncidence.Proofs.Table.Layout
import Mathlib.Data.List.Range

namespace MeshIncidence

theorem answers_word (n : Nat) : (word n).Answers (· = n) := by
  rw [word]
  split
  · exact rfl
  · exact .inl rfl

theorem answers_reserve (count bytes : Nat) : (reserve count bytes).Answers fun _ => True := by
  rw [reserve]
  split
  · trivial
  · exact .inr rfl

theorem answers_zeros (count : Nat) :
    (zeros count).Answers (· = Array.replicate count 0) :=
  (answers_reserve count wordBytes).bind fun _ _ => rfl

theorem zeros_eq_ok {count : Nat} (hroom : count * wordBytes ≤ byteBound) :
    zeros count = .ok (Array.replicate count 0) := by
  rw [zeros, reserve, if_pos hroom]
  rfl

/-- What can be stored can be counted. -/
theorem lt_wordBound_of_mul_le {count : Nat} (hroom : count * wordBytes ≤ byteBound) :
    count < wordBound := by
  have hbound : byteBound < wordBound * wordBytes := by decide
  exact Nat.lt_of_mul_lt_mul_right (Nat.lt_of_le_of_lt hroom hbound)

theorem word_eq_ok {n : Nat} (hlt : n < wordBound) : word n = .ok n := if_pos hlt

theorem zeros_runsOut {count : Nat} (hfull : ¬ count * wordBytes ≤ byteBound) :
    (zeros count).RunsOut := by
  rw [zeros, reserve, if_neg hfull]
  exact .inr rfl

theorem zeros_word_eq_ok {count : Nat} (hroom : count * wordBytes ≤ byteBound) :
    (word count >>= zeros) = .ok (Array.replicate count 0) := by
  rw [word_eq_ok (lt_wordBound_of_mul_le hroom), Result.ok_bind, zeros_eq_ok hroom]

theorem zeros_word_runsOut {count : Nat} (hfull : ¬ count * wordBytes ≤ byteBound) :
    (word count >>= zeros).RunsOut := by
  rw [word]
  split
  · exact zeros_runsOut hfull
  · exact .inl rfl

/-- Something is kept or made anew. -/
theorem ite_pure_eq_ok {α : Type} {same : Prop} [Decidable same] {kept value : α}
    {fresh : Result α} (hfresh : ¬ same → fresh = .ok value) :
    (if same then pure kept else fresh) = .ok (if same then kept else value) := by
  split
  · rfl
  · rename_i hother
    exact hfresh hother

namespace IncidenceTable

variable {table : IncidenceTable} {capacities : List Nat}

/-- Cutting offsets down keeps them in order. -/
theorem isChain_clampedOffset {offsets : Array Nat} {rows : Nat} (slots : Nat)
    (hordered : ∀ row, row + 1 < rows → offsets.getD row 0 ≤ offsets.getD (row + 1) 0) :
    ((List.range (rows + 1)).map (clampedOffset offsets rows slots)).IsChain (· ≤ ·) := by
  rw [List.isChain_map, List.isChain_range_succ]
  intro row hrow
  have hinside := hordered row
  simp only [Nat.succ_eq_add_one, clampedOffset, Nat.add_one_ne_zero, if_false]
  split_ifs <;> omega

/-- Numbers in order that begin with zero are the offsets of sizes that add up to the last of
them. -/
theorem exists_sizes_of_isChain {offsets : List Nat} {slots : Nat}
    (hordered : offsets.IsChain (· ≤ ·)) (hfirst : offsets.head? = some 0)
    (hlast : offsets.getLast? = some slots) :
    ∃ sizes, offsets = offsetsFrom 0 sizes ∧ sizes.sum = slots := by
  obtain ⟨rest, rfl⟩ := List.head?_eq_some_iff.mp hfirst
  obtain ⟨sizes, hsizes⟩ := exists_offsetsFrom_eq hordered
  refine ⟨sizes, hsizes.symm, ?_⟩
  have hend := getLast_offsetsFrom 0 sizes
  rw [← hsizes, List.getLast?_eq_getLast_of_ne_nil (offsetsFrom_ne_nil 0 sizes), hend] at hlast
  simpa using hlast

/-- Offsets cut down lay out a table, unless slots are wanted without rows. -/
theorem exists_capacities_clamped {offsets : Array Nat} {rows slots : Nat}
    (hrows : 0 < rows ∨ slots = 0)
    (hordered : ∀ row, row + 1 < rows → offsets.getD row 0 ≤ offsets.getD (row + 1) 0) :
    ∃ capacities,
      (List.range (rows + 1)).map (clampedOffset offsets rows slots) = offsetsFrom 0 capacities ∧
        capacities.sum = slots := by
  refine exists_sizes_of_isChain (isChain_clampedOffset slots hordered) ?_ ?_
  · have hzero : clampedOffset offsets rows slots 0 = 0 := by
      unfold clampedOffset
      split_ifs <;> omega
    simp [List.range_succ_eq_map, hzero]
  · simp [List.range_succ, clampedOffset]

/-- Sizing first sees to the offsets and then to the columns. -/
theorem resize_eq (table : IncidenceTable) (rows slots : Nat) : table.resize rows slots =
    (if table.rowCount = rows then pure table.offsets else word (rows + 1) >>= zeros) >>=
      fun offsets => (if table.columns.size = slots then pure table.columns else zeros slots) >>=
        fun columns => pure {
          offsets := ((List.range (rows + 1)).map (clampedOffset offsets rows slots)).toArray
          columns := columns
          fill := none } := by
  unfold resize
  split_ifs <;> simp only [bind_assoc, addWords]

/-- There is room for the arrays of a table, or they have the right size already. -/
def CanResize (table : IncidenceTable) (rows slots : Nat) : Prop :=
  (table.rowCount = rows ∨ (rows + 1) * wordBytes ≤ byteBound) ∧
    (table.columns.size = slots ∨ slots * wordBytes ≤ byteBound)

/-- Where there is room, the arrays of the right size are used again and the others are zero. -/
theorem resize_eq_ok {rows slots : Nat} (hroom : table.CanResize rows slots) :
    table.resize rows slots = .ok {
      offsets := ((List.range (rows + 1)).map (clampedOffset
        (if table.rowCount = rows then table.offsets else Array.replicate (rows + 1) 0)
        rows slots)).toArray
      columns := if table.columns.size = slots then table.columns else Array.replicate slots 0
      fill := none } := by
  rw [resize_eq, ite_pure_eq_ok fun hother => zeros_word_eq_ok (hroom.1.resolve_left hother),
    Result.ok_bind, ite_pure_eq_ok fun hother => zeros_eq_ok (hroom.2.resolve_left hother)]
  rfl

theorem resize_runsOut {rows slots : Nat} (hfull : ¬ table.CanResize rows slots) :
    (table.resize rows slots).RunsOut := by
  rw [resize_eq]
  by_cases hrows : table.rowCount = rows ∨ (rows + 1) * wordBytes ≤ byteBound
  · obtain ⟨hother, hslots⟩ := not_or.mp fun hslots => hfull ⟨hrows, hslots⟩
    rw [ite_pure_eq_ok fun hnew => zeros_word_eq_ok (hrows.resolve_left hnew), Result.ok_bind,
      if_neg hother]
    exact (zeros_runsOut hslots).bind _
  · obtain ⟨hother, hrows⟩ := not_or.mp hrows
    rw [if_neg hother]
    exact (zeros_word_runsOut hrows).bind _

/-- The arrays of a table that has been given a size. The last row ends at the last slot; where the
others start is left open. -/
structure HasSizes (rows slots : Nat) (table : IncidenceTable) : Prop where
  size_offsets : table.offsets.size = rows + 1
  back?_offsets : table.offsets.back? = some slots
  size_columns : table.columns.size = slots
  isPacked : table.fill = none

/-- Whatever the table was, resizing gives it the sizes. -/
theorem resize_answers (table : IncidenceTable) (rows slots : Nat) :
    (table.resize rows slots).Answers (HasSizes rows slots) := by
  by_cases hroom : table.CanResize rows slots
  · refine Result.answers_of_eq_ok (resize_eq_ok hroom) ⟨by simp, ?_, ?_, rfl⟩
    · rw [List.back?_toArray]
      simp [List.range_succ, clampedOffset]
    · dsimp only
      split
      · assumption
      · exact Array.size_replicate
  · exact (resize_runsOut hroom).answers _

/-- What is done with a resized table depends on the sizes alone if it does so for all tables of
these sizes. -/
theorem resize_bind_eq {α : Type} {rows slots : Nat} {next : IncidenceTable → Result α}
    {outcome : Result α} (hnext : ∀ resized, HasSizes rows slots resized → next resized = outcome) :
    table.resize rows slots >>= next = table.resize rows slots >>= fun _ => outcome := by
  cases hresized : table.resize rows slots with
  | error failure => rfl
  | ok resized => exact hnext resized ((resize_answers _ _ _).of_eq_ok hresized)

/-- What is known of a table without defect that has been given a size. -/
structure IsSized (rows slots : Nat) (table : IncidenceTable) : Prop
    extends HasSizes rows slots table where
  exists_capacities : ∃ capacities, table.HasCapacities capacities

namespace HasCapacities

theorem getD_offsets_le_succ (htable : table.HasCapacities capacities) {row : Nat}
    (hrow : row < capacities.length) :
    table.offsets.getD row 0 ≤ table.offsets.getD (row + 1) 0 := by
  have hstart := entryAt_eq_ok_iff.mp (htable.entryAt_offsets (Nat.le_of_lt hrow))
  have hfinish := entryAt_eq_ok_iff.mp
    (htable.entryAt_offsets_succ (List.getElem?_eq_getElem hrow))
  rw [Array.getD_eq_getD_getElem?, Array.getD_eq_getD_getElem?, hstart, hfinish]
  exact Nat.le_add_right _ _

/-- Whichever arrays are used again, a sized table has capacities. -/
theorem answers_resize (htable : table.HasCapacities capacities) {rows slots : Nat}
    (hrows : 0 < rows ∨ slots = 0) : (table.resize rows slots).Answers (IsSized rows slots) := by
  by_cases hroom : table.CanResize rows slots
  · have hordered : ∀ row, row + 1 < rows →
        (if table.rowCount = rows then table.offsets else Array.replicate (rows + 1) 0).getD row 0 ≤
          (if table.rowCount = rows then table.offsets
            else Array.replicate (rows + 1) 0).getD (row + 1) 0 := by
      intro row hrow
      split
      · rename_i hsame
        rw [htable.rowCount_eq] at hsame
        exact htable.getD_offsets_le_succ (by omega)
      · simp only [Array.getD_eq_getD_getElem?, Array.getElem?_replicate]
        split_ifs <;> simp
    have hresized := resize_eq_ok hroom
    have hsizes := (resize_answers table rows slots).of_eq_ok hresized
    obtain ⟨sizes, hclamped, hsum⟩ := exists_capacities_clamped hrows hordered
    exact Result.answers_of_eq_ok hresized
      ⟨hsizes, sizes, hclamped, hsizes.size_columns.trans hsum.symm, by simp⟩
  · exact (resize_runsOut hroom).answers _

end HasCapacities

/-- Equal capacities are laid out by multiples. -/
theorem offsetsFrom_replicate (start rows capacity : Nat) :
    offsetsFrom start (List.replicate rows capacity) =
      (List.range (rows + 1)).map fun row => start + row * capacity := by
  induction rows generalizing start with
  | zero => simp [offsetsFrom]
  | succ rows ih =>
      rw [List.replicate_succ, offsetsFrom, ih, List.range_succ_eq_map (n := rows + 1)]
      simp [Function.comp_def, Nat.succ_mul, Nat.add_assoc, Nat.add_comm capacity]

theorem insert_of_le {row : Nat} (hrow : table.rowCount ≤ row) (column : Nat) :
    table.insert row column = refuse (.rowOutOfRange row table.rowCount) := if_pos hrow

/-- The table with one more column in a slot, the slots in use of its row counted anew. -/
def withEntry (table : IncidenceTable) (used : Array Nat) (row slot size column : Nat) :
    IncidenceTable :=
  { table with
    columns := table.columns.setIfInBounds slot column
    fill := some (used.setIfInBounds row size) }

namespace HasCapacities

/-- Rows with an equal number of free slots each, whatever the slots hold. -/
theorem of_reserved {rows capacity : Nat} {columns : Array Nat}
    (hcolumns : columns.size = rows * capacity) :
    HasCapacities ⟨((List.range (rows + 1)).map (· * capacity)).toArray, columns,
      some (Array.replicate rows 0)⟩ (List.replicate rows capacity) := by
  refine ⟨?_, ?_, ?_⟩
  · rw [offsetsFrom_replicate]
    simp
  · rw [List.sum_replicate_nat, hcolumns]
  · intro used hused
    obtain rfl := Option.some.inj hused
    rw [Array.toList_replicate, List.forall₂_iff_get]
    simp

/-- A row with free slots for each number of columns up to the capacity. -/
theorem answers_reserveRows (htable : table.HasCapacities capacities) (rows capacity : Nat) :
    (table.reserveRows rows capacity).Answers
      (·.HasCapacities (List.replicate rows capacity)) := by
  refine (answers_word (rows * capacity)).bind ?_
  rintro _ rfl
  have hrows : 0 < rows ∨ rows * capacity = 0 := by
    cases rows with
    | zero => exact .inr (Nat.zero_mul capacity)
    | succ rows => exact .inl (Nat.succ_pos rows)
  refine (htable.answers_resize hrows).bind fun resized hsized => (answers_zeros rows).bind ?_
  rintro _ rfl
  exact of_reserved hsized.size_columns

/-- A counter may be set to anything within its own capacity. -/
theorem forall₂_le_set {used : List Nat} (hwithin : List.Forall₂ (· ≤ ·) used capacities)
    {row capacity count : Nat} (hcapacity : capacities[row]? = some capacity)
    (hcount : count ≤ capacity) : List.Forall₂ (· ≤ ·) (used.set row count) capacities := by
  induction hwithin generalizing row with
  | nil => simp at hcapacity
  | cons hle hrest ih =>
      cases row with
      | zero =>
          obtain rfl := Option.some.inj hcapacity
          exact .cons hcount hrest
      | succ row => exact .cons hle (ih hcapacity)

/-- A used slot can be overwritten. -/
theorem exists_replaceEntry (htable : table.HasCapacities capacities) {row position : Nat}
    {entries : List Nat} (hrow : table.row row = .ok entries)
    (hposition : position < entries.length) (column : Nat) :
    ∃ after, table.replaceEntry row position column = .ok after ∧
      after.HasCapacities capacities := by
  obtain ⟨start, hstart, -⟩ := Result.bind_eq_ok_iff.mp hrow
  refine ⟨{ table with columns := table.columns.setIfInBounds (start + position) column }, ?_,
    htable.offsets_eq, ?_, htable.fill_le⟩
  · rw [replaceEntry, hstart, Result.ok_bind, hrow, Result.ok_bind, if_pos hposition,
      Result.pure_eq_ok]
  · rw [Array.size_setIfInBounds, htable.size_columns]

/-- A column that the row has is found where it is. -/
theorem insert_of_found (htable : table.HasCapacities capacities) {row column position : Nat}
    {entries : List Nat} (hrow : row < capacities.length) (hentries : table.row row = .ok entries)
    (hfound : entries.idxOf? column = some position) :
    table.insert row column = .ok ((capacities.take row).sum + position, table) := by
  rw [insert, if_neg (by rw [htable.rowCount_eq]; omega),
    htable.entryAt_offsets (Nat.le_of_lt hrow), Result.ok_bind,
    htable.entryAt_offsets_succ (List.getElem?_eq_getElem hrow), Result.ok_bind, hentries,
    Result.ok_bind, hfound]
  rfl

/-- A row without a free slot takes no new column. -/
theorem insert_of_full (htable : table.HasCapacities capacities) {row column : Nat}
    {entries : List Nat} (hrow : row < capacities.length) (hentries : table.row row = .ok entries)
    (hmissing : column ∉ entries) (hfull : table.fill = none ∨ entries.length = capacities[row]) :
    table.insert row column = refuse (.rowFull row column) := by
  rw [insert, if_neg (by rw [htable.rowCount_eq]; omega),
    htable.entryAt_offsets (Nat.le_of_lt hrow), Result.ok_bind,
    htable.entryAt_offsets_succ (List.getElem?_eq_getElem hrow), Result.ok_bind, hentries,
    Result.ok_bind, List.idxOf?_eq_none_iff.mpr hmissing]
  cases hfill : table.fill with
  | none => rfl
  | some used =>
      have hlength := hfull.resolve_left (by simp [hfill])
      exact if_neg (by omega)

/-- A new column takes the first free slot of its row. -/
theorem insert_of_free (htable : table.HasCapacities capacities) {row column : Nat}
    {entries : List Nat} {used : Array Nat} (hrow : row < capacities.length)
    (hentries : table.row row = .ok entries) (hmissing : column ∉ entries)
    (hfill : table.fill = some used) (hfree : entries.length < capacities[row]) :
    table.insert row column = .ok ((capacities.take row).sum + entries.length,
      table.withEntry used row ((capacities.take row).sum + entries.length) (entries.length + 1)
        column) := by
  have hroom := htable.add_le_size_columns (List.getElem?_eq_getElem hrow)
  rw [insert, if_neg (by rw [htable.rowCount_eq]; omega),
    htable.entryAt_offsets (Nat.le_of_lt hrow), Result.ok_bind,
    htable.entryAt_offsets_succ (List.getElem?_eq_getElem hrow), Result.ok_bind, hentries,
    Result.ok_bind, List.idxOf?_eq_none_iff.mpr hmissing, hfill]
  dsimp only
  rw [if_pos (by omega), replaceAt, if_pos (by omega), Result.ok_bind]
  rfl

/-- The other counters do not change. -/
theorem hasCapacities_withEntry (htable : table.HasCapacities capacities) {used : Array Nat}
    {row size : Nat} (hrow : row < capacities.length) (hfill : table.fill = some used)
    (hsize : size ≤ capacities[row]) (slot column : Nat) :
    (table.withEntry used row slot size column).HasCapacities capacities := by
  refine ⟨htable.offsets_eq, ?_, ?_⟩
  · rw [withEntry, Array.size_setIfInBounds, htable.size_columns]
  · intro counters hcounters
    obtain rfl := Option.some.inj hcounters
    rw [Array.toList_setIfInBounds]
    exact forall₂_le_set (htable.fill_le used hfill) (List.getElem?_eq_getElem hrow) hsize

/-- An insertion answers a slot of its row and keeps the capacities, or finds the row full. -/
theorem insert_cases (htable : table.HasCapacities capacities) {row : Nat}
    (hrow : row < capacities.length) (column : Nat) :
    (∃ slot after, table.insert row column = .ok (slot, after) ∧
      (capacities.take row).sum ≤ slot ∧ slot < (capacities.take row).sum + capacities[row] ∧
      after.HasCapacities capacities) ∨ table.insert row column = refuse (.rowFull row column) := by
  obtain ⟨entries, hentries, -, hle⟩ := htable.exists_row (List.getElem?_eq_getElem hrow)
  by_cases hmember : column ∈ entries
  · obtain ⟨position, hfound⟩ := Option.isSome_iff_exists.mp (List.isSome_idxOf?.mpr hmember)
    have hposition := (List.idxOf?_eq_some_iff.mp hfound).1
    exact .inl ⟨_, _, htable.insert_of_found hrow hentries hfound, Nat.le_add_right _ _, by omega,
      htable⟩
  · cases hfill : table.fill with
    | none => exact .inr (htable.insert_of_full hrow hentries hmember (.inl hfill))
    | some used =>
        obtain hlength | hfree := Nat.eq_or_lt_of_le hle
        · exact .inr (htable.insert_of_full hrow hentries hmember (.inr hlength))
        · exact .inl ⟨_, _, htable.insert_of_free hrow hentries hmember hfill hfree,
            Nat.le_add_right _ _, by omega, htable.hasCapacities_withEntry hrow hfill hfree _ _⟩

/-- Whatever is inserted, the capacities stay. -/
theorem answers_insert (htable : table.HasCapacities capacities) (row column : Nat) :
    (table.insert row column).Answers fun result => result.2.HasCapacities capacities := by
  by_cases hrow : row < capacities.length
  · obtain ⟨slot, after, hinsert, -, -, hafter⟩ | hfull := htable.insert_cases hrow column
    · exact Result.answers_of_eq_ok hinsert hafter
    · rw [hfull]
      exact Result.answers_refuse _ _
  · rw [insert_of_le (by rw [htable.rowCount_eq]; omega)]
    exact Result.answers_refuse _ _

end HasCapacities

end IncidenceTable

end MeshIncidence
