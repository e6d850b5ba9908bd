/-
# The check of a table

Arrays that were put together elsewhere are a table if the offsets begin with zero, never
decrease and end at the number of columns, and if there is a fill counter for each row, within
its capacity, where there are counters at all. `IsLayout` says this of the arrays alone.

The check asks for these one after the other, and what it looks up in a later step is there, and
can be subtracted, because of the earlier ones. `IncidenceTable.inspect` is the check with every
access made as such, and it is shown to give the verdict of `IncidenceTable.defect?`: so the check
looks for nothing in vain, on whatever arrays.

Accepted tables have capacities, so that every operation on a row finds what it looks for, and
the row keeps to its own slots.
-/

import MeshIncidence.Proofs.Table.Runs

namespace MeshIncidence

/-- The arrays lay out a table. -/
structure IsLayout (offsets columns : List Nat) (fill : Option (List Nat)) : Prop where
  head?_eq : offsets.head? = some 0
  isChain : offsets.IsChain (· ≤ ·)
  getLast?_eq : offsets.getLast? = some columns.length
  length_fill : ∀ used, fill = some used → used.length + 1 = offsets.length
  fill_le : ∀ used, fill = some used → ∀ row start finish count, offsets[row]? = some start →
    offsets[row + 1]? = some finish → used[row]? = some count → count ≤ finish - start

/-- The difference of two words, if it is not negative. -/
def subtractWords (m n : Nat) : Result Nat :=
  if n ≤ m then .ok (m - n) else stop .overflow

namespace IncidenceTable

/-- Check fill counters, from that of `row` on, against the offsets on both sides of the rows. -/
def inspectCounters (offsets : Array Nat) : Nat → List Nat → Result Unit
  | _, [] => .ok ()
  | row, count :: counters => do
    let finish ← entryAt offsets (row + 1)
    let start ← entryAt offsets row
    let capacity ← subtractWords finish start
    if capacity < count then refuse (.invariant (.overfilled row count))
    else inspectCounters offsets (row + 1) counters

/-- Check the offsets. The last one is looked up once they are known not to be empty. -/
def inspectOffsets (table : IncidenceTable) : Result Unit :=
  match table.offsets.toList.head? with
  | none => refuse (.layout .noOffsets)
  | some first =>
    if first ≠ 0 then refuse (.layout (.firstOffset first))
    else match firstDescent? 0 table.offsets.toList with
      | some row => refuse (.layout (.descent row))
      | none => do
        let finish ← entryAt table.offsets (← subtractWords table.offsets.size 1)
        if finish ≠ table.columns.size then
          refuse (.layout (.endMismatch finish table.columns.size))
        else return ()

/-- Check the fill counters. -/
def inspectFill (table : IncidenceTable) : Result Unit :=
  match table.fill with
  | none => .ok ()
  | some used => do
    let rows ← subtractWords table.offsets.size 1
    if used.size ≠ rows then refuse (.invariant (.fillCount used.size rows))
    else inspectCounters table.offsets 0 used.toList

/-- The check of a table, access by access. -/
def inspect (table : IncidenceTable) : Result Unit := do
  table.inspectOffsets
  table.inspectFill

/-- Where there are counters for all rows, the offsets on both sides of each row are there. -/
theorem inspectCounters_eq (before : List Nat) {start : Nat} {capacities counters : List Nat}
    {offsets : Array Nat} (hlength : counters.length = capacities.length)
    (hoffsets : offsets.toList = before ++ offsetsFrom start capacities) :
    inspectCounters offsets before.length counters =
      accept ((firstOverfull? before.length (offsetsFrom start capacities) counters).map
        fun (row, count) => .invariant (.overfilled row count)) := by
  induction capacities generalizing before start counters with
  | nil =>
      obtain rfl : counters = [] := List.eq_nil_of_length_eq_zero hlength
      rfl
  | cons capacity capacities ih =>
      cases counters with
      | nil => simp at hlength
      | cons count counters =>
          obtain ⟨rest, hrest⟩ := offsetsFrom_eq_cons (start + capacity) capacities
          have hstart : entryAt offsets before.length = .ok start := by
            rw [entryAt_eq_ok_iff, ← Array.getElem?_toList, hoffsets]
            simp [offsetsFrom]
          have hfinish : entryAt offsets (before.length + 1) = .ok (start + capacity) := by
            rw [entryAt_eq_ok_iff, ← Array.getElem?_toList, hoffsets, offsetsFrom, hrest]
            simp
          have hlater := ih (before ++ [start]) (Nat.succ.inj hlength)
            (by simpa [offsetsFrom] using hoffsets)
          rw [List.length_append, List.length_singleton, hrest] at hlater
          rw [inspectCounters, hfinish, Result.ok_bind, hstart, Result.ok_bind, subtractWords,
            if_pos (Nat.le_add_right _ _), Result.ok_bind, offsetsFrom, hrest, firstOverfull?,
            hlater]
          split <;> rfl

section Inspect

variable {table : IncidenceTable} {capacities : List Nat}

theorem subtractWords_size_offsets (hoffsets : table.offsets.toList = offsetsFrom 0 capacities) :
    subtractWords table.offsets.size 1 = .ok table.rowCount := by
  rw [← Array.length_toList, hoffsets, length_offsetsFrom, rowCount_of_offsets_eq hoffsets,
    subtractWords, if_pos (Nat.le_add_left _ _), Nat.add_sub_cancel]

theorem entryAt_rowCount (hoffsets : table.offsets.toList = offsetsFrom 0 capacities) :
    entryAt table.offsets table.rowCount = .ok table.slotCount := by
  rw [entryAt_eq_ok_iff, ← Array.getElem?_toList, hoffsets, rowCount_of_offsets_eq hoffsets,
    getElem?_offsetsFrom 0 (Nat.le_refl _), List.take_length, Nat.zero_add,
    slotCount_of_offsets_eq hoffsets]

theorem inspectOffsets_eq (table : IncidenceTable) :
    table.inspectOffsets = accept (table.layoutDefect?.map .layout) := by
  rw [inspectOffsets, layoutDefect?]
  cases hlist : table.offsets.toList with
  | nil => rfl
  | cons first rest =>
      rw [List.head?_cons]
      dsimp only
      by_cases hfirst : first = 0
      · subst hfirst
        rw [if_neg (not_not.mpr rfl), if_neg (not_not.mpr rfl)]
        cases hdescent : firstDescent? 0 (0 :: rest) with
        | some row => rfl
        | none =>
            obtain ⟨capacities, heq⟩ :=
              exists_offsetsFrom_eq (firstDescent?_eq_none_iff.mp hdescent)
            have hoffsets := hlist.trans heq.symm
            dsimp only
            rw [subtractWords_size_offsets hoffsets, Result.ok_bind, entryAt_rowCount hoffsets,
              Result.ok_bind]
            split <;> rfl
      · rw [if_pos hfirst, if_pos hfirst]
        rfl

theorem inspectFill_eq (hoffsets : table.offsets.toList = offsetsFrom 0 capacities) :
    table.inspectFill = accept (table.fillDefect?.map .invariant) := by
  rw [inspectFill, fillDefect?]
  cases table.fill with
  | none => rfl
  | some used =>
      dsimp only
      rw [subtractWords_size_offsets hoffsets, Result.ok_bind]
      split
      · rfl
      · rename_i hcounters
        have hlength : used.toList.length = capacities.length := by
          rw [Array.length_toList, not_not.mp hcounters, rowCount_of_offsets_eq hoffsets]
        have hverdict := inspectCounters_eq [] hlength hoffsets
        rw [List.length_nil] at hverdict
        rw [hverdict, hoffsets, Option.map_map]
        rfl

/-- The check gives its verdict, and looks for nothing in vain. -/
theorem inspect_eq (table : IncidenceTable) : table.inspect = accept table.defect? := by
  rw [inspect, inspectOffsets_eq, defect?]
  cases hlayout : table.layoutDefect? with
  | some defect => rfl
  | none =>
      obtain ⟨capacities, hoffsets, -⟩ := layoutDefect?_eq_none_iff.mp hlayout
      exact inspectFill_eq hoffsets

-- The counters are looked at only if the offsets are sound.
example : inspect ⟨#[0, 2, 1], #[7], some #[9, 9, 9]⟩ = refuse (.layout (.descent 1)) := rfl

end Inspect

/-- The table of three lists. -/
def ofLists (offsets columns : List Nat) (fill : Option (List Nat)) : IncidenceTable :=
  ⟨offsets.toArray, columns.toArray, fill.map List.toArray⟩

section OfLists

variable {offsets columns : List Nat} {fill : Option (List Nat)}

theorem HasCapacities.isLayout {capacities : List Nat}
    (htable : (ofLists offsets columns fill).HasCapacities capacities) :
    IsLayout offsets columns fill := by
  obtain rfl : offsets = offsetsFrom 0 capacities := htable.offsets_eq
  have hcolumns : columns.length = capacities.sum := htable.size_columns
  have hfill (used : List Nat) (hused : fill = some used) :
      List.Forall₂ (· ≤ ·) used capacities :=
    htable.fill_le used.toArray (by rw [ofLists, hused]; rfl)
  refine ⟨?_, firstDescent?_eq_none_iff.mp (firstDescent?_offsetsFrom 0 0 capacities), ?_,
    fun used hused => ?_, fun used hused row start finish count hstart hfinish hcount => ?_⟩
  · obtain ⟨rest, hrest⟩ := offsetsFrom_eq_cons 0 capacities
    rw [hrest, List.head?_cons]
  · rw [List.getLast?_eq_getLast_of_ne_nil (offsetsFrom_ne_nil 0 capacities), getLast_offsetsFrom,
      Nat.zero_add, hcolumns]
  · rw [length_offsetsFrom, (hfill used hused).length_eq]
  · obtain ⟨hlt, rfl⟩ := List.getElem?_eq_some_iff.mp hcount
    have hrow : row < capacities.length := (hfill used hused).length_eq ▸ hlt
    have hle : used[row] ≤ capacities[row] := (hfill used hused).get hlt hrow
    rw [getElem?_offsetsFrom 0 (Nat.le_of_lt hrow)] at hstart
    rw [getElem?_offsetsFrom 0 hrow, List.sum_take_succ capacities row hrow] at hfinish
    obtain rfl := Option.some.inj hstart
    obtain rfl := Option.some.inj hfinish
    omega

theorem exists_capacities_of_isLayout (hlayout : IsLayout offsets columns fill) :
    ∃ capacities, (ofLists offsets columns fill).HasCapacities capacities := by
  obtain ⟨capacities, rfl, hsum⟩ :=
    exists_sizes_of_isChain hlayout.isChain hlayout.head?_eq hlayout.getLast?_eq
  refine ⟨capacities, rfl, hsum.symm, fun counters hcounters => ?_⟩
  obtain ⟨used, hused, rfl⟩ := Option.map_eq_some_iff.mp hcounters
  have hlength := hlayout.length_fill used hused
  rw [length_offsetsFrom] at hlength
  refine List.forall₂_iff_get.mpr ⟨by simpa using hlength, fun row hcounter hcapacity => ?_⟩
  have hrow : row < used.length := hcounter
  have hle := hlayout.fill_le used hused row _ _ _
    (getElem?_offsetsFrom 0 (Nat.le_of_lt hcapacity)) (getElem?_offsetsFrom 0 hcapacity)
    (List.getElem?_eq_getElem hrow)
  rw [List.sum_take_succ capacities row hcapacity] at hle
  show used[row] ≤ capacities[row]
  omega

/-- The arrays are accepted exactly if they lay out a table. -/
theorem defect?_ofLists_eq_none_iff :
    (ofLists offsets columns fill).defect? = none ↔ IsLayout offsets columns fill := by
  rw [defect?_eq_none_iff]
  exact ⟨fun ⟨_, htable⟩ => htable.isLayout, exists_capacities_of_isLayout⟩

end OfLists

/-- The slots of a row lie between its offset and the next one. -/
def HasSlot (table : IncidenceTable) (row slot : Nat) : Prop :=
  ∃ start finish, table.offsets[row]? = some start ∧ table.offsets[row + 1]? = some finish ∧
    start ≤ slot ∧ slot < finish

/-- Whatever is asked of a row or of all rows finds what it looks for, in the row's own slots, and
what is changed stays so. -/
structure KeepsToRows (table : IncidenceTable) : Prop where
  slot_lt : ∀ row slot, table.HasSlot row slot → slot < table.columns.size
  /-- No slot belongs to two rows. -/
  row_eq_of_hasSlot : ∀ row other slot, table.HasSlot row slot → table.HasSlot other slot →
    row = other
  exists_row : ∀ row < table.rowCount, ∃ entries, table.row row = .ok entries ∧
    table.rowSize row = .ok entries.length
  /-- The columns of a row lie in its slots, from its offset on. -/
  exists_start : ∀ row < table.rowCount, ∀ entries, table.row row = .ok entries →
    ∃ start : Nat, table.offsets[row]? = some start ∧
      ∀ position column : Nat, entries[position]? = some column →
        table.HasSlot row (start + position) ∧ table.columns[start + position]? = some column
  exists_replaceEntry : ∀ row entries, table.row row = .ok entries →
    ∀ position < entries.length, ∀ column, ∃ after,
      table.replaceEntry row position column = .ok after ∧ after.defect? = none
  exists_find? : ∀ row < table.rowCount, ∀ column, ∃ found,
    table.find? row column = .ok found ∧ ∀ slot ∈ found, table.HasSlot row slot
  insert_cases : ∀ row < table.rowCount, ∀ column,
    (∃ slot after, table.insert row column = .ok (slot, after) ∧ table.HasSlot row slot ∧
      after.defect? = none) ∨ table.insert row column = refuse (.rowFull row column)
  exists_rows : ∃ rows, table.rows = .ok rows ∧ rows.length = table.rowCount ∧
    (table.fill = none → rows.flatten = table.columns.toList)
  exists_saved : ∃ text, table.saved = .ok text
  exists_pack : ∃ packed, table.pack = .ok packed ∧ packed.defect? = none

namespace HasCapacities

variable {table : IncidenceTable} {capacities : List Nat}

theorem hasSlot_iff (htable : table.HasCapacities capacities) {row slot : Nat} :
    table.HasSlot row slot ↔ ∃ capacity, capacities[row]? = some capacity ∧
      (capacities.take row).sum ≤ slot ∧ slot < (capacities.take row).sum + capacity := by
  constructor
  · rintro ⟨start, finish, hstart, hfinish, hle, hlt⟩
    have hrow : row < capacities.length := by
      have hbound := (Array.getElem?_eq_some_iff.mp hfinish).1
      rw [htable.size_offsets] at hbound
      omega
    have hcapacity := List.getElem?_eq_getElem hrow
    rw [← entryAt_eq_ok_iff, htable.entryAt_offsets (Nat.le_of_lt hrow)] at hstart
    rw [← entryAt_eq_ok_iff, htable.entryAt_offsets_succ hcapacity] at hfinish
    obtain rfl := Except.ok.inj hstart
    obtain rfl := Except.ok.inj hfinish
    exact ⟨_, hcapacity, hle, hlt⟩
  · rintro ⟨capacity, hcapacity, hle, hlt⟩
    have hrow := (List.getElem?_eq_some_iff.mp hcapacity).1
    exact ⟨_, _, entryAt_eq_ok_iff.mp (htable.entryAt_offsets (Nat.le_of_lt hrow)),
      entryAt_eq_ok_iff.mp (htable.entryAt_offsets_succ hcapacity), hle, hlt⟩

theorem row_eq_of_hasSlot (htable : table.HasCapacities capacities) {row other slot : Nat}
    (hslot : table.HasSlot row slot) (hsame : table.HasSlot other slot) : row = other := by
  obtain ⟨capacity, hcapacity, hle, hlt⟩ := htable.hasSlot_iff.mp hslot
  obtain ⟨others, hothers, hfrom, hto⟩ := htable.hasSlot_iff.mp hsame
  obtain hbefore | rfl | hafter := Nat.lt_trichotomy row other
  · have hend := sum_take_add_le hcapacity hbefore
    omega
  · rfl
  · have hend := sum_take_add_le hothers hafter
    omega

/-- The positions of a row are slots of it. -/
theorem hasSlot_add (htable : table.HasCapacities capacities) {row position : Nat}
    {entries : List Nat} (hrow : row < capacities.length) (hentries : table.row row = .ok entries)
    (hposition : position < entries.length) :
    table.HasSlot row ((capacities.take row).sum + position) := by
  have hcapacity := List.getElem?_eq_getElem hrow
  obtain ⟨others, hothers, -, hle⟩ := htable.exists_row hcapacity
  obtain rfl := Except.ok.inj (hothers.symm.trans hentries)
  exact htable.hasSlot_iff.mpr ⟨_, hcapacity, Nat.le_add_right _ _, by omega⟩

theorem getElem?_columns (htable : table.HasCapacities capacities) {row position column : Nat}
    {entries : List Nat} (hrow : row < capacities.length) (hentries : table.row row = .ok entries)
    (hcolumn : entries[position]? = some column) :
    table.columns[(capacities.take row).sum + position]? = some column := by
  have hsize := htable.getElem?_usedSizes hrow hentries
  have hposition := (List.getElem?_eq_some_iff.mp hcolumn).1
  have hstored := Except.ok.inj ((htable.row_eq hsize).symm.trans hentries)
  rw [← hstored, List.getElem?_take_of_lt hposition, List.getElem?_drop] at hcolumn
  rwa [← Array.getElem?_toList]

/-- Without free slots the rows make up the columns. -/
theorem flatten_rows (htable : table.HasCapacities capacities) (hpacked : table.fill = none)
    {rows : List (List Nat)} (hrows : table.rows = .ok rows) :
    rows.flatten = table.columns.toList := by
  have hcolumns : table.columns.toList.length = capacities.sum := htable.size_columns
  obtain rfl := Except.ok.inj (htable.rows_eq.symm.trans hrows)
  rw [usedSizes, hpacked]
  dsimp only
  rw [flatten_slices_self, List.drop_zero, ← hcolumns, List.take_length]

theorem slot_lt (htable : table.HasCapacities capacities) {row slot : Nat}
    (hslot : table.HasSlot row slot) : slot < table.columns.size := by
  obtain ⟨capacity, hcapacity, -, hlt⟩ := htable.hasSlot_iff.mp hslot
  exact Nat.lt_of_lt_of_le hlt (htable.add_le_size_columns hcapacity)

theorem defect?_eq_none (htable : table.HasCapacities capacities) : table.defect? = none :=
  defect?_eq_none_iff.mpr ⟨capacities, htable⟩

theorem lt_length_of_lt_rowCount (htable : table.HasCapacities capacities) {row : Nat}
    (hrow : row < table.rowCount) : row < capacities.length := by
  rwa [htable.rowCount_eq] at hrow

theorem keepsToRows (htable : table.HasCapacities capacities) : table.KeepsToRows where
  slot_lt _ _ := htable.slot_lt
  row_eq_of_hasSlot _ _ _ := htable.row_eq_of_hasSlot
  exists_row row hrow := by
    obtain ⟨entries, hentries, hsize, -⟩ :=
      htable.exists_row (List.getElem?_eq_getElem (htable.lt_length_of_lt_rowCount hrow))
    exact ⟨entries, hentries, hsize⟩
  exists_start row hrow entries hentries := by
    have hbound := htable.lt_length_of_lt_rowCount hrow
    have hstart := htable.entryAt_offsets (Nat.le_of_lt hbound)
    refine ⟨_, entryAt_eq_ok_iff.mp hstart, fun position column hcolumn => ⟨?_, ?_⟩⟩
    · exact htable.hasSlot_add hbound hentries (List.getElem?_eq_some_iff.mp hcolumn).1
    · exact htable.getElem?_columns hbound hentries hcolumn
  exists_replaceEntry row entries hentries position hposition column := by
    obtain ⟨after, hreplaced, hafter⟩ := htable.exists_replaceEntry hentries hposition column
    exact ⟨after, hreplaced, hafter.defect?_eq_none⟩
  exists_find? row hrow column := by
    have hbound := htable.lt_length_of_lt_rowCount hrow
    obtain ⟨entries, hentries, -⟩ := htable.exists_row (List.getElem?_eq_getElem hbound)
    refine ⟨_, htable.find?_eq hbound hentries column, fun slot hslot => ?_⟩
    obtain ⟨position, hfound, rfl⟩ := Option.map_eq_some_iff.mp hslot
    exact htable.hasSlot_add hbound hentries (List.idxOf?_eq_some_iff.mp hfound).1
  insert_cases row hrow column := by
    have hbound := htable.lt_length_of_lt_rowCount hrow
    obtain ⟨slot, after, hinsert, hle, hlt, hafter⟩ | hfull := htable.insert_cases hbound column
    · have hslot := htable.hasSlot_iff.mpr ⟨_, List.getElem?_eq_getElem hbound, hle, hlt⟩
      exact .inl ⟨slot, after, hinsert, hslot, hafter.defect?_eq_none⟩
    · exact .inr hfull
  exists_rows := by
    obtain ⟨rows, hrows, hlength⟩ := htable.exists_rows
    exact ⟨rows, hrows, hlength, fun hpacked => htable.flatten_rows hpacked hrows⟩
  exists_saved := htable.exists_saved
  exists_pack := by
    obtain ⟨packed, sizes, hpacked, hsizes⟩ := htable.exists_pack
    exact ⟨packed, hpacked, hsizes.defect?_eq_none⟩

end HasCapacities

end IncidenceTable

namespace Datum

/-- The data of some words. -/
def ofWords (words : List Nat) : Datum := list (words.map natural)

/-- The data of fill counters, if there are any. -/
def ofCounters : Option (List Nat) → Datum
  | none => null
  | some used => ofWords used

/-- The data of three arrays. -/
def ofArrays (offsets columns : List Nat) (fill : Option (List Nat)) : Datum :=
  record [("offsets", ofWords offsets), ("columns", ofWords columns), ("fill", ofCounters fill)]

theorem asWords_ofWords {words : List Nat} (hwords : ∀ entry ∈ words, entry < wordBound) :
    (ofWords words).asWords = .ok words := by
  rw [ofWords, asWords]
  induction words with
  | nil => rfl
  | cons entry words ih =>
      have hrest := ih fun later hlater => hwords later (by simp [hlater])
      rw [List.map_cons, List.mapM_cons, asWord, if_pos (hwords entry (by simp)), hrest]
      rfl

/-- All entries of three arrays are machine words. -/
def AreWords (offsets columns : List Nat) (fill : Option (List Nat)) : Prop :=
  (∀ entry ∈ offsets, entry < wordBound) ∧ (∀ entry ∈ columns, entry < wordBound) ∧
    ∀ used, fill = some used → ∀ entry ∈ used, entry < wordBound

/-- Arrays that are read as data are checked like any others. -/
theorem asTable_ofArrays {offsets columns : List Nat} {fill : Option (List Nat)}
    (hwords : AreWords offsets columns fill) : (ofArrays offsets columns fill).asTable =
      match (IncidenceTable.ofLists offsets columns fill).defect? with
      | none => .ok (.ofLists offsets columns fill)
      | some error => .error (.refused error) := by
  obtain ⟨hoffsets, hcolumns, hfill⟩ := hwords
  have hcounters : asOption asWords (ofCounters fill) = .ok fill := by
    cases fill with
    | none => rfl
    | some used =>
        show (ofWords used).asWords.map some = _
        rw [asWords_ofWords (hfill used rfl)]
        rfl
  have hread : (ofArrays offsets columns fill).asTable =
      asTableOf (ofWords offsets) (ofWords columns) (ofCounters fill) := rfl
  rw [hread, asTableOf, asWords_ofWords hoffsets, asWords_ofWords hcolumns, hcounters]
  rfl

end Datum

namespace IncidenceTable

/-- What the check says of three arrays, wherever it is made. -/
structure IsCheckedExactly (offsets columns : List Nat) (fill : Option (List Nat)) : Prop where
  /-- A layout is accepted, and all of its rows can be used. -/
  accepted : IsLayout offsets columns fill →
    (ofLists offsets columns fill).inspect = .ok () ∧
    (ofLists offsets columns fill).checked = .ok (ofLists offsets columns fill) ∧
    (Datum.AreWords offsets columns fill →
      (Datum.ofArrays offsets columns fill).asTable = .ok (ofLists offsets columns fill)) ∧
    (ofLists offsets columns fill).KeepsToRows
  /-- Anything else is refused, for one and the same reason. -/
  refused : ¬ IsLayout offsets columns fill → ∃ error,
    (ofLists offsets columns fill).inspect = refuse error ∧
    (ofLists offsets columns fill).checked = refuse error ∧
    (Datum.AreWords offsets columns fill →
      (Datum.ofArrays offsets columns fill).asTable = .error (.refused error))
  /-- Without fill counters, a table takes over the arrays or stays what it is. -/
  leaves_adopt_iff : ∀ table after, (Change.adopt offsets columns).Leaves table after ↔
    (IsLayout offsets columns none ∧ after = ofLists offsets columns none) ∨
      (¬ IsLayout offsets columns none ∧ after = table)

variable {offsets columns : List Nat} {fill : Option (List Nat)}

theorem leaves_adopt_iff {table after : IncidenceTable} :
    (Change.adopt offsets columns).Leaves table after ↔
      (IsLayout offsets columns none ∧ after = ofLists offsets columns none) ∨
        (¬ IsLayout offsets columns none ∧ after = table) := by
  have happly : (Change.adopt offsets columns).apply table =
      (ofLists offsets columns none).checked := rfl
  have hleaves : (Change.adopt offsets columns).Leaves table after ↔ _ :=
    Change.leaves_iff (by simp [Change.sources]) trivial
  rw [hleaves, happly, ← defect?_ofLists_eq_none_iff]
  cases hdefect : (ofLists offsets columns none).defect? with
  | none => simp [checked_eq_ok hdefect, refuse, eq_comm]
  | some error => simp [checked_eq_refuse hdefect, refuse]

/-- **The check of a table.** On any arrays the check looks for nothing in vain. It accepts them
exactly if they lay out a table, and then every operation on a row keeps to the row's slots;
otherwise they are refused, and the table they were meant for is left alone. -/
theorem isCheckedExactly (offsets columns : List Nat) (fill : Option (List Nat)) :
    IsCheckedExactly offsets columns fill where
  accepted hlayout := by
    have hsound := defect?_ofLists_eq_none_iff.mpr hlayout
    obtain ⟨capacities, hcapacities⟩ := exists_capacities_of_isLayout hlayout
    refine ⟨?_, checked_eq_ok hsound, fun hwords => ?_, hcapacities.keepsToRows⟩
    · rw [inspect_eq, hsound]
      rfl
    · rw [Datum.asTable_ofArrays hwords, hsound]
  refused hother := by
    cases hdefect : (ofLists offsets columns fill).defect? with
    | none => exact absurd (defect?_ofLists_eq_none_iff.mp hdefect) hother
    | some error =>
        refine ⟨error, ?_, checked_eq_refuse hdefect, fun hwords => ?_⟩
        · rw [inspect_eq, hdefect]
          rfl
        · rw [Datum.asTable_ofArrays hwords, hdefect]
  leaves_adopt_iff _ _ := leaves_adopt_iff

end IncidenceTable

end MeshIncidence
