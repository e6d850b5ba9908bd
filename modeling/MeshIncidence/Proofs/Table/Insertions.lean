/-
# Columns inserted in any order

A table is made with a number of slots for each row, and columns are put into rows in any
order. A row takes columns until its slots are in use; a column that it has already is found
where it is, and all others are refused from then on. So a row holds the first different columns
that were asked for, as many as it has slots, and what is asked for other rows does not matter.

`IncidenceTable.Holds` says what the rows hold. One insertion keeps this, hence every sequence
does, and packing the table gives the one made of these rows.
-/

import MeshIncidence.Proofs.Changes
import MeshIncidence.Proofs.Numbering.FirstOccurrence
import MeshIncidence.Proofs.Table.Filling
import MeshIncidence.Proofs.Table.Packing

namespace MeshIncidence

/-- The columns that are asked for in a row, in order. -/
def columnsOf (row : Nat) (insertions : List (Nat × Nat)) : List Nat :=
  (insertions.filter (·.1 = row)).map Prod.snd

/-- The columns that a row holds: the first different ones asked for, as many as there are
slots. -/
def heldBy (capacity : Nat) (insertions : List (Nat × Nat)) (row : Nat) : List Nat :=
  (seenAfter [] (columnsOf row insertions)).take capacity

/-- Of values seen one at a time the first few change as long as there are fewer. -/
theorem take_seenAfter_singleton (capacity : Nat) (values : List Nat) (value : Nat) :
    (seenAfter values [value]).take capacity =
      if value ∈ values.take capacity ∨ (values.take capacity).length = capacity
      then values.take capacity else values.take capacity ++ [value] := by
  obtain hshort | hlong := Nat.lt_or_ge values.length capacity
  · have hall : values.take capacity = values := List.take_of_length_le (Nat.le_of_lt hshort)
    rw [hall]
    by_cases hseen : value ∈ values
    · rw [if_pos (.inl hseen), seenAfter, if_pos hseen, seenAfter, hall]
    · rw [if_neg (by simp [hseen]; omega), seenAfter, if_neg hseen, seenAfter]
      exact List.take_of_length_le (by simp; omega)
  · obtain ⟨rest, hrest⟩ := isPrefix_seenAfter values [value]
    rw [if_pos (.inr (List.length_take_of_le hlong)), ← hrest, List.take_append_of_le_length hlong]

-- The third column finds the row full, and the first one is there already.
example : heldBy 2 [(0, 7), (1, 5), (0, 4), (0, 9), (0, 7)] 0 = [7, 4] := by decide

section HeldBy

variable {capacity : Nat} {insertions : List (Nat × Nat)} {row column : Nat}

theorem columnsOf_append (early late : List (Nat × Nat)) :
    columnsOf row (early ++ late) = columnsOf row early ++ columnsOf row late := by
  rw [columnsOf, List.filter_append, List.map_append, columnsOf, columnsOf]

theorem heldBy_concat_self : heldBy capacity (insertions ++ [(row, column)]) row =
    if column ∈ heldBy capacity insertions row ∨ (heldBy capacity insertions row).length = capacity
    then heldBy capacity insertions row else heldBy capacity insertions row ++ [column] := by
  have hcolumn : columnsOf row [(row, column)] = [column] := by simp [columnsOf]
  rw [heldBy, columnsOf_append, seenAfter_append, hcolumn, take_seenAfter_singleton, ← heldBy]

theorem heldBy_concat_of_ne {other : Nat} (hne : other ≠ row) :
    heldBy capacity (insertions ++ [(row, column)]) other = heldBy capacity insertions other := by
  rw [heldBy, columnsOf_append]
  simp [columnsOf, Ne.symm hne, heldBy]

theorem length_heldBy_le : (heldBy capacity insertions row).length ≤ capacity :=
  List.length_take_le _ _

theorem nodup_heldBy : (heldBy capacity insertions row).Nodup :=
  (nodup_seenAfter List.nodup_nil _).sublist (List.take_sublist _ _)

/-- Later insertions leave the columns that are held where they are. -/
theorem heldBy_isPrefix (early late : List (Nat × Nat)) :
    heldBy capacity early row <+: heldBy capacity (early ++ late) row := by
  rw [heldBy, heldBy, columnsOf_append, seenAfter_append]
  exact (isPrefix_seenAfter _ _).take capacity

end HeldBy

namespace IncidenceTable

/-- The columns of a row are as many as its used slots. -/
theorem entryAt_fill_of_row_eq_ok {table : IncidenceTable} {used : Array Nat} {row : Nat}
    {entries : List Nat} (hfill : table.fill = some used) (hentries : table.row row = .ok entries) :
    entryAt used row = .ok entries.length := by
  obtain ⟨start, -, hrest⟩ := Result.bind_eq_ok_iff.mp hentries
  obtain ⟨size, hsize, hslice⟩ := Result.bind_eq_ok_iff.mp hrest
  rw [entriesFrom] at hslice
  split at hslice
  · rename_i hinside
    obtain rfl := Except.ok.inj hslice
    rw [rowSize, hfill] at hsize
    rw [List.length_take_of_le (by simp only [List.length_drop, Array.length_toList]; omega)]
    exact hsize
  · cases hslice

/-- The fill counter of a row is raised by one, whatever the slots hold by now. -/
theorem raiseFill_eq_ok {table : IncidenceTable} {used : Array Nat} {row : Nat}
    {entries : List Nat} (hfill : table.fill = some used) (hentries : table.row row = .ok entries)
    (columns : Array Nat) : raiseFill { table with columns := columns } row = .ok { table with
      columns := columns
      fill := some (used.setIfInBounds row (entries.length + 1)) } := by
  simp only [raiseFill, hfill, entryAt_fill_of_row_eq_ok hfill hentries, Result.ok_bind,
    Result.pure_eq_ok]

theorem putColumn_eq_map (table : IncidenceTable) (position column : Nat) :
    table.putColumn position column =
      (replaceAt table.columns position column).map fun columns =>
        { table with columns := columns } := rfl

/-- Whatever the table is, an insertion into it changes nothing before it is known to succeed. -/
theorem insertInPlace_performs (table : IncidenceTable) (row column : Nat) :
    (insertInPlace row column).Performs table (table.insert row column) := by
  rw [insertInPlace, insert]
  refine .state_bind ?_
  split
  · exact .of_error (Action.ends_ofResult _)
  refine .ofResult_bind fun start _ => .ofResult_bind fun finish _ =>
    .ofResult_bind fun entries hentries => ?_
  cases entries.idxOf? column with
  | some position => exact .of_runs (Action.runs_pure _)
  | none =>
      cases hfill : table.fill with
      | none => exact .of_error (Action.ends_ofResult _)
      | some used =>
          dsimp only
          split
          · have hput := table.putColumn_eq_map (start + entries.length) column
            cases hcolumns : replaceAt table.columns (start + entries.length) column with
            | error failure =>
                rw [hcolumns] at hput
                exact .of_error (Action.ends_change hput).bind_error
            | ok columns =>
                rw [hcolumns] at hput
                have hraised := raiseFill_eq_ok hfill hentries columns
                refine .of_runs ((Action.runs_change hput).bind ?_)
                exact (Action.runs_change hraised).bind (Action.runs_pure _)
          · exact .of_error (Action.ends_ofResult _)

/-- The table after an insertion, whether it succeeds or not. -/
def leaves (table : IncidenceTable) (entry : Nat × Nat) : IncidenceTable :=
  (insertInPlace entry.1 entry.2).reached table

theorem leaves_of_eq_ok {table after : IncidenceTable} {row column slot : Nat}
    (hinsert : table.insert row column = .ok (slot, after)) : table.leaves (row, column) = after :=
  (table.insertInPlace_performs row column).reached_of_eq_ok hinsert

/-- An insertion that fails has changed nothing. -/
theorem leaves_of_eq_error {table : IncidenceTable} {row column : Nat} {failure : Failure}
    (hinsert : table.insert row column = .error failure) : table.leaves (row, column) = table :=
  (table.insertInPlace_performs row column).reached_of_eq_error hinsert

/-- The table after some insertions. -/
def leavesAll (table : IncidenceTable) (insertions : List (Nat × Nat)) : IncidenceTable :=
  insertions.foldl leaves table

namespace HasCapacities

variable {table : IncidenceTable} {capacities : List Nat} {row column : Nat} {entries : List Nat}
  {used : Array Nat}

theorem row_withEntry_self (htable : table.HasCapacities capacities)
    (hrow : row < capacities.length) (hentries : table.row row = .ok entries)
    (hfill : table.fill = some used) (hfree : entries.length < capacities[row]) :
    (table.withEntry used row ((capacities.take row).sum + entries.length) (entries.length + 1)
      column).row row = .ok (entries ++ [column]) := by
  have hsize := htable.getElem?_usedSizes hrow hentries
  have hafter := htable.hasCapacities_withEntry hrow hfill hfree
    ((capacities.take row).sum + entries.length) column
  have hroom := htable.add_le_size_columns (List.getElem?_eq_getElem hrow)
  rw [htable.row_eq hsize] at hentries
  have hstored := Except.ok.inj hentries
  rw [usedSizes, hfill] at hsize
  obtain ⟨hlt, -⟩ := List.getElem?_eq_some_iff.mp hsize
  have hmore : ((table.withEntry used row ((capacities.take row).sum + entries.length)
      (entries.length + 1) column).usedSizes capacities)[row]? = some (entries.length + 1) := by
    simp only [withEntry, usedSizes, Array.toList_setIfInBounds]
    rw [List.getElem?_set_self hlt]
  have hfree : entries.length < (table.columns.toList.drop (capacities.take row).sum).length := by
    simp only [List.length_drop, Array.length_toList]
    omega
  rw [hafter.row_eq hmore]
  simp only [withEntry, Array.toList_setIfInBounds]
  rw [List.drop_set, if_neg (by omega), Nat.add_sub_cancel_left, List.take_add_one,
    List.take_set_of_le (Nat.le_refl _), hstored, List.getElem?_set_self hfree]
  rfl

theorem row_withEntry_of_ne (htable : table.HasCapacities capacities)
    (hrow : row < capacities.length) (hfill : table.fill = some used)
    (hfree : entries.length < capacities[row]) {other : Nat} (hother : other < capacities.length)
    (hne : other ≠ row) :
    (table.withEntry used row ((capacities.take row).sum + entries.length) (entries.length + 1)
      column).row other = table.row other := by
  have hafter := htable.hasCapacities_withEntry hrow hfill hfree
    ((capacities.take row).sum + entries.length) column
  have hcapacity := List.getElem?_eq_getElem hrow
  obtain ⟨others, hothers, -, hle⟩ := htable.exists_row (List.getElem?_eq_getElem hother)
  have hsize := htable.getElem?_usedSizes hother hothers
  have hsame : ((table.withEntry used row ((capacities.take row).sum + entries.length)
      (entries.length + 1) column).usedSizes capacities)[other]? = some others.length := by
    rw [usedSizes, hfill] at hsize
    simp only [withEntry, usedSizes, Array.toList_setIfInBounds]
    rwa [List.getElem?_set_ne (Ne.symm hne)]
  rw [hafter.row_eq hsame, htable.row_eq hsize]
  simp only [withEntry, Array.toList_setIfInBounds]
  rw [List.drop_set]
  obtain hbefore | hafter := Nat.lt_or_gt_of_ne hne
  · have hend := sum_take_add_le (List.getElem?_eq_getElem hother) hbefore
    rw [if_neg (by omega), List.take_set_of_le (by omega)]
  · have hend := sum_take_add_le hcapacity hafter
    rw [if_pos (by omega)]

end HasCapacities

/-- There is room for rows with a number of slots each. -/
def CanReserve (rows capacity : Nat) : Prop :=
  (rows + 1) * wordBytes ≤ byteBound ∧ rows * capacity * wordBytes ≤ byteBound

/-- The table whose rows have free slots only. -/
def reserved (rows capacity : Nat) : IncidenceTable where
  offsets := ((List.range (rows + 1)).map (· * capacity)).toArray
  columns := Array.replicate (rows * capacity) 0
  fill := some (Array.replicate rows 0)

theorem withCapacity_eq_ok {rows capacity : Nat} (hroom : CanReserve rows capacity) :
    withCapacity rows capacity = .ok (reserved rows capacity) := by
  obtain ⟨hrows, hslots⟩ := hroom
  have hroom : rows * wordBytes ≤ byteBound := by
    rw [Nat.add_mul] at hrows
    omega
  have hcolumns : (if empty.columns.size = rows * capacity then empty.columns
      else Array.replicate (rows * capacity) 0) = Array.replicate (rows * capacity) 0 := by
    split
    · rename_i hnone
      rw [← hnone]
      rfl
    · rfl
  rw [withCapacity, reserveRows, mulWords_of_lt (lt_wordBound_of_mul_le hslots), Result.ok_bind,
    resize_eq_ok ⟨.inr hrows, .inr hslots⟩, Result.ok_bind, zeros_eq_ok hroom, Result.ok_bind,
    hcolumns]
  rfl

theorem withCapacity_runsOut {rows capacity : Nat} (hfull : ¬ CanReserve rows capacity) :
    (withCapacity rows capacity).RunsOut := by
  rw [withCapacity, reserveRows, mulWords, word]
  split
  · refine (resize_runsOut fun hroom => hfull ⟨?_, ?_⟩).bind _
    · obtain hnone | hrows := hroom.1
      · rw [← hnone]
        decide
      · exact hrows
    · obtain hnone | hslots := hroom.2
      · rw [← hnone]
        decide
      · exact hslots
  · exact .inl rfl

/-- Each row holds given columns and has equal room for more. -/
structure Holds (rows capacity : Nat) (held : Nat → List Nat) (table : IncidenceTable) : Prop where
  hasCapacities : table.HasCapacities (List.replicate rows capacity)
  isSome_fill : table.fill.isSome
  row_eq : ∀ row < rows, table.row row = .ok (held row)

theorem holds_reserved (rows capacity : Nat) :
    (reserved rows capacity).Holds rows capacity (heldBy capacity []) := by
  have hcapacities : (reserved rows capacity).HasCapacities (List.replicate rows capacity) :=
    .of_reserved Array.size_replicate
  refine ⟨hcapacities, rfl, fun row hrow => ?_⟩
  have hsize :
      ((reserved rows capacity).usedSizes (List.replicate rows capacity))[row]? = some 0 := by
    simp [usedSizes, reserved, hrow]
  rw [hcapacities.row_eq hsize]
  simp [heldBy, columnsOf, seenAfter]

namespace Holds

variable {rows capacity : Nat} {insertions : List (Nat × Nat)} {table : IncidenceTable}

theorem rowCount_eq {held : Nat → List Nat} (hholds : table.Holds rows capacity held) :
    table.rowCount = rows := by
  rw [hholds.hasCapacities.rowCount_eq, List.length_replicate]

theorem sum_take_replicate {row : Nat} (hrow : row ≤ rows) :
    ((List.replicate rows capacity).take row).sum = row * capacity := by
  rw [List.take_replicate, Nat.min_eq_left hrow, List.sum_replicate_nat]

theorem find?_eq {held : Nat → List Nat} (hholds : table.Holds rows capacity held) {row : Nat}
    (hrow : row < rows) (column : Nat) :
    table.find? row column = .ok (((held row).idxOf? column).map (row * capacity + ·)) := by
  rw [hholds.hasCapacities.find?_eq (by simpa using hrow) (hholds.row_eq row hrow),
    sum_take_replicate (Nat.le_of_lt hrow)]

/-- A new column is put behind those that the row holds. -/
theorem withEntry (hholds : table.Holds rows capacity (heldBy capacity insertions))
    {row column : Nat} (hrow : row < rows) (hmember : column ∉ heldBy capacity insertions row)
    (hfree : (heldBy capacity insertions row).length < capacity) {used : Array Nat}
    (hfill : table.fill = some used) :
    (table.withEntry used row (row * capacity + (heldBy capacity insertions row).length)
      ((heldBy capacity insertions row).length + 1) column).Holds rows capacity
        (heldBy capacity (insertions ++ [(row, column)])) := by
  have hcapacities := hholds.hasCapacities
  have hlt : row < (List.replicate rows capacity).length := by simpa using hrow
  have hroom : (heldBy capacity insertions row).length < (List.replicate rows capacity)[row] := by
    simpa using hfree
  refine ⟨hcapacities.hasCapacities_withEntry hlt hfill hroom _ _, rfl, fun other hother => ?_⟩
  rw [← sum_take_replicate (Nat.le_of_lt hrow)]
  by_cases hsame : other = row
  · subst hsame
    rw [hcapacities.row_withEntry_self hlt (hholds.row_eq other hrow) hfill hroom,
      heldBy_concat_self, if_neg]
    simp [hmember, Nat.ne_of_lt hfree]
  · rw [hcapacities.row_withEntry_of_ne hlt hfill hroom (by simpa using hother) hsame,
      hholds.row_eq other hother, heldBy_concat_of_ne hsame]

/-- A column that is asked for is there already, or finds no slot, or takes the next one. -/
theorem insert_cases (hholds : table.Holds rows capacity (heldBy capacity insertions))
    {row : Nat} (hrow : row < rows) (column : Nat) :
    (∃ position, (heldBy capacity insertions row).idxOf? column = some position ∧
        table.insert row column = .ok (row * capacity + position, table)) ∨
      (column ∉ heldBy capacity insertions row ∧
        (heldBy capacity insertions row).length = capacity ∧
        table.insert row column = refuse (.rowFull row column)) ∨
      (column ∉ heldBy capacity insertions row ∧
        (heldBy capacity insertions row).length < capacity ∧
        ∃ after, table.insert row column =
            .ok (row * capacity + (heldBy capacity insertions row).length, after) ∧
          after.Holds rows capacity (heldBy capacity (insertions ++ [(row, column)]))) := by
  have hcapacities := hholds.hasCapacities
  have hentries := hholds.row_eq row hrow
  have hlt : row < (List.replicate rows capacity).length := by simpa using hrow
  have hcapacity : (List.replicate rows capacity)[row] = capacity := List.getElem_replicate _
  have hstart : ((List.replicate rows capacity).take row).sum = row * capacity :=
    sum_take_replicate (Nat.le_of_lt hrow)
  by_cases hmember : column ∈ heldBy capacity insertions row
  · obtain ⟨position, hfound⟩ := Option.isSome_iff_exists.mp (List.isSome_idxOf?.mpr hmember)
    refine .inl ⟨position, hfound, ?_⟩
    rw [hcapacities.insert_of_found hlt hentries hfound, hstart]
  have hle : (heldBy capacity insertions row).length ≤ capacity := length_heldBy_le
  obtain hfull | hfree := Nat.eq_or_lt_of_le hle
  · exact .inr (.inl ⟨hmember, hfull, hcapacities.insert_of_full hlt hentries hmember
      (.inr (hfull.trans hcapacity.symm))⟩)
  · obtain ⟨used, hfill⟩ := Option.isSome_iff_exists.mp hholds.isSome_fill
    refine .inr (.inr ⟨hmember, hfree, _, ?_, hholds.withEntry hrow hmember hfree hfill⟩)
    rw [hcapacities.insert_of_free hlt hentries hmember hfill (by rwa [hcapacity]), hstart]

/-- What has been inserted is held, or was refused. -/
theorem leaves (hholds : table.Holds rows capacity (heldBy capacity insertions))
    (entry : Nat × Nat) :
    (table.leaves entry).Holds rows capacity (heldBy capacity (insertions ++ [entry])) := by
  obtain ⟨row, column⟩ := entry
  have hsame (hself : row < rows → heldBy capacity (insertions ++ [(row, column)]) row =
      heldBy capacity insertions row) :
      table.Holds rows capacity (heldBy capacity (insertions ++ [(row, column)])) := by
    refine ⟨hholds.hasCapacities, hholds.isSome_fill, fun other hother => ?_⟩
    rw [hholds.row_eq other hother]
    by_cases hrow : other = row
    · subst hrow
      rw [hself hother]
    · rw [heldBy_concat_of_ne hrow]
  obtain hrow | hrow := Nat.lt_or_ge row rows
  · rcases hholds.insert_cases hrow column with ⟨position, hfound, hinsert⟩ |
      ⟨-, hfull, hinsert⟩ | ⟨-, -, after, hinsert, hafter⟩
    · rw [leaves_of_eq_ok hinsert]
      refine hsame fun _ => ?_
      rw [heldBy_concat_self, if_pos (.inl (List.isSome_idxOf?.mp (hfound ▸ rfl)))]
    · rw [leaves_of_eq_error hinsert]
      refine hsame fun _ => ?_
      rw [heldBy_concat_self, if_pos (.inr hfull)]
    · rw [leaves_of_eq_ok hinsert]
      exact hafter
  · rw [leaves_of_eq_error (insert_of_le (by rwa [hholds.rowCount_eq]) column)]
    exact hsame fun hlt => absurd hlt (Nat.not_lt.mpr hrow)

theorem leavesAll (hholds : table.Holds rows capacity (heldBy capacity insertions))
    (later : List (Nat × Nat)) :
    (table.leavesAll later).Holds rows capacity (heldBy capacity (insertions ++ later)) := by
  induction later generalizing table insertions with
  | nil => rwa [List.append_nil]
  | cons entry later ih =>
      have hrest := ih (hholds.leaves entry)
      rwa [List.append_assoc, List.singleton_append] at hrest

/-- An insertion answers the slot of the column's position in the row as it is afterwards. -/
theorem insert_eq (hholds : table.Holds rows capacity (heldBy capacity insertions))
    {row : Nat} (hrow : row < rows) (column : Nat) : table.insert row column =
      match (heldBy capacity (insertions ++ [(row, column)]) row).idxOf? column with
      | some position => .ok (row * capacity + position, table.leaves (row, column))
      | none => refuse (.rowFull row column) := by
  rw [heldBy_concat_self]
  rcases hholds.insert_cases hrow column with ⟨position, hfound, hinsert⟩ |
    ⟨hmissing, hfull, hinsert⟩ | ⟨hmissing, hfree, after, hinsert, -⟩
  · rw [if_pos (.inl (List.isSome_idxOf?.mp (hfound ▸ rfl))), hfound, hinsert,
      leaves_of_eq_ok hinsert]
  · rw [if_pos (.inr hfull), List.idxOf?_eq_none_iff.mpr hmissing, hinsert]
  · have hlast : (heldBy capacity insertions row ++ [column]).idxOf? column =
        some (heldBy capacity insertions row).length := by
      rw [idxOf?_eq_some_iff_getElem? (by simpa using nodup_heldBy.concat hmissing)]
      simp
    rw [if_neg (by simp [hmissing, Nat.ne_of_lt hfree]), hlast, hinsert, leaves_of_eq_ok hinsert]

/-- A column is in the row, at its position, or it is not. -/
theorem find?_eq_ite (hholds : table.Holds rows capacity (heldBy capacity insertions))
    (row column : Nat) : table.find? row column = .ok
      (if row < rows then ((heldBy capacity insertions row).idxOf? column).map (row * capacity + ·)
      else none) := by
  split
  · rename_i hrow
    exact hholds.find?_eq hrow column
  · rename_i hrow
    rw [find?, if_pos (by rw [hholds.rowCount_eq]; omega)]

/-- A slot that was answered once is answered again, whatever comes between. -/
theorem insert_again (hholds : table.Holds rows capacity (heldBy capacity insertions))
    {row column slot : Nat} {after : IncidenceTable}
    (hinsert : table.insert row column = .ok (slot, after)) (later : List (Nat × Nat)) :
    (∃ last, (after.leavesAll later).insert row column = .ok (slot, last)) ∧
      (after.leavesAll later).find? row column = .ok (some slot) := by
  have hrow : row < rows := by
    by_contra hrow
    rw [insert_of_le (by rw [hholds.rowCount_eq]; omega)] at hinsert
    cases hinsert
  rw [hholds.insert_eq hrow] at hinsert
  cases hfound : (heldBy capacity (insertions ++ [(row, column)]) row).idxOf? column with
  | none =>
      rw [hfound] at hinsert
      cases hinsert
  | some position =>
      rw [hfound, Except.ok.injEq, Prod.mk.injEq] at hinsert
      obtain ⟨rfl, rfl⟩ := hinsert
      have hlater := (hholds.leaves (row, column)).leavesAll later
      -- What is held later begins with what is held now, so the position is the same.
      have hkept (more : List (Nat × Nat)) : (heldBy capacity
          (insertions ++ [(row, column)] ++ more) row).idxOf? column = some position :=
        (heldBy_isPrefix _ more).findIdx?_eq_some hfound
      constructor
      · rw [hlater.insert_eq hrow, List.append_assoc _ later, hkept]
        exact ⟨_, rfl⟩
      · rw [hlater.find?_eq hrow, hkept]
        rfl

/-- Packing gives the table that is made of the rows. -/
theorem pack_eq (hholds : table.Holds rows capacity (heldBy capacity insertions)) :
    table.pack = .ok (ofRows ((List.range rows).map (heldBy capacity insertions))) := by
  refine hholds.hasCapacities.pack_eq_ofRows ?_
  rw [IncidenceTable.rows, hholds.rowCount_eq]
  exact Result.mapM_eq_ok fun row hrow => hholds.row_eq row (List.mem_range.mp hrow)

end Holds

end IncidenceTable

end MeshIncidence
