/-
# The second pass

In the second pass of a build the columns placed so far lie at the start of their rows, and the
cursors stand behind them. A placement writes between a cursor and the end of its row, which is
before any later row starts and after any earlier one ends, so this is kept whatever the order of
the rows. Once all columns are placed the rows are full, and with the starts moved back they are
what was placed in them.
-/

import MeshIncidence.Proofs.Table.Packing
import MeshIncidence.Proofs.Table.TwoPasses

namespace MeshIncidence

/-- Put values over those from a position on. -/
def written (entries : Array Nat) (start : Nat) (values : List Nat) : Array Nat :=
  (entries.toList.take start ++ values ++ entries.toList.drop (start + values.length)).toArray

section Written

variable {entries : Array Nat} {start : Nat} {values : List Nat}

theorem replaceFrom_eq_ok (hroom : start + values.length ≤ entries.size) :
    replaceFrom entries start values = .ok (written entries start values) := if_pos hroom

theorem setIfInBounds_eq_written (entries : Array Nat) {start : Nat} (hstart : start < entries.size)
    (value : Nat) : entries.setIfInBounds start value = written entries start [value] := by
  apply Array.toList_inj.mp
  rw [Array.toList_setIfInBounds, List.set_eq_take_append_cons_drop,
    if_pos (by simpa using hstart), written]
  simp

theorem size_written (hroom : start + values.length ≤ entries.size) :
    (written entries start values).size = entries.size := by
  simp only [written, List.size_toArray, List.length_append, List.length_take, List.length_drop,
    Array.length_toList]
  omega

theorem written_nil (entries : Array Nat) (start : Nat) : written entries start [] = entries := by
  simp [written]

/-- Values written behind others are written with them. -/
theorem written_written {others : List Nat}
    (hroom : start + values.length + others.length ≤ entries.size) :
    written (written entries start values) (start + values.length) others =
      written entries start (values ++ others) := by
  have hlength : (entries.toList.take start).length = start :=
    List.length_take_of_le (by simp only [Array.length_toList]; omega)
  have hfront : (entries.toList.take start ++ values).length = start + values.length := by
    rw [List.length_append, hlength]
  simp only [written, List.toList_toArray]
  rw [List.take_left' hfront, ← List.drop_drop, List.drop_left' hfront, List.drop_drop,
    List.length_append, ← List.append_assoc, Nat.add_assoc]

/-- Values that take all the room are all there is. -/
theorem written_zero (hsize : values.length = entries.size) :
    written entries 0 values = values.toArray := by
  simp [written, hsize]

theorem getElem?_written_add (hroom : start + values.length ≤ entries.size) {offset : Nat}
    (hoffset : offset < values.length) :
    (written entries start values)[start + offset]? = values[offset]? := by
  have hlength : (entries.toList.take start).length = start :=
    List.length_take_of_le (by simp only [Array.length_toList]; omega)
  rw [written, List.getElem?_toArray, List.append_assoc,
    List.getElem?_append_right (by omega), hlength, Nat.add_sub_cancel_left,
    List.getElem?_append_left hoffset]

theorem getElem?_written_of_outside (hroom : start + values.length ≤ entries.size) {position : Nat}
    (houtside : position < start ∨ start + values.length ≤ position) :
    (written entries start values)[position]? = entries[position]? := by
  have hlength : (entries.toList.take start).length = start :=
    List.length_take_of_le (by simp only [Array.length_toList]; omega)
  rw [written, List.getElem?_toArray, List.append_assoc, ← Array.getElem?_toList]
  obtain hbefore | hafter := houtside
  · rw [List.getElem?_append_left (by omega), List.getElem?_take_of_lt hbefore]
  · rw [List.getElem?_append_right (by omega), hlength, List.getElem?_append_right (by omega),
      List.getElem?_drop]
    congr 1
    omega

end Written

namespace IncidenceTable

variable {table : IncidenceTable}

/-- The columns of a placement. -/
def Placement.columns : Placement → List Nat
  | one _ column => [column]
  | several _ columns => columns

theorem Placement.length_columns (placement : Placement) :
    placement.columns.length = placement.entry.2 := by
  cases placement <;> rfl

/-- The columns that are placed in a row, in order. -/
def placedIn (row : Nat) : List Placement → List Nat
  | [] => []
  | placement :: placements =>
      (if placement.entry.1 = row then placement.columns else []) ++ placedIn row placements

theorem placedIn_append (row : Nat) (early late : List Placement) :
    placedIn row (early ++ late) = placedIn row early ++ placedIn row late := by
  induction early with
  | nil => rfl
  | cons placement early ih => rw [List.cons_append, placedIn, placedIn, ih, List.append_assoc]

theorem placedIn_concat (row : Nat) (early : List Placement) (placement : Placement) :
    placedIn row (early ++ [placement]) =
      placedIn row early ++ if placement.entry.1 = row then placement.columns else [] := by
  rw [placedIn_append, placedIn, placedIn, List.append_nil]

theorem amountFor_entries (row : Nat) (placements : List Placement) :
    amountFor row (placements.map Placement.entry) = (placedIn row placements).length := by
  induction placements with
  | nil => rfl
  | cons placement placements ih =>
      rw [List.map_cons, amountFor, placedIn, List.length_append, ih]
      split
      · rw [placement.length_columns]
      · rfl

-- The second row is written on both sides of the first one.
example : placedIn 1 [.one 1 7, .one 0 3, .several 1 [8, 7]] = [7, 8, 7] := by decide

/-- A placement writes its columns from the cursor of its row on. -/
theorem Placement.apply_eq_ok {placement : Placement} {cursor : Nat}
    (hcursor : entryAt table.offsets placement.entry.1 = .ok cursor)
    (hroom : cursor + placement.entry.2 ≤ table.columns.size)
    (hslots : table.slotCount = table.columns.size) :
    placement.apply table = .ok { table with
      offsets := table.offsets.setIfInBounds placement.entry.1 (cursor + placement.entry.2)
      columns := written table.columns cursor placement.columns } := by
  cases placement with
  | one row column =>
      simp only [entry] at hcursor hroom
      rw [apply, place, hcursor, Result.ok_bind, hslots, if_pos (by omega), replaceAt,
        if_pos (by omega), Result.ok_bind, setIfInBounds_eq_written table.columns (by omega)]
      rfl
  | several row entries =>
      simp only [entry] at hcursor hroom
      rw [apply, placeAll, hcursor, Result.ok_bind, replaceFrom_eq_ok hroom, Result.ok_bind]
      rfl

/-- The second pass: what has been placed so far lies at the start of its row, and with what is
still to come it fills the row. -/
structure Filling (sizes : List Nat) (early late : List Placement) (table : IncidenceTable) :
    Prop where
  isPacked : table.fill = none
  placing : Placing sizes (late.map Placement.entry) table.offsets table.columns
  length_eq : ∀ row size, sizes[row]? = some size →
    (placedIn row early).length + (placedIn row late).length = size
  getElem?_columns : ∀ row < sizes.length, ∀ position column,
    (placedIn row early)[position]? = some column →
      table.columns[(sizes.take row).sum + position]? = some column

namespace Filling

variable {sizes : List Nat} {early late : List Placement} {placement : Placement}

/-- The cursor of a row stands behind what has been placed there. -/
theorem cursor_eq (hfilling : Filling sizes early late table) {row cursor : Nat}
    (hrow : row < sizes.length) (hcursor : table.offsets[row]? = some cursor) :
    cursor = (sizes.take row).sum + (placedIn row early).length := by
  have hshort := hfilling.placing.isShort row cursor hcursor
  have hlength := hfilling.length_eq row _ (List.getElem?_eq_getElem hrow)
  rw [amountFor_entries, rowEnd, List.sum_take_succ sizes row hrow] at hshort
  omega

/-- A placement adds its columns to its own row. -/
theorem exists_apply (hfilling : Filling sizes early (placement :: late) table) :
    ∃ after, placement.apply table = .ok after ∧
      Filling sizes (early ++ [placement]) late after := by
  have hplacing : Placing sizes ((placement.entry.1, placement.entry.2) ::
    late.map Placement.entry) table.offsets table.columns := hfilling.placing
  have hrow : placement.entry.1 < sizes.length := hplacing.row_lt placement.entry (by simp)
  obtain ⟨cursor, hcursor, hroom, hnext⟩ := hplacing.exists_cursor
  have happly := Placement.apply_eq_ok hcursor hroom hplacing.slotCount_eq
  rw [← placement.length_columns] at hroom
  have hend := hfilling.length_eq _ _ (List.getElem?_eq_getElem hrow)
  rw [placedIn, if_pos rfl, List.length_append] at hend
  obtain rfl := hfilling.cursor_eq hrow (entryAt_eq_ok_iff.mp hcursor)
  refine ⟨_, happly, hfilling.isPacked, hnext _ (size_written hroom), fun row size hsize => ?_,
    fun row hlt position column hplaced => ?_⟩
  · have hlength := hfilling.length_eq row size hsize
    rw [placedIn, List.length_append] at hlength
    rw [placedIn_concat, List.length_append]
    omega
  · rw [placedIn_concat] at hplaced
    by_cases hold : position < (placedIn row early).length
    · -- The column was there before, and lies outside of what is written.
      rw [List.getElem?_append_left hold] at hplaced
      have hsize := hfilling.length_eq row _ (List.getElem?_eq_getElem hlt)
      rw [getElem?_written_of_outside hroom]
      · exact hfilling.getElem?_columns row hlt position column hplaced
      · obtain hbefore | rfl | hafter := Nat.lt_trichotomy row placement.entry.1
        · have hstart := sum_take_add_le (List.getElem?_eq_getElem hlt) hbefore
          omega
        · omega
        · have hstart := sum_take_add_le (List.getElem?_eq_getElem hrow) hafter
          omega
    · -- The column is one of those that are written.
      rw [List.getElem?_append_right (Nat.le_of_not_lt hold)] at hplaced
      split at hplaced
      · rename_i hsame
        subst hsame
        obtain ⟨hoffset, -⟩ := List.getElem?_eq_some_iff.mp hplaced
        rw [← hplaced, ← getElem?_written_add hroom hoffset]
        congr 1
        omega
      · simp at hplaced

theorem exists_foldlM (hfilling : Filling sizes early late table) :
    ∃ placed, late.foldlM Placement.apply table = .ok placed ∧
      Filling sizes (early ++ late) [] placed := by
  induction late generalizing table early with
  | nil => exact ⟨table, rfl, by rwa [List.append_nil]⟩
  | cons placement late ih =>
      obtain ⟨after, happly, hafter⟩ := hfilling.exists_apply
      obtain ⟨placed, hplaced, hfinished⟩ := ih hafter
      refine ⟨placed, ?_, by rwa [List.append_assoc, List.singleton_append] at hfinished⟩
      rw [List.foldlM_cons, happly, Result.ok_bind, hplaced]

/-- Once all columns are placed, the rows are what was placed in them. -/
theorem row_restoreStarts (hfilling : Filling sizes early [] table) {row : Nat}
    (hrow : row < sizes.length) :
    table.restoreStarts.row row = .ok (placedIn row early) := by
  have hcapacities := hfilling.placing.hasCapacities_restoreStarts hfilling.isPacked
  have hsize := List.getElem?_eq_getElem hrow
  have hlength := hfilling.length_eq row _ hsize
  have hused : (table.restoreStarts.usedSizes sizes)[row]? = some (placedIn row early).length := by
    rw [usedSizes, restoreStarts, hfilling.isPacked, hsize, ← hlength]
    rfl
  rw [hcapacities.row_eq hused]
  refine congrArg Except.ok (List.ext_getElem? fun position => ?_)
  obtain hinside | houtside := Nat.lt_or_ge position (placedIn row early).length
  · have hplaced := List.getElem?_eq_getElem hinside
    rw [List.getElem?_take_of_lt hinside, List.getElem?_drop, Array.getElem?_toList, hplaced]
    exact hfilling.getElem?_columns row hrow position _ hplaced
  · rw [List.getElem?_take_eq_none houtside, List.getElem?_eq_none houtside]

theorem restoreStarts_eq (hfilling : Filling sizes early [] table) :
    table.restoreStarts = ofRows ((List.range sizes.length).map (placedIn · early)) := by
  have hcapacities := hfilling.placing.hasCapacities_restoreStarts hfilling.isPacked
  have hrows : table.restoreStarts.rows =
      .ok ((List.range sizes.length).map (placedIn · early)) := by
    rw [IncidenceTable.rows, hcapacities.rowCount_eq]
    exact Result.mapM_eq_ok fun row hrow =>
      hfilling.row_restoreStarts (List.mem_range.mp hrow)
  have hpacked := hcapacities.pack_eq_ofRows hrows
  rw [pack, restoreStarts, hfilling.isPacked] at hpacked
  rw [restoreStarts, hfilling.isPacked]
  exact Except.ok.inj hpacked

end Filling

end IncidenceTable

end MeshIncidence
