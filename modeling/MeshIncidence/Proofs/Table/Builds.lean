/-
# Builds in any order

A build that places as many columns in each row as it has counted gives the packed table of
these rows. Neither the order of the counts nor that of the rows in the second pass matters,
nor what the table was before: only a row's own columns are kept in their order. So rows that are
counted and placed in any order are those of the table made of them.

The first pass needs an array for the offsets and one for the columns. Where these cannot be had
the build stops there, and nowhere else.
-/

import MeshIncidence.Proofs.Table.Placements

namespace MeshIncidence

-- Powers are those of the core library, whatever else a module imports.
attribute [default_instance high] instPowNat

/-- One row does not come to more than all of them. -/
theorem amountFor_le_sum (row : Nat) (amounts : List (Nat × Nat)) :
    amountFor row amounts ≤ (amounts.map Prod.snd).sum := by
  induction amounts with
  | nil => exact Nat.le_refl 0
  | cons entry amounts ih =>
      rw [amountFor, List.map_cons, List.sum_cons]
      split <;> omega

namespace IncidenceTable

/-- There is room for the offsets of the rows, if they are not there already, and for the
columns that are counted. -/
def CanBuild (table : IncidenceTable) (rows : Nat) (counts : List (Nat × Nat)) : Prop :=
  (table.rowCount = rows ∨ (rows + 1) * wordBytes ≤ byteBound) ∧
    (counts.map Prod.snd).sum * wordBytes ≤ byteBound

/-- The first pass of a build: count and lay out. -/
def firstPass (table : IncidenceTable) (rows : Nat) (counts : List (Nat × Nat)) :
    Result IncidenceTable := do
  let started ← table.startCounts rows
  let counted ← counts.foldlM (fun table (row, columns) => table.count row columns) started
  counted.layOut

variable {table : IncidenceTable} {rows : Nat} {counts : List (Nat × Nat)}

theorem build_eq_bind (placements : List Placement) : table.build rows counts placements =
    table.firstPass rows counts >>= fun laidOut =>
      placements.foldlM Placement.apply laidOut >>= fun placed => .ok placed.restoreStarts := by
  rw [build, firstPass]
  simp only [bind_assoc]
  rfl

theorem startCounts_eq_ok (hroom : table.rowCount = rows ∨ (rows + 1) * wordBytes ≤ byteBound) :
    table.startCounts rows = .ok ⟨Array.replicate (rows + 1) 0, #[], none⟩ := by
  rw [startCounts, resize_eq_ok ⟨hroom, .inr (Nat.zero_le _)⟩, Result.ok_bind]
  simp

theorem startCounts_runsOut
    (hfull : ¬ (table.rowCount = rows ∨ (rows + 1) * wordBytes ≤ byteBound)) :
    (table.startCounts rows).RunsOut :=
  (resize_runsOut fun hroom => hfull hroom.1).bind _

/-- The first pass: counts move to the totals of their rows. -/
structure Counting (rows : Nat) (target : Nat → Nat) (pending : List (Nat × Nat))
    (table : IncidenceTable) : Prop where
  size_offsets : table.offsets.size = rows + 1
  isPacked : table.fill = none
  row_lt : ∀ entry ∈ pending, entry.1 < rows
  isShort : IsShort target pending table.offsets

namespace Counting

variable {target : Nat → Nat} {pending : List (Nat × Nat)}

theorem start (hcounts : ∀ entry ∈ counts, entry.1 < rows) :
    Counting rows (amountFor · counts) counts ⟨Array.replicate (rows + 1) 0, #[], none⟩ where
  size_offsets := Array.size_replicate
  isPacked := rfl
  row_lt := hcounts
  isShort := IsShort.replicate _ counts

/-- The counting ends with the totals, unless one of them is no word. -/
theorem foldlM_cases (hcounting : Counting rows target pending table) :
    (∃ counted, pending.foldlM (fun table (row, columns) => table.count row columns) table =
        .ok counted ∧ Counting rows target [] counted) ∨
      (pending.foldlM (fun table (row, columns) => table.count row columns) table =
        stop .overflow ∧ ∃ row, wordBound ≤ target row) := by
  induction pending generalizing table with
  | nil => exact .inl ⟨table, rfl, hcounting⟩
  | cons entry pending ih =>
      obtain ⟨row, columns⟩ := entry
      have hrow : row < table.offsets.size := by
        have hlt := hcounting.row_lt (row, columns) (by simp)
        rw [hcounting.size_offsets]
        omega
      have hcounted : table.offsets[row]? = some table.offsets[row] :=
        Array.getElem?_eq_getElem hrow
      rw [List.foldlM_cons]
      simp only [count, entryAt_eq_ok_iff.mpr hcounted, Result.ok_bind, addWords, word]
      split
      · exact ih
          { size_offsets := by rw [Array.size_setIfInBounds, hcounting.size_offsets]
            isPacked := hcounting.isPacked
            row_lt := fun entry hentry => hcounting.row_lt entry (List.mem_cons_of_mem _ hentry)
            isShort := hcounting.isShort.add hcounted }
      · refine .inr ⟨rfl, row, ?_⟩
        have hshort := hcounting.isShort row _ hcounted
        rw [amountFor, if_pos rfl] at hshort
        omega

/-- Laying out turns totals into starts. -/
theorem layOut_eq (hcounting : Counting rows target [] table) :
    table.layOut = (word ((List.range rows).map target).sum >>= zeros) >>= fun columns =>
      .ok ⟨(offsetsFrom 0 ((List.range rows).map target)).toArray, columns, none⟩ := by
  have hcounts : table.offsets.toList.take table.rowCount = (List.range rows).map target := by
    rw [hcounting.isShort.toList_eq, rowCount, hcounting.size_offsets, Nat.add_sub_cancel,
      ← List.map_take, List.take_range, Nat.min_eq_left (Nat.le_succ rows)]
  rw [layOut, hcounts, ← List.sum_eq_foldl, hcounting.isPacked, bind_assoc]
  rfl

end Counting

/-- What the counts make of any table that has the room. -/
theorem firstPass_eq_ok (hcounts : ∀ entry ∈ counts, entry.1 < rows)
    (hroom : table.CanBuild rows counts) :
    table.firstPass rows counts = .ok ⟨(offsetsFrom 0 (countedSizes rows counts)).toArray,
      Array.replicate (countedSizes rows counts).sum 0, none⟩ := by
  rw [firstPass, startCounts_eq_ok hroom.1, Result.ok_bind]
  obtain ⟨counted, hcounted, hfinished⟩ | ⟨-, row, hlarge⟩ := (Counting.start hcounts).foldlM_cases
  · have hsum : (countedSizes rows counts).sum * wordBytes ≤ byteBound := by
      rw [countedSizes, sum_amountFor hcounts]
      exact hroom.2
    rw [hcounted, Result.ok_bind, hfinished.layOut_eq, ← countedSizes, zeros_word_eq_ok hsum,
      Result.ok_bind]
  · have hlt := lt_wordBound_of_mul_le hroom.2
    exact absurd (Nat.le_trans hlarge (amountFor_le_sum row counts)) (Nat.not_le.mpr hlt)

/-- The first pass is where a build finds out that there is no room. -/
theorem firstPass_runsOut (hcounts : ∀ entry ∈ counts, entry.1 < rows)
    (hfull : ¬ table.CanBuild rows counts) : (table.firstPass rows counts).RunsOut := by
  rw [firstPass]
  by_cases hrows : table.rowCount = rows ∨ (rows + 1) * wordBytes ≤ byteBound
  · rw [startCounts_eq_ok hrows, Result.ok_bind]
    obtain ⟨counted, hcounted, hfinished⟩ | ⟨hoverflow, -⟩ :=
      (Counting.start hcounts).foldlM_cases
    · rw [hcounted, Result.ok_bind, hfinished.layOut_eq, sum_amountFor hcounts]
      exact (zeros_word_runsOut fun hcolumns => hfull ⟨hrows, hcolumns⟩).bind _
    · rw [hoverflow]
      exact .inl rfl
  · exact (startCounts_runsOut hrows).bind _

/-- The second pass is to place as many columns in each row as the first one counts, in rows that
there are. -/
structure PlacesAsCounted (rows : Nat) (counts : List (Nat × Nat)) (placements : List Placement) :
    Prop where
  count_lt : ∀ entry ∈ counts, entry.1 < rows
  placement_lt : ∀ placement ∈ placements, placement.entry.1 < rows
  amountFor_eq : ∀ row < rows,
    amountFor row (placements.map Placement.entry) = amountFor row counts

namespace PlacesAsCounted

variable {placements : List Placement}

theorem countedSizes_eq (hplaces : PlacesAsCounted rows counts placements) :
    countedSizes rows counts = ((List.range rows).map (placedIn · placements)).map List.length := by
  rw [countedSizes, List.map_map]
  refine List.map_congr_left fun row hrow => ?_
  rw [← hplaces.amountFor_eq row (List.mem_range.mp hrow), amountFor_entries, Function.comp_apply]

/-- The second pass starts from the offsets of the counted rows, whatever the slots hold. -/
theorem filling (hplaces : PlacesAsCounted rows counts placements) {columns : Array Nat}
    (hcolumns : columns.size = (countedSizes rows counts).sum) :
    Filling (countedSizes rows counts) [] placements
      ⟨(offsetsFrom 0 (countedSizes rows counts)).toArray, columns, none⟩ := by
  have hlength : (countedSizes rows counts).length = rows := by simp [countedSizes]
  have hamount : ∀ row size, (countedSizes rows counts)[row]? = some size →
      amountFor row (placements.map Placement.entry) = size := by
    intro row size hsize
    obtain ⟨hlt, rfl⟩ := List.getElem?_eq_some_iff.mp hsize
    rw [hplaces.amountFor_eq row (by omega)]
    simp [countedSizes]
  refine ⟨rfl, Placing.start hcolumns ?_ hamount, fun row size hsize => ?_,
    fun row _ position column hplaced => ?_⟩
  · rw [hlength]
    exact List.forall_mem_map.mpr hplaces.placement_lt
  · rw [placedIn, List.length_nil, Nat.zero_add, ← amountFor_entries, hamount row size hsize]
  · simp [placedIn] at hplaced

/-- Where there is room, a build gives the rows that are placed. -/
theorem build_eq_ok (hplaces : PlacesAsCounted rows counts placements)
    (hroom : table.CanBuild rows counts) :
    table.build rows counts placements =
      .ok (ofRows ((List.range rows).map (placedIn · placements))) := by
  obtain ⟨placed, hplaced, hfinished⟩ :=
    (hplaces.filling Array.size_replicate).exists_foldlM
  have hlength : (countedSizes rows counts).length = rows := by simp [countedSizes]
  rw [build_eq_bind, firstPass_eq_ok hplaces.count_lt hroom, Result.ok_bind, hplaced,
    Result.ok_bind, hfinished.restoreStarts_eq, hlength, List.nil_append]

theorem build_runsOut (hplaces : PlacesAsCounted rows counts placements)
    (hfull : ¬ table.CanBuild rows counts) :
    (table.build rows counts placements).RunsOut := by
  rw [build_eq_bind]
  exact (firstPass_runsOut hplaces.count_lt hfull).bind _

end PlacesAsCounted

/-- A build that places the columns it has counted gives rows of the counted sizes. -/
theorem answers_build {placements : List Placement} (hcounts : ∀ entry ∈ counts, entry.1 < rows)
    (hplacements : ∀ placement ∈ placements, placement.entry.1 < rows)
    (hplaced : ∀ row < rows,
      amountFor row (placements.map Placement.entry) = amountFor row counts) :
    (table.build rows counts placements).Answers
      (·.HasCapacities (countedSizes rows counts)) := by
  have hplaces : PlacesAsCounted rows counts placements := ⟨hcounts, hplacements, hplaced⟩
  by_cases hroom : table.CanBuild rows counts
  · refine Result.answers_of_eq_ok (hplaces.build_eq_ok hroom) ?_
    rw [hplaces.countedSizes_eq]
    exact hasCapacities_ofRows _
  · exact (hplaces.build_runsOut hroom).answers _

/-- Given rows are counted and placed one after the other in a new table. -/
def buildRows (rows : List (List Nat)) : Result IncidenceTable :=
  empty.build rows.length (rows.zipIdx.map fun (entries, row) => (row, entries.length))
    (rows.zipIdx.map fun (entries, row) => .several row entries)

section BuildRows

variable {given : List (List Nat)}

theorem placedIn_eq_nil {row : Nat} {placements : List Placement}
    (hother : ∀ placement ∈ placements, placement.entry.1 ≠ row) :
    placedIn row placements = [] := by
  have hnone : amountFor row (placements.map Placement.entry) = 0 :=
    amountFor_eq_zero (List.forall_mem_map.mpr hother)
  rw [amountFor_entries] at hnone
  exact List.eq_nil_of_length_eq_zero hnone

/-- Of rows that are placed one after the other each is placed where it is. -/
theorem placedIn_zipIdx (given : List (List Nat)) (start row : Nat) : placedIn (start + row)
    ((given.zipIdx start).map fun (entries, row) => .several row entries) = given.getD row [] := by
  induction given generalizing start row with
  | nil => rfl
  | cons entries given ih =>
      rw [List.zipIdx_cons, List.map_cons, placedIn]
      cases row with
      | zero =>
          have hlater : placedIn (start + 0) ((given.zipIdx (start + 1)).map
              fun (entries, row) => .several row entries) = [] := by
            refine placedIn_eq_nil (List.forall_mem_map.mpr fun later hlater => ?_)
            have hle := List.le_snd_of_mem_zipIdx hlater
            exact Nat.ne_of_gt hle
          rw [hlater, Placement.entry, if_pos (Nat.add_zero start).symm, List.append_nil]
          rfl
      | succ row =>
          have hrest := ih (start + 1) row
          rw [Nat.add_right_comm, Nat.add_assoc] at hrest
          rw [Placement.entry, if_neg (by simp), List.nil_append, hrest]
          rfl

theorem placesAsCounted_buildRows : PlacesAsCounted given.length
    (given.zipIdx.map fun (entries, row) => (row, entries.length))
    (given.zipIdx.map fun (entries, row) => .several row entries) where
  count_lt := List.forall_mem_map.mpr fun _ hentry => List.snd_lt_of_mem_zipIdx hentry
  placement_lt := List.forall_mem_map.mpr fun _ hentry => List.snd_lt_of_mem_zipIdx hentry
  amountFor_eq row _ := by
    rw [List.map_map]
    rfl

/-- Rows that are built one after the other are those of the table made of them. -/
theorem buildRows_eq_ok (hrows : (given.length + 1) * wordBytes ≤ byteBound)
    (hcolumns : (given.map List.length).sum * wordBytes ≤ byteBound) :
    buildRows given = .ok (ofRows given) := by
  have hcounts : (given.zipIdx.map fun (entries, row) => (row, entries.length)).map Prod.snd =
      given.map List.length := by
    rw [List.map_map, ← List.zipIdx_map_fst 0 given, List.map_map, List.zipIdx_map_fst]
    rfl
  have hroom : empty.CanBuild given.length
      (given.zipIdx.map fun (entries, row) => (row, entries.length)) :=
    ⟨.inr hrows, by rwa [hcounts]⟩
  have hplaced : (List.range given.length).map
      (placedIn · (given.zipIdx.map fun (entries, row) => .several row entries)) = given := by
    refine List.ext_getElem (by simp) fun row _ hrow => ?_
    have hplaced := placedIn_zipIdx given 0 row
    rw [Nat.zero_add] at hplaced
    simp [hplaced, hrow]
  rw [buildRows, placesAsCounted_buildRows.build_eq_ok hroom, hplaced]

end BuildRows

/-- A build has given the packed table of the rows that were placed. It has the starts that were
laid out, and it would have been the same had the rows been built one after the other. -/
structure HasPlacedRows (rows : Nat) (counts : List (Nat × Nat)) (placements : List Placement)
    (laidOut built : IncidenceTable) : Prop where
  isPacked_eq : built.isPacked = true
  defect?_eq_none : built.defect? = none
  offsets_eq : built.offsets.toList = offsetsFrom 0 (countedSizes rows counts)
  offsets_eq_laidOut : built.offsets = laidOut.offsets
  row_eq : ∀ row < rows, built.row row = .ok (placedIn row placements)
  eq_ofRows : built = ofRows ((List.range rows).map (placedIn · placements))
  buildRows_eq : (rows + 1) * wordBytes ≤ byteBound →
    buildRows ((List.range rows).map (placedIn · placements)) = .ok built

theorem PlacesAsCounted.hasPlacedRows {placements : List Placement}
    (hplaces : PlacesAsCounted rows counts placements)
    (hcolumns : (counts.map Prod.snd).sum * wordBytes ≤ byteBound) :
    HasPlacedRows rows counts placements ⟨(offsetsFrom 0 (countedSizes rows counts)).toArray,
      Array.replicate (countedSizes rows counts).sum 0, none⟩
      (ofRows ((List.range rows).map (placedIn · placements))) where
  isPacked_eq := rfl
  defect?_eq_none := defect?_ofRows _
  offsets_eq := by rw [hplaces.countedSizes_eq, ofRows]
  offsets_eq_laidOut := by rw [hplaces.countedSizes_eq, ofRows]
  row_eq row hrow := row_ofRows (by simp [hrow])
  eq_ofRows := rfl
  buildRows_eq hrows := by
    refine buildRows_eq_ok (by simpa using hrows) ?_
    rwa [← hplaces.countedSizes_eq, countedSizes, sum_amountFor hplaces.count_lt]

/-- **Builds in any order.** Whatever the table was, and in whatever order columns are counted and
then placed: if there is room, every step succeeds, and the result is the packed table of what was
placed in each row. If there is none, the first pass runs out of numbers or of storage. -/
theorem build_hasPlacedRows (table : IncidenceTable) {placements : List Placement}
    (hplaces : PlacesAsCounted rows counts placements) :
    (table.CanBuild rows counts → ∃ laidOut built, table.firstPass rows counts = .ok laidOut ∧
      table.build rows counts placements = .ok built ∧
      HasPlacedRows rows counts placements laidOut built) ∧
    (¬ table.CanBuild rows counts → (table.firstPass rows counts).RunsOut ∧
      (table.build rows counts placements).RunsOut) := by
  refine ⟨fun hroom => ?_, fun hfull => ?_⟩
  · have hlaidOut := firstPass_eq_ok hplaces.count_lt hroom
    have hbuilt := hplaces.build_eq_ok hroom
    exact ⟨_, _, hlaidOut, hbuilt, hplaces.hasPlacedRows hroom.2⟩
  · exact ⟨firstPass_runsOut hplaces.count_lt hfull, hplaces.build_runsOut hfull⟩

/-- A table that was left in the middle of a build is built anew, its second row in two parts. -/
theorem build_hasPlacedRows_two_parts :
    PlacesAsCounted 2 [(1, 1), (0, 1), (1, 1)] [.one 1 7, .one 0 3, .several 1 [8]] ∧
      ∃ laidOut built, firstPass ⟨#[1, 3, 3], #[4, 4, 5], none⟩ 2 [(1, 1), (0, 1), (1, 1)] =
          .ok laidOut ∧
        build ⟨#[1, 3, 3], #[4, 4, 5], none⟩ 2 [(1, 1), (0, 1), (1, 1)]
          [.one 1 7, .one 0 3, .several 1 [8]] = .ok built ∧
        HasPlacedRows 2 [(1, 1), (0, 1), (1, 1)] [.one 1 7, .one 0 3, .several 1 [8]] laidOut
          built :=
  have hplaces : PlacesAsCounted 2 [(1, 1), (0, 1), (1, 1)]
      [.one 1 7, .one 0 3, .several 1 [8]] := ⟨by decide, by decide, by decide⟩
  ⟨hplaces, (build_hasPlacedRows _ hplaces).1 ⟨.inl rfl, by decide⟩⟩

/-- Rows in which nothing is counted and nothing is placed still take their offsets. More of them
than an allocation holds offsets for are not built. -/
theorem build_rows_without_room :
    PlacesAsCounted (2 ^ 60) [] [] ∧ empty.startCounts (2 ^ 60) = stop .storage ∧
      ¬ ∃ built, empty.build (2 ^ 60) [] [] = .ok built := by
  have hplaces : PlacesAsCounted (2 ^ 60) [] [] := ⟨nofun, nofun, fun _ _ => rfl⟩
  have hfull : ¬ empty.CanBuild (2 ^ 60) [] := fun hroom => absurd hroom.1 (by decide)
  have hrunsOut := hplaces.build_runsOut hfull
  refine ⟨hplaces, rfl, ?_⟩
  rintro ⟨built, hbuilt⟩
  exact hrunsOut.ne_ok built hbuilt

end IncidenceTable

end MeshIncidence
