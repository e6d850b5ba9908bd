/-
# Products

Row `i` of a product lists what the rows of the second table hold that row `i` of the first one
names: one after the other, and each column at its first occurrence. A marker shows whether a
column has been reached from the row at hand. Markers of earlier rows are left where they are; they
are not mistaken for others because each row has marks of its own.

The rows are written one after the other over the target, of which nothing but the last offset is
left. `IncidenceTable.multiplyOnto_eq` gives the outcome in terms of the rows of both tables.
-/

import MeshIncidence.Proofs.Numbering.FirstOccurrence
import MeshIncidence.Proofs.Table.Placements
import MeshIncidence.Proofs.Table.Stored

namespace MeshIncidence

namespace IncidenceTable

/-- What is reached from some entries, each column at its first occurrence. -/
def reachedFrom (targets : List (List Nat)) (entries : List Nat) : List Nat :=
  seenAfter [] (entries.flatMap (targets.getD · []))

/-- The rows of the product of two tables with given rows. -/
def productOf (sources targets : List (List Nat)) : List (List Nat) :=
  sources.map (reachedFrom targets)

-- The second row names a row twice, and what it holds is reached once.
example : productOf [[0], [1, 0, 1]] [[5, 3], [4, 5]] = [[5, 3], [4, 5, 3]] := by decide

theorem length_productOf (sources targets : List (List Nat)) :
    (productOf sources targets).length = sources.length := List.length_map _

/-- The columns marked for a row are those seen from it, and no later row has marks. -/
structure Marks (row : Nat) (seen : List Nat) (markers : Array (Option Nat)) : Prop where
  marked_iff : ∀ column : Nat, markers[column]? = some (some row) ↔ column ∈ seen
  le_row : ∀ column other : Nat, markers[column]? = some (some other) → other ≤ row

namespace Marks

variable {row : Nat} {seen columns : List Nat} {markers : Array (Option Nat)}

theorem start (columnCount : Nat) : Marks 0 [] (Array.replicate columnCount none) := by
  refine ⟨fun column => ?_, fun column other hmarked => ?_⟩
  · simp [Array.getElem?_replicate]
  · simp [Array.getElem?_replicate] at hmarked

/-- What an earlier row has marked is not marked for the next one. -/
theorem next (hmarks : Marks row seen markers) : Marks (row + 1) [] markers := by
  refine ⟨fun column => ⟨fun hmarked => ?_, fun hmember => absurd hmember List.not_mem_nil⟩,
    fun column other hmarked => Nat.le_succ_of_le (hmarks.le_row column other hmarked)⟩
  exact absurd (hmarks.le_row column _ hmarked) (Nat.not_succ_le_self row)

/-- A column that is marked has been seen. -/
theorem mark (hmarks : Marks row seen markers) {column : Nat} (hcolumn : column < markers.size) :
    Marks row (seen ++ [column]) (markers.setIfInBounds column (some row)) := by
  refine ⟨fun other => ?_, fun other mark hmarked => ?_⟩
  · rw [Array.getElem?_setIfInBounds, List.mem_append, List.mem_singleton, ← hmarks.marked_iff]
    by_cases hsame : column = other
    · simp [← hsame, hcolumn]
    · simp [hsame, Ne.symm hsame]
  · rw [Array.getElem?_setIfInBounds] at hmarked
    by_cases hsame : column = other
    · simp only [← hsame, if_true, hcolumn, Option.some.injEq] at hmarked
      exact Nat.le_of_eq hmarked.symm
    · rw [if_neg hsame] at hmarked
      exact hmarks.le_row other mark hmarked

/-- The fresh columns are those that had not been seen, each at its first occurrence. -/
theorem freshColumns (hmarks : Marks row seen markers)
    (hcolumns : ∀ column ∈ columns, column < markers.size) :
    seen ++ (freshColumns row columns markers).1 = seenAfter seen columns ∧
      Marks row (seenAfter seen columns) (IncidenceTable.freshColumns row columns markers).2 := by
  induction columns generalizing seen markers with
  | nil => exact ⟨List.append_nil seen, hmarks⟩
  | cons column columns ih =>
      obtain ⟨hcolumn, hlater⟩ := List.forall_mem_cons.mp hcolumns
      rw [IncidenceTable.freshColumns, seenAfter]
      by_cases hseen : column ∈ seen
      · rw [if_pos ((hmarks.marked_iff column).mpr hseen), if_pos hseen]
        exact ih hmarks hlater
      · rw [if_neg (mt (hmarks.marked_iff column).mp hseen), if_neg hseen]
        obtain ⟨hfresh, hmarked⟩ := ih (hmarks.mark hcolumn) (by simpa using hlater)
        exact ⟨by simpa using hfresh, hmarked⟩

end Marks

theorem size_freshColumns (row : Nat) (columns : List Nat) (markers : Array (Option Nat)) :
    (freshColumns row columns markers).2.size = markers.size := by
  induction columns generalizing markers with
  | nil => rfl
  | cons column columns ih =>
      rw [freshColumns]
      split
      · exact ih markers
      · rw [ih, Array.size_setIfInBounds]

variable {sources targets : List (List Nat)}

theorem mem_flatten_of_mem_flatMap {entries : List Nat} {column : Nat}
    (hmember : column ∈ entries.flatMap (targets.getD · [])) : column ∈ targets.flatten := by
  obtain ⟨entry, -, hentry⟩ := List.mem_flatMap.mp hmember
  exact mem_flatten_of_mem_getD hentry

theorem getD_productOf (sources targets : List (List Nat)) (row : Nat) :
    (productOf sources targets).getD row [] = reachedFrom targets (sources.getD row []) := by
  rw [List.getD_eq_getElem?_getD, List.getD_eq_getElem?_getD, productOf, List.getElem?_map]
  cases sources[row]? <;> rfl

theorem mem_getD_productOf {row column : Nat} :
    column ∈ (productOf sources targets).getD row [] ↔
      ∃ middle ∈ sources.getD row [], column ∈ targets.getD middle [] := by
  rw [getD_productOf, reachedFrom, mem_seenAfter, List.mem_flatMap]
  simp

theorem nodup_getD_productOf (row : Nat) :
    ((productOf sources targets).getD row []).Nodup := by
  rw [getD_productOf]
  exact nodup_seenAfter List.nodup_nil _

/-- A product has no columns that the second table does not have. -/
theorem mem_flatten_of_mem_productOf {column : Nat}
    (hmember : column ∈ (productOf sources targets).flatten) : column ∈ targets.flatten := by
  obtain ⟨reached, hreached, hcolumn⟩ := List.mem_flatten.mp hmember
  obtain ⟨entries, -, rfl⟩ := List.mem_map.mp hreached
  obtain hnone | hcolumn := mem_seenAfter.mp hcolumn
  · cases hnone
  · exact mem_flatten_of_mem_flatMap hcolumn

theorem forall_lt_of_mem_productOf {columnCount : Nat}
    (htargets : ∀ column ∈ targets.flatten, column < columnCount) :
    ∀ column ∈ (productOf sources targets).flatten, column < columnCount :=
  fun column hcolumn => htargets column (mem_flatten_of_mem_productOf hcolumn)

theorem columnsNeeded_productOf_le (sources targets : List (List Nat)) :
    columnsNeeded (productOf sources targets).flatten ≤ columnsNeeded targets.flatten :=
  columnsNeeded_le_iff.mpr (forall_lt_of_mem_productOf fun _ => lt_columnsNeeded)

/-- With a marker for every column the rows are those of the product. -/
theorem productRows_eq {row : Nat} {markers : Array (Option Nat)}
    (hmarks : Marks row [] markers) (hcolumns : ∀ column ∈ targets.flatten, column < markers.size)
    (sources : List (List Nat)) :
    productRows targets.toArray row sources markers = productOf sources targets := by
  induction sources generalizing row markers with
  | nil => rfl
  | cons entries sources ih =>
      have hreached : ∀ column ∈ entries.flatMap (targets.getD · []), column < markers.size :=
        fun column hcolumn => hcolumns column (mem_flatten_of_mem_flatMap hcolumn)
      obtain ⟨hfresh, hmarked⟩ := hmarks.freshColumns hreached
      have hrest := ih hmarked.next (by rwa [size_freshColumns])
      have hlookup : (fun entry => targets.toArray.getD entry []) = (targets.getD · []) :=
        funext fun entry => by
          rw [Array.getD_eq_getD_getElem?, List.getElem?_toArray, List.getD_eq_getElem?_getD]
      rw [productRows, hlookup]
      dsimp only
      rw [hrest, productOf, productOf, List.map_cons, reachedFrom, ← hfresh, List.nil_append]

/-- Rows written one after the other start where the rows before them end. -/
theorem exists_writeRows (before after : List Nat) {rows : List (List Nat)} {starts : List Nat}
    (hstarts : starts.length = rows.length) {start : Nat} {offsets columns : Array Nat}
    (hoffsets : offsets.toList = before ++ starts ++ after)
    (hroom : start + rows.flatten.length ≤ columns.size) :
    ∃ moved, writeRows before.length start rows offsets columns =
        .ok (moved, written columns start rows.flatten) ∧
      moved.toList = before ++ (offsetsFrom start (rows.map List.length)).dropLast ++ after := by
  induction rows generalizing before starts start offsets columns with
  | nil =>
      obtain rfl := List.eq_nil_of_length_eq_zero hstarts
      exact ⟨offsets, by rw [List.flatten_nil, written_nil, writeRows],
        by simpa [offsetsFrom] using hoffsets⟩
  | cons entries rows ih =>
      obtain ⟨old, starts, rfl⟩ := List.exists_cons_of_length_eq_add_one hstarts
      rw [List.flatten_cons, List.length_append] at hroom
      have hfits : start + entries.length ≤ columns.size := by omega
      have hnext : (offsets.setIfInBounds before.length start).toList =
          (before ++ [start]) ++ starts ++ after := by
        rw [Array.toList_setIfInBounds, hoffsets]
        simp
      have hrest : start + entries.length + rows.flatten.length ≤
          (written columns start entries).size := by
        rw [size_written hfits]
        omega
      obtain ⟨moved, hwritten, hmoved⟩ :=
        ih (before ++ [start]) (Nat.succ.inj hstarts) hnext hrest
      rw [List.length_append, List.length_singleton, written_written (by omega)] at hwritten
      refine ⟨moved, ?_, ?_⟩
      · rw [writeRows, replaceFrom_eq_ok hfits, Result.ok_bind, hwritten, List.flatten_cons]
      · rw [hmoved, List.map_cons, offsetsFrom,
          List.dropLast_cons_of_ne_nil (offsetsFrom_ne_nil _ _)]
        simp

/-- Rows written over a table of their size make it the table of these rows. -/
theorem writeRows_resized {rows : List (List Nat)} {target : IncidenceTable}
    (hsizes : HasSizes rows.length rows.flatten.length target) :
    (writeRows 0 0 rows target.offsets target.columns >>= fun arrays =>
      .ok { target with offsets := arrays.1, columns := arrays.2 }) = .ok (ofRows rows) := by
  have hoffsets : target.offsets.toList =
      [] ++ target.offsets.toList.dropLast ++ [rows.flatten.length] := by
    have hlast := hsizes.back?_offsets
    rw [← Array.getLast?_toList] at hlast
    exact (List.dropLast_append_getLast? _ hlast).symm
  have hstarts : target.offsets.toList.dropLast.length = rows.length := by
    rw [List.length_dropLast, Array.length_toList, hsizes.size_offsets, Nat.add_sub_cancel]
  obtain ⟨moved, hwritten, hmoved⟩ := exists_writeRows [] [rows.flatten.length] hstarts hoffsets
    (by rw [Nat.zero_add, hsizes.size_columns])
  have hsum := dropLast_offsetsFrom_append 0 (rows.map List.length)
  rw [List.nil_append, List.length_flatten, ← Nat.zero_add (rows.map List.length).sum, hsum]
    at hmoved
  rw [List.length_nil] at hwritten
  rw [hwritten, Result.ok_bind, written_zero hsizes.size_columns.symm, hsizes.isPacked, ofRows,
    ← hmoved, Array.toArray_toList]

/-- Multiplying in terms of the rows: it may fail in finding the widths and in making room for
markers and for the product, and is refused in between. -/
theorem multiplyOnto_eq {first second : IncidenceTable} (hfirst : first.rows = .ok sources)
    (hsecond : second.rows = .ok targets) (target : IncidenceTable) :
    first.multiplyOnto second target = word (columnsNeeded sources.flatten) >>= fun width =>
      if targets.length < width then refuse (.shapeMismatch width targets.length)
      else word (columnsNeeded targets.flatten) >>= fun columnCount =>
        reserve columnCount markerBytes >>= fun _ =>
          target.resize sources.length (productOf sources targets).flatten.length >>= fun _ =>
            .ok (ofRows (productOf sources targets)) := by
  rw [multiplyOnto, width_eq hfirst, width_eq hsecond, length_of_rows_eq_ok hsecond]
  refine congrArg _ (funext fun width => ?_)
  split
  · rfl
  rw [word]
  split
  · rw [Result.ok_bind, Result.ok_bind, hfirst, hsecond, Result.ok_bind, Result.ok_bind,
      ← length_of_rows_eq_ok hfirst]
    refine congrArg _ (funext fun _ => ?_)
    have hmarkers : ∀ column ∈ targets.flatten,
        column < (Array.replicate (columnsNeeded targets.flatten) (none : Option Nat)).size := by
      intro column hcolumn
      rw [Array.size_replicate]
      exact lt_columnsNeeded hcolumn
    have hreached := productRows_eq (Marks.start _) hmarkers sources
    dsimp only
    rw [hreached]
    exact resize_bind_eq fun resized hsizes =>
      writeRows_resized (by rwa [length_productOf])
  · rfl

/-- The product has the rows that were reached. -/
theorem HasCapacities.answers_multiplyOnto {first second : IncidenceTable}
    {firsts seconds : List Nat} (hfirst : first.HasCapacities firsts)
    (hsecond : second.HasCapacities seconds) (target : IncidenceTable) :
    (first.multiplyOnto second target).Answers fun after =>
      ∃ sizes, after.HasCapacities sizes := by
  obtain ⟨sources, hsources, -⟩ := hfirst.exists_rows
  obtain ⟨targets, htargets, -⟩ := hsecond.exists_rows
  rw [multiplyOnto_eq hsources htargets]
  refine (answers_word _).bind fun width _ => ?_
  split
  · exact Result.answers_refuse _ _
  · exact (answers_word _).bind fun _ _ => (answers_reserve _ _).bind fun _ _ =>
      (resize_answers _ _ _).bind fun _ _ => ⟨_, hasCapacities_ofRows _⟩

/-- There is room for a marker for each column of the second table and for what is reached. -/
def CanMultiply (sources targets : List (List Nat)) : Prop :=
  columnsNeeded targets.flatten * markerBytes ≤ byteBound ∧
    (productOf sources targets).flatten.length * wordBytes ≤ byteBound

namespace Stores

variable {first second : IncidenceTable}

theorem multiply_eq (hfirst : first.Stores sources) (hsecond : second.Stores targets) :
    first.multiply second =
      if targets.length < columnsNeeded sources.flatten then
        refuse (.shapeMismatch (columnsNeeded sources.flatten) targets.length)
      else reserve (columnsNeeded targets.flatten) markerBytes >>= fun _ =>
        empty.resize sources.length (productOf sources targets).flatten.length >>= fun _ =>
          .ok (IncidenceTable.ofRows (productOf sources targets)) := by
  rw [multiply, multiplyOnto_eq hfirst.rows_eq hsecond.rows_eq,
    word_eq_ok hfirst.columnsNeeded_lt, Result.ok_bind, word_eq_ok hsecond.columnsNeeded_lt]
  rfl

theorem multiply_eq_refuse (hfirst : first.Stores sources) (hsecond : second.Stores targets)
    (hnarrow : targets.length < columnsNeeded sources.flatten) :
    first.multiply second =
      refuse (.shapeMismatch (columnsNeeded sources.flatten) targets.length) := by
  rw [hfirst.multiply_eq hsecond, if_pos hnarrow]

theorem multiply_eq_ok (hfirst : first.Stores sources) (hsecond : second.Stores targets)
    (hfits : columnsNeeded sources.flatten ≤ targets.length)
    (hroom : CanMultiply sources targets) :
    first.multiply second = .ok (IncidenceTable.ofRows (productOf sources targets)) := by
  rw [hfirst.multiply_eq hsecond, if_neg (Nat.not_lt.mpr hfits),
    reserve, if_pos hroom.1, Result.ok_bind,
    resize_eq_ok ⟨.inr hfirst.length_le, .inr hroom.2⟩, Result.ok_bind]

theorem multiply_runsOut (hfirst : first.Stores sources) (hsecond : second.Stores targets)
    (hfits : columnsNeeded sources.flatten ≤ targets.length)
    (hfull : ¬ CanMultiply sources targets) : (first.multiply second).RunsOut := by
  rw [hfirst.multiply_eq hsecond, if_neg (Nat.not_lt.mpr hfits)]
  by_cases hmarkers : columnsNeeded targets.flatten * markerBytes ≤ byteBound
  · rw [reserve, if_pos hmarkers, Result.ok_bind]
    refine (resize_runsOut fun hroom => hfull ⟨hmarkers, ?_⟩).bind _
    -- Without entries the product takes no room.
    obtain hnone | hroom := hroom.2
    · rw [← show empty.columns.size = _ from hnone]
      decide
    · exact hroom
  · rw [reserve, if_neg hmarkers]
    exact .inr rfl

end Stores

end IncidenceTable

end MeshIncidence
