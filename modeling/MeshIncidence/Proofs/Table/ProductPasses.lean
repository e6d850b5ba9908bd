/-
# The two passes of a product

A product is formed in two passes over what is reached from the rows of the first table. The first
pass counts, so that there is room for the rows; the second one writes them. Both pass by a column
that the row at hand has marked, and both start without marks.

`IncidenceTable.multiplyInPasses` is the product with each look-up made as such, in either pass. A
pass meets the fresh columns of each row and nothing else, whatever it does with them, so the two
agree on what they meet: the count is the number of columns written. This makes the product in two
passes that of `IncidenceTable.multiplyOnto`, and no look-up fails.
-/

import MeshIncidence.Proofs.Table.Products

namespace MeshIncidence

namespace IncidenceTable

section Passes

variable {σ : Type}

/-- Pass by a column that is marked for `row`. Mark any other, and act on it. -/
def visit (act : σ → Nat → Result σ) (row : Nat) :
    Array (Option Nat) × σ → Nat → Result (Array (Option Nat) × σ)
  | (markers, current), column =>
    match markers[column]? with
    | none => stop .outOfRange
    | some mark =>
      if mark = some row then .ok (markers, current)
      else do
        let next ← act current column
        return (markers.setIfInBounds column (some row), next)

/-- Visit what is reached from one row of the first table. -/
def passRow (first second : IncidenceTable) (enter act : σ → Nat → Result σ) :
    Array (Option Nat) × σ → Nat → Result (Array (Option Nat) × σ)
  | (markers, current), row => do
    let entered ← enter current row
    let entries ← first.row row
    entries.foldlM
      (fun state entry => do
        let columns ← second.row entry
        columns.foldlM (visit act row) state)
      (markers, entered)

/-- Visit what is reached from the rows of the first table, without marks at first. -/
def pass (first second : IncidenceTable) (columnCount : Nat) (enter act : σ → Nat → Result σ)
    (start : σ) : Result σ := do
  let (_, finish) ← (List.range first.rowCount).foldlM (passRow first second enter act)
    (Array.replicate columnCount none, start)
  return finish

end Passes

/-- Count what is reached. -/
def countPass (first second : IncidenceTable) (columnCount : Nat) : Result Nat :=
  first.pass second columnCount (fun count _ => .ok count) (fun count _ => .ok (count + 1)) 0

/-- Put down where a row starts. -/
def openRow : Array Nat × Array Nat × Nat → Nat → Result (Array Nat × Array Nat × Nat)
  | (offsets, columns, cursor), row => do
    let offsets ← replaceAt offsets row cursor
    return (offsets, columns, cursor)

/-- Write a column at the cursor. -/
def emit : Array Nat × Array Nat × Nat → Nat → Result (Array Nat × Array Nat × Nat)
  | (offsets, columns, cursor), column => do
    let columns ← replaceAt columns cursor column
    return (offsets, columns, cursor + 1)

/-- Write what is reached. -/
def writePass (first second : IncidenceTable) (columnCount : Nat) (offsets columns : Array Nat) :
    Result (Array Nat × Array Nat × Nat) :=
  first.pass second columnCount openRow emit (offsets, columns, 0)

/-- Write the product over `target`, look-up by look-up. -/
def multiplyInPasses (first second target : IncidenceTable) : Result IncidenceTable := do
  let width ← first.width
  if second.rowCount < width then
    refuse (.shapeMismatch width second.rowCount)
  else do
    let columnCount ← second.width
    reserve columnCount markerBytes
    let count ← first.countPass second columnCount
    let target ← target.resize first.rowCount count
    let (offsets, columns, _) ← first.writePass second columnCount target.offsets target.columns
    return { target with offsets := offsets, columns := columns }

section Meetings

variable {σ : Type} {enter act : σ → Nat → Result σ}

/-- What a pass comes to on given rows, the first of which has number `row`. -/
def overRows (enter act : σ → Nat → Result σ) : Nat → List (List Nat) → σ → Result σ
  | _, [], current => .ok current
  | row, entries :: rows, current => do
    let entered ← enter current row
    let passed ← entries.foldlM act entered
    overRows enter act (row + 1) rows passed

/-- Visits act on the fresh columns, in order. -/
theorem foldlM_visit {row : Nat} {columns : List Nat} {markers : Array (Option Nat)}
    (hcolumns : ∀ column ∈ columns, column < markers.size) (current : σ) :
    columns.foldlM (visit act row) (markers, current) =
      (freshColumns row columns markers).1.foldlM act current >>= fun next =>
        .ok ((freshColumns row columns markers).2, next) := by
  induction columns generalizing markers current with
  | nil => rfl
  | cons column columns ih =>
      obtain ⟨hcolumn, hlater⟩ := List.forall_mem_cons.mp hcolumns
      have hmark : markers[column]? = some markers[column] := Array.getElem?_eq_getElem hcolumn
      rw [List.foldlM_cons, visit, freshColumns]
      simp only [hmark, Option.some.injEq]
      split
      · exact ih hlater current
      · rw [List.foldlM_cons]
        cases act current column with
        | error failure => rfl
        | ok next => exact ih (by simpa using hlater) next

/-- What is looked up entry by entry can be put one after the other first. -/
theorem foldlM_flatMap_of_eq_ok {step : σ → Nat → Result σ} {lookUp : Nat → Result (List Nat)}
    {found : Nat → List Nat} {entries : List Nat}
    (hfound : ∀ entry ∈ entries, lookUp entry = .ok (found entry)) (state : σ) :
    entries.foldlM (fun state entry => do (← lookUp entry).foldlM step state) state =
      (entries.flatMap found).foldlM step state := by
  induction entries generalizing state with
  | nil => rfl
  | cons entry entries ih =>
      obtain ⟨hentry, hlater⟩ := List.forall_mem_cons.mp hfound
      rw [List.foldlM_cons, List.flatMap_cons, List.foldlM_append, hentry, Result.ok_bind]
      exact congrArg _ (funext fun next => ih hlater next)

variable {first second : IncidenceTable} {sources targets : List (List Nat)}

/-- The marks left by a pass do not depend on what it does. -/
theorem exists_foldlM_passRow (enter act : σ → Nat → Result σ)
    (hsecond : second.rows = .ok targets) {row : Nat}
    (hfirst : ∀ position entries, sources[position]? = some entries →
      first.row (row + position) = .ok entries)
    (hentries : ∀ entry ∈ sources.flatten, entry < targets.length)
    (markers : Array (Option Nat)) (hcolumns : ∀ column ∈ targets.flatten, column < markers.size) :
    ∃ marked, ∀ current : σ,
      (List.range' row sources.length).foldlM (passRow first second enter act)
          (markers, current) =
        overRows enter act row (productRows targets.toArray row sources markers) current >>=
          fun finish => .ok (marked, finish) := by
  induction sources generalizing row markers with
  | nil => exact ⟨markers, fun _ => rfl⟩
  | cons entries sources ih =>
      have hrow : first.row row = .ok entries := hfirst 0 entries rfl
      have hown : ∀ entry ∈ entries, second.row entry = .ok (targets.toArray.getD entry []) := by
        intro entry hentry
        have hlt := hentries entry (by simp [hentry])
        rw [row_of_rows_eq_ok hsecond (List.getElem?_eq_getElem hlt),
          Array.getD_eq_getD_getElem?, List.getElem?_toArray, List.getElem?_eq_getElem hlt,
          Option.getD_some]
      have hreached : ∀ column ∈ entries.flatMap fun entry => targets.toArray.getD entry [],
          column < markers.size := by
        intro column hcolumn
        simp only [Array.getD_eq_getD_getElem?, List.getElem?_toArray,
          ← List.getD_eq_getElem?_getD] at hcolumn
        exact hcolumns column (mem_flatten_of_mem_flatMap hcolumn)
      have hnext : ∀ position later, sources[position]? = some later →
          first.row (row + 1 + position) = .ok later := by
        intro position later hlater
        rw [Nat.add_right_comm]
        exact hfirst (position + 1) later hlater
      obtain ⟨marked, hmarked⟩ := ih hnext
        (fun entry hentry => hentries entry (by simp [List.mem_flatten.mp hentry]))
        (freshColumns row (entries.flatMap fun entry => targets.toArray.getD entry []) markers).2
        (by rwa [size_freshColumns])
      refine ⟨marked, fun current => ?_⟩
      rw [List.length_cons, List.range'_succ, List.foldlM_cons, passRow, productRows]
      dsimp only
      rw [overRows, hrow]
      cases enter current row with
      | error failure => rfl
      | ok entered =>
          rw [Result.ok_bind, Result.ok_bind, Result.ok_bind, foldlM_flatMap_of_eq_ok hown,
            foldlM_visit hreached]
          cases (freshColumns row (entries.flatMap fun entry => targets.toArray.getD entry [])
              markers).1.foldlM act entered with
          | error failure => rfl
          | ok passed => exact hmarked passed

/-- A pass meets the rows of the product, whatever it does with them. -/
theorem pass_eq (hfirst : first.rows = .ok sources) (hsecond : second.rows = .ok targets)
    (hfits : columnsNeeded sources.flatten ≤ targets.length) (start : σ) :
    first.pass second (columnsNeeded targets.flatten) enter act start =
      overRows enter act 0 (productOf sources targets) start := by
  have hcolumns : ∀ column ∈ targets.flatten,
      column < (Array.replicate (columnsNeeded targets.flatten) (none : Option Nat)).size := by
    intro column hcolumn
    rw [Array.size_replicate]
    exact lt_columnsNeeded hcolumn
  have hrow : ∀ position entries, sources[position]? = some entries →
      first.row (0 + position) = .ok entries := by
    intro position entries hentries
    rw [Nat.zero_add]
    exact row_of_rows_eq_ok hfirst hentries
  obtain ⟨marked, hpass⟩ := exists_foldlM_passRow enter act hsecond hrow
    (columnsNeeded_le_iff.mp hfits) _ hcolumns
  rw [pass, ← length_of_rows_eq_ok hfirst, List.range_eq_range', hpass,
    productRows_eq (Marks.start _) hcolumns]
  cases overRows enter act 0 (productOf sources targets) start <;> rfl

theorem overRows_count (row count : Nat) (rows : List (List Nat)) :
    overRows (fun count _ => .ok count) (fun count _ => .ok (count + 1)) row rows count =
      .ok (count + rows.flatten.length) := by
  induction rows generalizing row count with
  | nil => rfl
  | cons entries rows ih =>
      have hentries : entries.foldlM (fun count _ => (.ok (count + 1) : Result Nat)) count =
          .ok (count + entries.length) := by
        clear ih
        induction entries generalizing count with
        | nil => rfl
        | cons entry entries ih =>
            rw [List.foldlM_cons, Result.ok_bind, ih, List.length_cons, Nat.add_right_comm,
              Nat.add_assoc]
      rw [overRows, Result.ok_bind, hentries, Result.ok_bind, ih, List.flatten_cons,
        List.length_append, Nat.add_assoc]

/-- Columns written one at a time are written together. -/
theorem foldlM_emit {entries : List Nat} {columns : Array Nat} {cursor : Nat}
    (hroom : cursor + entries.length ≤ columns.size) (offsets : Array Nat) :
    entries.foldlM emit (offsets, columns, cursor) =
      .ok (offsets, written columns cursor entries, cursor + entries.length) := by
  induction entries generalizing columns cursor with
  | nil => rw [written_nil]; rfl
  | cons entry entries ih =>
      rw [List.length_cons] at hroom
      have hcursor : cursor < columns.size := by omega
      have hrest : cursor + 1 + entries.length ≤ (written columns cursor [entry]).size := by
        rw [size_written (by rw [List.length_singleton]; omega)]
        omega
      have hjoined : written (written columns cursor [entry]) (cursor + 1) entries =
          written columns cursor (entry :: entries) :=
        written_written (by rw [List.length_singleton]; omega)
      rw [List.foldlM_cons, emit, replaceAt, if_pos hcursor, setIfInBounds_eq_written _ hcursor]
      simp only [Result.ok_bind, Result.pure_eq_ok]
      rw [ih hrest, hjoined, List.length_cons, Nat.add_right_comm, Nat.add_assoc]

/-- Writing what is met is writing the rows one after the other. -/
theorem overRows_emit {rows : List (List Nat)} {row : Nat} {offsets columns : Array Nat}
    {cursor : Nat} (hrows : row + rows.length ≤ offsets.size)
    (hroom : cursor + rows.flatten.length ≤ columns.size) :
    overRows openRow emit row rows (offsets, columns, cursor) =
      writeRows row cursor rows offsets columns >>= fun arrays =>
        .ok (arrays.1, arrays.2, cursor + rows.flatten.length) := by
  induction rows generalizing row offsets columns cursor with
  | nil => rfl
  | cons entries rows ih =>
      rw [List.length_cons] at hrows
      rw [List.flatten_cons, List.length_append] at hroom
      have hrow : replaceAt offsets row cursor = .ok (offsets.setIfInBounds row cursor) :=
        if_pos (by omega)
      have hfits : cursor + entries.length ≤ columns.size := by omega
      rw [overRows, openRow, hrow, writeRows, replaceFrom_eq_ok hfits]
      simp only [Result.ok_bind, Result.pure_eq_ok]
      rw [foldlM_emit hfits, Result.ok_bind,
        ih (by simp only [Array.size_setIfInBounds]; omega) (by rw [size_written hfits]; omega),
        List.flatten_cons, List.length_append, Nat.add_assoc]

/-- The first pass counts the entries of the product. -/
theorem countPass_eq (hfirst : first.rows = .ok sources) (hsecond : second.rows = .ok targets)
    (hfits : columnsNeeded sources.flatten ≤ targets.length) :
    first.countPass second (columnsNeeded targets.flatten) =
      .ok (productOf sources targets).flatten.length := by
  rw [countPass, pass_eq hfirst hsecond hfits, overRows_count, Nat.zero_add]

/-- The second pass has room for what the first one has counted. -/
theorem writePass_eq (hfirst : first.rows = .ok sources) (hsecond : second.rows = .ok targets)
    (hfits : columnsNeeded sources.flatten ≤ targets.length) {target : IncidenceTable}
    (hsizes : HasSizes sources.length (productOf sources targets).flatten.length target) :
    (first.writePass second (columnsNeeded targets.flatten) target.offsets target.columns >>=
      fun arrays => .ok { target with offsets := arrays.1, columns := arrays.2.1 }) =
        .ok (ofRows (productOf sources targets)) := by
  rw [← length_productOf sources targets] at hsizes
  have hoffsets : 0 + (productOf sources targets).length ≤ target.offsets.size := by
    rw [Nat.zero_add, hsizes.size_offsets]
    exact Nat.le_succ _
  have hcolumns : 0 + (productOf sources targets).flatten.length ≤ target.columns.size := by
    rw [Nat.zero_add, hsizes.size_columns]
  have hwritten := writeRows_resized hsizes
  rw [writePass, pass_eq hfirst hsecond hfits, overRows_emit hoffsets hcolumns]
  cases hrows : writeRows 0 0 (productOf sources targets) target.offsets target.columns with
  | error failure => rwa [hrows] at hwritten
  | ok arrays => rwa [hrows] at hwritten

/-- The two passes give the product, whatever it is written over. -/
theorem multiplyInPasses_eq (hfirst : first.rows = .ok sources) (hsecond : second.rows = .ok targets)
    (target : IncidenceTable) :
    first.multiplyInPasses second target = first.multiplyOnto second target := by
  rw [multiplyInPasses, multiplyOnto_eq hfirst hsecond, width_eq hfirst, width_eq hsecond,
    ← length_of_rows_eq_ok hsecond, ← length_of_rows_eq_ok hfirst]
  rw [word]
  split
  · rw [Result.ok_bind, Result.ok_bind]
    split
    · rfl
    · rename_i hnarrow
      have hfits := Nat.le_of_not_lt hnarrow
      rw [word]
      split
      · rw [Result.ok_bind, Result.ok_bind]
        refine congrArg _ (funext fun _ => ?_)
        rw [countPass_eq hfirst hsecond hfits, Result.ok_bind]
        exact resize_bind_eq fun resized hsizes => writePass_eq hfirst hsecond hfits hsizes
      · rfl
  · rfl

end Meetings

/-- The packed table that has, for each row of a table, what is reached from it. -/
structure IsProductOf (sources targets : List (List Nat)) (product : IncidenceTable) : Prop where
  isPacked_eq : product.isPacked = true
  defect?_eq_none : product.defect? = none
  rowCount_eq : product.rowCount = sources.length
  /-- What the rows hold that the entries name is put one after the other, and of each column the
  first occurrence is kept. -/
  exists_row : ∀ row entries, sources[row]? = some entries → ∃ reached,
    product.row row = .ok reached ∧
      KeepsFirst (entries.flatMap (targets.getD · [])) reached ∧
      ∀ column, column ∈ reached ↔ ∃ entry ∈ entries, column ∈ targets.getD entry []

theorem isProductOf_ofRows (sources targets : List (List Nat)) :
    IsProductOf sources targets (ofRows (productOf sources targets)) where
  isPacked_eq := rfl
  defect?_eq_none := defect?_ofRows _
  rowCount_eq := by rw [rowCount_ofRows, length_productOf]
  exists_row row entries hentries := by
    refine ⟨reachedFrom targets entries, row_ofRows ?_, keepsFirst_seenAfter _, fun column => ?_⟩
    · rw [productOf, List.getElem?_map, hentries, Option.map_some]
    · rw [reachedFrom, mem_seenAfter, List.mem_flatMap]
      simp

/-- What multiplying two tables with given rows comes to. -/
structure MultipliesExactly (first second : IncidenceTable) (sources targets : List (List Nat)) :
    Prop where
  width_eq : first.width = .ok (columnsNeeded sources.flatten)
  rowCount_eq : second.rowCount = targets.length
  /-- It is refused exactly if some column of the first table is no row of the second. -/
  refused_iff : (∃ columnCount rowCount,
      first.multiply second = refuse (.shapeMismatch columnCount rowCount)) ↔
    targets.length < columnsNeeded sources.flatten
  refuse_eq : targets.length < columnsNeeded sources.flatten → first.multiply second =
    refuse (.shapeMismatch (columnsNeeded sources.flatten) targets.length)
  /-- Otherwise all it needs is room. -/
  exists_product : columnsNeeded sources.flatten ≤ targets.length → CanMultiply sources targets →
    ∃ product, first.multiply second = .ok product ∧ IsProductOf sources targets product
  runsOut : columnsNeeded sources.flatten ≤ targets.length → ¬ CanMultiply sources targets →
    (first.multiply second).RunsOut
  /-- Counting and writing in passes of their own come to the same, over whatever table. -/
  inPasses_eq : ∀ target, first.multiplyInPasses second target = first.multiplyOnto second target

/-- **Multiplying.** Two tables are refused if the columns of the first are not rows of the second.
Otherwise, if there is room for the markers and the product, the product lists what the rows named
by a row hold, in order and without repetitions. Both passes meet the same columns. -/
theorem Stores.multipliesExactly {first second : IncidenceTable} {sources targets : List (List Nat)}
    (hfirst : first.Stores sources) (hsecond : second.Stores targets) :
    MultipliesExactly first second sources targets where
  width_eq := hfirst.width_eq_ok
  rowCount_eq := (length_of_rows_eq_ok hsecond.rows_eq).symm
  refused_iff := by
    refine ⟨?_, fun hnarrow => ⟨_, _, hfirst.multiply_eq_refuse hsecond hnarrow⟩⟩
    rintro ⟨columnCount, rowCount, hrefused⟩
    by_contra hwide
    have hfits := Nat.le_of_not_lt hwide
    by_cases hroom : CanMultiply sources targets
    · rw [hfirst.multiply_eq_ok hsecond hfits hroom] at hrefused
      cases hrefused
    · exact (hfirst.multiply_runsOut hsecond hfits hroom).ne_refuse _ hrefused
  refuse_eq hnarrow := hfirst.multiply_eq_refuse hsecond hnarrow
  exists_product hfits hroom :=
    ⟨_, hfirst.multiply_eq_ok hsecond hfits hroom, isProductOf_ofRows _ _⟩
  runsOut hfits hfull := hfirst.multiply_runsOut hsecond hfits hfull
  inPasses_eq target := multiplyInPasses_eq hfirst.rows_eq hsecond.rows_eq target

/-- Five rows, one of them with a repetition. -/
def fiveRows : List (List Nat) := [[9], [5, 2], [], [2, 7, 2], [5]]

theorem stores_fiveRows : (ofRows fiveRows).Stores fiveRows :=
  .ofRows (by decide) (by decide) (by decide)

theorem multipliesExactly_repeatingTable : repeatingTable.Stores [[1, 3, 1], [], [4, 1]] ∧
    (ofRows fiveRows).Stores fiveRows ∧
    ∃ product, repeatingTable.multiply (ofRows fiveRows) = .ok product ∧
      IsProductOf [[1, 3, 1], [], [4, 1]] fiveRows product :=
  ⟨stores_repeatingTable, stores_fiveRows,
    (stores_repeatingTable.multipliesExactly stores_fiveRows).exists_product (by decide)
      ⟨by decide, by decide⟩⟩

example : productOf [[1, 3, 1], [], [4, 1]] fiveRows = [[5, 2, 7], [], [5, 2]] := by decide

/-- The largest column that can be counted takes more markers than there is room for. -/
theorem multiply_largest_column : (ofRows [[0]]).Stores [[0]] ∧
    (ofRows [[wordBound - 2]]).Stores [[wordBound - 2]] ∧
    (ofRows [[0]]).width = .ok 1 ∧ (ofRows [[wordBound - 2]]).rowCount = 1 ∧
    (∀ columnCount rowCount, (ofRows [[0]]).multiply (ofRows [[wordBound - 2]]) ≠
      refuse (.shapeMismatch columnCount rowCount)) ∧
    ¬ ∃ product, (ofRows [[0]]).multiply (ofRows [[wordBound - 2]]) = .ok product := by
  have hfirst : (ofRows [[0]]).Stores [[0]] := .ofRows (by decide) (by decide) (by decide)
  have hsecond : (ofRows [[wordBound - 2]]).Stores [[wordBound - 2]] :=
    .ofRows (by decide) (by decide) (by decide)
  have hrunsOut : ((ofRows [[0]]).multiply (ofRows [[wordBound - 2]])).RunsOut :=
    hfirst.multiply_runsOut hsecond (by decide) fun hroom => absurd hroom.1 (by decide)
  exact ⟨hfirst, hsecond, by decide, rfl, fun _ _ => hrunsOut.ne_refuse _,
    fun ⟨product, hok⟩ => hrunsOut.ne_ok product hok⟩

end IncidenceTable

end MeshIncidence
