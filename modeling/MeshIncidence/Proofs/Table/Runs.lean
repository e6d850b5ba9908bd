/-
# Runs of operations on tables

A table is made empty, with free slots, of labels, of rows, from a text or from data, as a
transposed table or as a product, and is then worked on by operations that may succeed or be
refused. `IncidenceTable.Obtained` is what any sequence of these leads to. The sources of
transposed tables and products are tables obtained in the same way.

One lemma says what a single operation does to a table with capacities. By induction every
table of a run has capacities, so that it has no defect, every question about it is answered,
and the next operation does not look for anything that is not there.

`Change.Admissible` is what callers keep to: no slots without rows, no entry replaced that a
row does not have, and a build that places the columns it has counted.
-/

import MeshIncidence.Datum
import MeshIncidence.Proofs.Table.Insertions
import MeshIncidence.Proofs.Table.Targets

namespace MeshIncidence

namespace IncidenceTable

/-- An operation on a table. -/
inductive Change
  | insert (row column : Nat)
  | pack
  | resize (rows slots : Nat)
  | reserveRows (rows capacity : Nat)
  | adopt (offsets columns : List Nat)
  | replaceEntry (row position column : Nat)
  | transposed (source : IncidenceTable) (columnCount : Option Nat)
  | product (first second : IncidenceTable)
  | build (rows : Nat) (counts : List (Nat × Nat)) (placements : List Placement)

namespace Change

/-- What the operation makes of a table. -/
def apply (table : IncidenceTable) : Change → Result IncidenceTable
  | insert row column => do return (← table.insert row column).2
  | pack => table.pack
  | resize rows slots => table.resize rows slots
  | reserveRows rows capacity => table.reserveRows rows capacity
  | adopt offsets columns => checked ⟨offsets.toArray, columns.toArray, none⟩
  | replaceEntry row position column => table.replaceEntry row position column
  | transposed source columnCount => source.transposeOnto table columnCount
  | product first second => first.multiplyOnto second table
  | build rows counts placements => table.build rows counts placements

/-- The tables that the operation reads besides the one it changes. -/
def sources : Change → List IncidenceTable
  | transposed source _ => [source]
  | product first second => [first, second]
  | _ => []

/-- What is promised when the operation is asked for. -/
def Admissible (table : IncidenceTable) : Change → Prop
  | resize rows slots => 0 < rows ∨ slots = 0
  | replaceEntry row position _ => ∃ entries, table.row row = .ok entries ∧ position < entries.length
  | build rows counts placements =>
      (∀ entry ∈ counts, entry.1 < rows) ∧ (∀ placement ∈ placements, placement.entry.1 < rows) ∧
        ∀ row < rows, amountFor row (placements.map Placement.entry) = amountFor row counts
  | _ => True

/-- The operation on the table at hand. A build goes from step to step, as its caller does. -/
def action : Change → Action IncidenceTable Unit
  | insert row column => do let _ ← insertInPlace row column
  | pack => .change IncidenceTable.pack
  | resize rows slots => .change (·.resize rows slots)
  | reserveRows rows capacity => .change (·.reserveRows rows capacity)
  | adopt offsets columns => IncidenceTable.adopt offsets columns
  | replaceEntry row position column => .change (·.replaceEntry row position column)
  | transposed source columnCount => source.transposeInto columnCount
  | product first second => first.multiplyInto second
  | build rows counts placements => do
    Action.change (·.startCounts rows)
    counts.forM fun entry => .change (·.count entry.1 entry.2)
    Action.change layOut
    placements.forM fun placement => .change (placement.apply ·)
    Action.change fun table => .ok table.restoreStarts

/-- The operation, done to the table at hand, succeeds or is refused, and leaves the table
`after`. -/
def Leaves (change : Change) (table after : IncidenceTable) : Prop :=
  change.action.Runs table () after ∨ ∃ error, change.action.Ends table (refuse error) after

end Change

/-- The tables that any sequence of operations leads to. -/
inductive Obtained : IncidenceTable → Prop
  | empty : Obtained empty
  | withCapacity {rows capacity : Nat} {table : IncidenceTable}
      (hmade : withCapacity rows capacity = .ok table) : Obtained table
  | ofLabels (labels : List Nat) : Obtained (ofLabels labels)
  | ofRows (rows : List (List Nat)) : Obtained (ofRows rows)
  | load {bytes : ByteArray} {table : IncidenceTable} (hmade : load bytes = .ok table) :
      Obtained table
  | asTable {datum : Datum} {table : IncidenceTable} (hmade : datum.asTable = .ok table) :
      Obtained table
  | transpose {source table : IncidenceTable} {columnCount : Option Nat} (hsource : Obtained source)
      (hmade : source.transpose columnCount = .ok table) : Obtained table
  | positionsOf {labels : List Nat} {labelCount : Option Nat} {table : IncidenceTable}
      (hmade : positionsOf labels labelCount = .ok table) : Obtained table
  | multiply {first second table : IncidenceTable} (hfirst : Obtained first)
      (hsecond : Obtained second) (hmade : first.multiply second = .ok table) : Obtained table
  | changed {table after : IncidenceTable} (change : Change) (htable : Obtained table)
      (hsources : ∀ source ∈ change.sources, Obtained source)
      (hadmissible : change.Admissible table) (hafter : change.Leaves table after) :
      Obtained after

/-- The table has no defect, every question about it has an answer, and an operation on it
finds what it looks for. -/
structure IsUsable (table : IncidenceTable) : Prop where
  defect?_eq_none : table.defect? = none
  exists_row : ∀ row < table.rowCount, ∃ entries, table.row row = .ok entries ∧
    table.rowSize row = .ok entries.length
  exists_find? : ∀ row column, ∃ slot, table.find? row column = .ok slot
  exists_rows : ∃ rows, table.rows = .ok rows
  exists_saved : ∃ text, table.saved = .ok text
  exists_listing : ∀ layout, ∃ text, table.listing layout = .ok text
  exists_pack : ∃ packed, table.pack = .ok packed ∧ packed.defect? = none
  answers_apply : ∀ change : Change, (∀ source ∈ change.sources, source.Obtained) →
    change.Admissible table → (change.apply table).Answers fun after => after.defect? = none
  /-- Done to the table at hand, the operation leaves what it gives. If it is refused, it has
  changed nothing. -/
  leaves_iff : ∀ change : Change, (∀ source ∈ change.sources, source.Obtained) →
    change.Admissible table → ∀ after, change.Leaves table after ↔
      change.apply table = .ok after ∨ ∃ error, change.apply table = refuse error ∧ after = table

variable {table : IncidenceTable}

theorem hasCapacities_ofLabels (labels : List Nat) :
    (ofLabels labels).HasCapacities (List.replicate labels.length 1) := by
  refine ⟨?_, ?_, ?_⟩
  · rw [offsetsFrom_replicate]
    simp [ofLabels]
  · rw [List.sum_replicate_nat, Nat.mul_one]
    rfl
  · simp [ofLabels]

/-- The last step of an operation that succeeds has succeeded. -/
theorem exists_of_bind_eq_ok {ε α β : Type} {first : Except ε α} {next : α → Except ε β} {value : β}
    (hok : first >>= next = .ok value) : ∃ result, next result = .ok value := by
  cases first with
  | error error => cases hok
  | ok result => exact ⟨result, hok⟩

/-- A table that is read from data has been checked. -/
theorem defect?_of_asTableOf {offsets columns fill : Datum}
    (hmade : Datum.asTableOf offsets columns fill = .ok table) : table.defect? = none := by
  obtain ⟨starts, hmade⟩ := exists_of_bind_eq_ok hmade
  obtain ⟨entries, hmade⟩ := exists_of_bind_eq_ok hmade
  obtain ⟨used, hmade⟩ := exists_of_bind_eq_ok hmade
  dsimp only at hmade
  split at hmade
  · rename_i hnone
    rwa [← Except.ok.inj hmade]
  · cases hmade

theorem defect?_of_asTable {datum : Datum} (hmade : datum.asTable = .ok table) :
    table.defect? = none := by
  unfold Datum.asTable at hmade
  split at hmade
  · split at hmade
    · exact defect?_of_asTableOf hmade
    · cases hmade
  · exact defect?_of_asTableOf hmade
  · cases hmade

theorem defect?_of_load {bytes : ByteArray} (hmade : load bytes = .ok table) :
    table.defect? = none := by
  obtain ⟨text, -, hwords⟩ := Result.bind_eq_ok_iff.mp hmade
  obtain ⟨rowCount, -, hrest⟩ := Result.bind_eq_ok_iff.mp hwords
  obtain ⟨offsets, -, hrest⟩ := Result.bind_eq_ok_iff.mp hrest
  obtain ⟨columns, -, hchecked⟩ := Result.bind_eq_ok_iff.mp hrest
  obtain ⟨rfl, hsound⟩ := defect?_of_checked hchecked
  exact hsound

theorem stages_build (rows : Nat) (counts : List (Nat × Nat)) (placements : List Placement) :
    (Change.build rows counts placements).action.Stages (build · rows counts placements) :=
  .bind (.change _) (.bind (.forM (fun _ => .change _) counts)
    (.bind (.change layOut) (.bind (.forM (fun _ => .change _) placements) (.change _))))

theorem adopt_changes (offsets columns : List Nat) (table : IncidenceTable) :
    (adopt offsets columns).Changes table (checked ⟨offsets.toArray, columns.toArray, none⟩) := by
  cases hchecked : checked ⟨offsets.toArray, columns.toArray, none⟩ with
  | error failure => exact .of_error (Action.ends_ofResult_bind hchecked)
  | ok candidate => exact .of_runs ((Action.runs_ofResult hchecked).bind Action.runs_setState)

/-- What is done to the table at hand is what the operation gives. -/
theorem Change.changes {change : Change}
    (hsources : ∀ source ∈ change.sources, ∃ others, source.HasCapacities others)
    (hadmissible : change.Admissible table) :
    change.action.Changes table (change.apply table) := by
  cases change with
  | insert row column => exact (table.insertInPlace_performs row column).changes
  | pack => exact Action.changes_change _
  | resize rows slots => exact Action.changes_change _
  | reserveRows rows capacity => exact Action.changes_change _
  | adopt offsets columns => exact adopt_changes offsets columns table
  | replaceEntry row position column => exact Action.changes_change _
  | transposed source columnCount =>
      obtain ⟨_, hsource⟩ := hsources source (by simp [sources])
      obtain ⟨rows, hrows, -⟩ := hsource.exists_rows
      exact changes_transposeInto hrows table columnCount
  | product first second =>
      obtain ⟨_, hfirst⟩ := hsources first (by simp [sources])
      obtain ⟨_, hsecond⟩ := hsources second (by simp [sources])
      obtain ⟨_, hfirst, -⟩ := hfirst.exists_rows
      obtain ⟨_, hsecond, -⟩ := hsecond.exists_rows
      exact changes_multiplyInto hfirst hsecond table
  | build rows counts placements =>
      obtain ⟨hcounts, hplacements, hplaced⟩ := hadmissible
      have hplaces : PlacesAsCounted rows counts placements := ⟨hcounts, hplacements, hplaced⟩
      refine (stages_build rows counts placements).changes fun error hrefused => ?_
      by_cases hroom : table.CanBuild rows counts
      · rw [hplaces.build_eq_ok hroom] at hrefused
        cases hrefused
      · exact (hplaces.build_runsOut hroom).ne_refuse error hrefused

/-- The operation leaves what it gives, and if it is refused it has changed nothing. -/
theorem Change.leaves_iff {change : Change} {after : IncidenceTable}
    (hsources : ∀ source ∈ change.sources, ∃ others, source.HasCapacities others)
    (hadmissible : change.Admissible table) : change.Leaves table after ↔
      change.apply table = .ok after ∨
        ∃ error, change.apply table = refuse error ∧ after = table := by
  have hchanges := Change.changes hsources hadmissible
  rw [Leaves, hchanges.runs_iff]
  exact or_congr_right (exists_congr fun error => hchanges.refuses_iff)

/-- One operation on a table with capacities: whatever its outcome, nothing is looked up in
vain, and a table that results has capacities. -/
theorem Change.answers_apply {change : Change} {capacities : List Nat}
    (htable : table.HasCapacities capacities)
    (hsources : ∀ source ∈ change.sources, ∃ others, source.HasCapacities others)
    (hadmissible : change.Admissible table) :
    (change.apply table).Answers fun after => ∃ others, after.HasCapacities others := by
  cases change with
  | insert row column => exact (htable.answers_insert row column).bind fun _ hkept => ⟨_, hkept⟩
  | pack =>
      obtain ⟨packed, sizes, hpacked, hsizes⟩ := htable.exists_pack
      exact Result.answers_of_eq_ok hpacked ⟨sizes, hsizes⟩
  | resize rows slots =>
      exact (htable.answers_resize hadmissible).mono fun _ hsized => hsized.exists_capacities
  | reserveRows rows capacity =>
      exact (htable.answers_reserveRows rows capacity).mono fun _ hreserved => ⟨_, hreserved⟩
  | adopt offsets columns =>
      show (checked _).Answers _
      cases hdefect : (IncidenceTable.mk offsets.toArray columns.toArray none).defect? with
      | none =>
          exact Result.answers_of_eq_ok (checked_eq_ok hdefect) (defect?_eq_none_iff.mp hdefect)
      | some error =>
          rw [checked_eq_refuse hdefect]
          exact Result.answers_refuse _ _
  | replaceEntry row position column =>
      obtain ⟨entries, hrow, hposition⟩ := hadmissible
      obtain ⟨after, hreplaced, hkept⟩ := htable.exists_replaceEntry hrow hposition column
      exact Result.answers_of_eq_ok hreplaced ⟨capacities, hkept⟩
  | transposed source columnCount =>
      obtain ⟨others, hsource⟩ := hsources source (by simp [sources])
      exact hsource.answers_transposeOnto table columnCount
  | product first second =>
      obtain ⟨firsts, hfirst⟩ := hsources first (by simp [sources])
      obtain ⟨seconds, hsecond⟩ := hsources second (by simp [sources])
      exact hfirst.answers_multiplyOnto hsecond table
  | build rows counts placements =>
      obtain ⟨hcounts, hplacements, hplaced⟩ := hadmissible
      exact (answers_build hcounts hplacements hplaced).mono fun _ hbuilt => ⟨_, hbuilt⟩

/-- Along a run every table has capacities. -/
theorem Obtained.exists_capacities (htable : table.Obtained) :
    ∃ capacities, table.HasCapacities capacities := by
  induction htable with
  | empty => exact ⟨[], hasCapacities_empty⟩
  | withCapacity hmade =>
      exact ⟨_, (hasCapacities_empty.answers_reserveRows _ _).of_eq_ok hmade⟩
  | ofLabels labels => exact ⟨_, hasCapacities_ofLabels labels⟩
  | ofRows rows => exact defect?_eq_none_iff.mp (defect?_ofRows rows)
  | load hmade => exact defect?_eq_none_iff.mp (defect?_of_load hmade)
  | asTable hmade => exact defect?_eq_none_iff.mp (defect?_of_asTable hmade)
  | transpose _ hmade ihsource =>
      obtain ⟨others, hsource⟩ := ihsource
      exact (hsource.answers_transposeOnto _ _).of_eq_ok hmade
  | positionsOf hmade => exact (answers_positionsOf _ _).of_eq_ok hmade
  | multiply _ _ hmade ihfirst ihsecond =>
      obtain ⟨firsts, hfirst⟩ := ihfirst
      obtain ⟨seconds, hsecond⟩ := ihsecond
      exact (hfirst.answers_multiplyOnto hsecond _).of_eq_ok hmade
  | changed change _ _ hadmissible hafter ihtable ihsources =>
      obtain ⟨capacities, htable⟩ := ihtable
      obtain hdone | ⟨error, -, rfl⟩ := (Change.leaves_iff ihsources hadmissible).mp hafter
      · exact (Change.answers_apply htable ihsources hadmissible).of_eq_ok hdone
      · exact ⟨capacities, htable⟩

/-- **Layout along runs.** After any sequence of operations, successful or refused, a table has
no defect; looking up rows and columns, listing, saving and packing have an answer; and a
further operation gives such a table again, is refused, or needs a number or an array that is
too large. -/
theorem Obtained.isUsable (htable : table.Obtained) : table.IsUsable := by
  obtain ⟨capacities, hcapacities⟩ := htable.exists_capacities
  obtain ⟨rows, hrows, -⟩ := hcapacities.exists_rows
  obtain ⟨packed, sizes, hpacked, hsizes⟩ := hcapacities.exists_pack
  have hthose {change : Change} (hsources : ∀ source ∈ change.sources, source.Obtained) :
      ∀ source ∈ change.sources, ∃ others, source.HasCapacities others :=
    fun source hsource => (hsources source hsource).exists_capacities
  exact
    { defect?_eq_none := defect?_eq_none_iff.mpr ⟨capacities, hcapacities⟩
      exists_row := by
        intro row hrow
        rw [hcapacities.rowCount_eq] at hrow
        obtain ⟨entries, hentries, hsize, -⟩ :=
          hcapacities.exists_row (List.getElem?_eq_getElem hrow)
        exact ⟨entries, hentries, hsize⟩
      exists_find? := hcapacities.exists_find?
      exists_rows := ⟨rows, hrows⟩
      exists_saved := hcapacities.exists_saved
      exists_listing := hcapacities.exists_listing
      exists_pack := ⟨packed, hpacked, defect?_eq_none_iff.mpr ⟨sizes, hsizes⟩⟩
      answers_apply := by
        intro change hsources hadmissible
        exact (Change.answers_apply hcapacities (hthose hsources) hadmissible).mono
          fun _ hafter => defect?_eq_none_iff.mpr hafter
      leaves_iff := fun change hsources hadmissible after =>
        Change.leaves_iff (hthose hsources) hadmissible }

/-- An operation that succeeds leads on. -/
theorem Obtained.done {after : IncidenceTable} (change : Change) (htable : table.Obtained)
    (hsources : ∀ source ∈ change.sources, source.Obtained) (hadmissible : change.Admissible table)
    (hdone : change.apply table = .ok after) : after.Obtained :=
  .changed change htable hsources hadmissible
    ((htable.isUsable.leaves_iff change hsources hadmissible after).mpr (.inl hdone))

/-- A table with free slots takes three columns, one of them twice, refuses a fourth for want of
its row, and is packed. The result is written over by a transposed table and then built anew,
with the columns of its second row on both sides of that of the first. -/
theorem obtained_rebuilt : Obtained ⟨#[0, 1, 3], #[3, 7, 8], none⟩ := by
  have hempty : Obtained ⟨#[0, 3, 6], #[0, 0, 0, 0, 0, 0], some #[0, 0]⟩ :=
    .withCapacity (show withCapacity 2 3 = _ by decide)
  have hone : Obtained ⟨#[0, 3, 6], #[7, 0, 0, 0, 0, 0], some #[1, 0]⟩ :=
    .done (.insert 0 7) hempty (by simp [Change.sources]) trivial (by decide)
  have htwo : Obtained ⟨#[0, 3, 6], #[7, 0, 0, 5, 0, 0], some #[1, 1]⟩ :=
    .done (.insert 1 5) hone (by simp [Change.sources]) trivial (by decide)
  have hthree : Obtained ⟨#[0, 3, 6], #[7, 4, 0, 5, 0, 0], some #[2, 1]⟩ :=
    .done (.insert 0 4) htwo (by simp [Change.sources]) trivial (by decide)
  have hagain : Obtained ⟨#[0, 3, 6], #[7, 4, 0, 5, 0, 0], some #[2, 1]⟩ :=
    .done (.insert 0 7) hthree (by simp [Change.sources]) trivial (by decide)
  have hrefused : Obtained ⟨#[0, 3, 6], #[7, 4, 0, 5, 0, 0], some #[2, 1]⟩ :=
    .changed (.insert 2 9) hagain (by simp [Change.sources]) trivial
      ((hagain.isUsable.leaves_iff (.insert 2 9) (by simp [Change.sources]) trivial _).mpr
        (.inr ⟨.rowOutOfRange 2 2, by decide, rfl⟩))
  have hpacked : Obtained ⟨#[0, 2, 3], #[7, 4, 5], none⟩ :=
    .done .pack hrefused (by simp [Change.sources]) trivial (by decide)
  have htransposed : Obtained ⟨#[0, 1, 3], #[1, 0, 1], none⟩ :=
    .done (.transposed (ofRows [[1], [0, 1]]) none) hpacked
      (by simpa [Change.sources] using Obtained.ofRows [[1], [0, 1]]) trivial (by decide)
  exact .done (.build 2 [(1, 1), (0, 1), (1, 1)] [.one 1 7, .one 0 3, .one 1 8]) htransposed
    (by simp [Change.sources]) ⟨by decide, by decide, by decide⟩ (by decide)

theorem isUsable_rebuilt : Obtained ⟨#[0, 1, 3], #[3, 7, 8], none⟩ ∧
    IsUsable ⟨#[0, 1, 3], #[3, 7, 8], none⟩ :=
  ⟨obtained_rebuilt, obtained_rebuilt.isUsable⟩

end IncidenceTable

end MeshIncidence
