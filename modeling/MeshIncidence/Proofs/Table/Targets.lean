/-
# Writing over a table

A transposed table and a product can be written over a table that is there already. Arrays of the
right size are then used again with whatever they hold: old rows, counts, or cursors halfway through
a build. `IncidenceTable.transposeInto` and `IncidenceTable.multiplyInto` do this to the table at
hand, stage by stage, so that what an earlier stage has changed stays changed if a later one fails.

Nothing of the old table survives. Both operations look at all of their input before the first
change, and once the table has its size no stage fails any more. An operation that refuses its input
has therefore changed nothing, and one that succeeds leaves what it gives without a table to write
over.
-/

import MeshIncidence.Proofs.Changes
import MeshIncidence.Proofs.Table.ProductPasses
import MeshIncidence.Proofs.Table.Transposes

namespace MeshIncidence

namespace IncidenceTable

open MeshIncidence.Action

/-- Forget where the rows start, to count there. -/
def clearOffsets (target : IncidenceTable) : IncidenceTable :=
  { target with offsets := Array.replicate target.offsets.size 0 }

/-- Count columns in place of the offsets. -/
def countOver (columns : List Nat) (target : IncidenceTable) : Result IncidenceTable := do
  let counts ← countColumns target.offsets columns
  return { target with offsets := counts }

/-- Put the rows of connections into the slots, with cursors in place of the offsets. -/
def scatterOver (connections : List (Nat × Nat)) (target : IncidenceTable) :
    Result IncidenceTable := do
  let (cursors, columns) ← scatter target.offsets target.columns connections
  return { target with offsets := cursors, columns := columns }

/-- Write the transposed table over the table at hand. -/
def transposeInto (table : IncidenceTable) (columnCount : Option Nat) :
    Action IncidenceTable Unit := do
  let width ← ofResult table.width
  if columnCount.getD width < width then
    ofResult (refuse (.layout (.columnOutside (width - 1) (columnCount.getD width))))
  else do
    let rows ← ofResult table.rows
    change fun target => target.resize (columnCount.getD width) rows.flatten.length
    change fun target => .ok target.clearOffsets
    change (countOver rows.flatten)
    change fun target => .ok { target with offsets := sumCounts target.offsets }
    change (scatterOver (connectionsFrom 0 rows))
    change fun target => .ok target.restoreStarts

/-- Write what is reached into the slots, and where its rows start. -/
def writeOver (first second : IncidenceTable) (columnCount : Nat) (target : IncidenceTable) :
    Result IncidenceTable := do
  let (offsets, columns, _) ← first.writePass second columnCount target.offsets target.columns
  return { target with offsets := offsets, columns := columns }

/-- Write the product over the table at hand. -/
def multiplyInto (first second : IncidenceTable) : Action IncidenceTable Unit := do
  let width ← ofResult first.width
  if second.rowCount < width then
    ofResult (refuse (.shapeMismatch width second.rowCount))
  else do
    let columnCount ← ofResult second.width
    ofResult (reserve columnCount markerBytes)
    let count ← ofResult (first.countPass second columnCount)
    change fun target => target.resize first.rowCount count
    change (first.writeOver second columnCount)

section Outcomes

variable {target : IncidenceTable}

/-- Making something anew succeeds where it could be kept, so it is as well to make it anew. -/
theorem ite_pure_bind_const {α β : Type} {same : Prop} [Decidable same] {kept value : α}
    {fresh : Result α} (hfresh : same → fresh = .ok value) (outcome : Result β) :
    ((if same then pure kept else fresh) >>= fun _ => outcome) = fresh >>= fun _ => outcome := by
  split
  · rename_i hsame
    rw [hfresh hsame]
    rfl
  · rfl

/-- A table that is in memory finds no more room for its arrays than a new one does. -/
theorem resize_bind_const {α : Type} (hoffsets : target.offsets.size * wordBytes ≤ byteBound)
    (hcolumns : target.columns.size * wordBytes ≤ byteBound) (rows slots : Nat)
    (outcome : Result α) :
    target.resize rows slots >>= (fun _ => outcome) =
      (word (rows + 1) >>= zeros) >>= fun _ => zeros slots >>= fun _ => outcome := by
  have hrows : target.rowCount = rows → (rows + 1) * wordBytes ≤ byteBound := by
    rintro rfl
    rcases Nat.eq_zero_or_pos target.offsets.size with hnone | hsome
    · rw [rowCount, hnone]
      decide
    · rwa [rowCount, Nat.sub_add_cancel hsome]
  have hslots : target.columns.size = slots → slots * wordBytes ≤ byteBound := by
    rintro rfl
    exact hcolumns
  rw [resize_eq]
  simp only [bind_assoc, pure_bind]
  rw [ite_pure_bind_const fun hsame => zeros_eq_ok (hslots hsame),
    ite_pure_bind_const fun hsame => zeros_word_eq_ok (hrows hsame), bind_assoc]

theorem resize_bind_eq_empty {α : Type} (hoffsets : target.offsets.size * wordBytes ≤ byteBound)
    (hcolumns : target.columns.size * wordBytes ≤ byteBound) (rows slots : Nat)
    (outcome : Result α) :
    target.resize rows slots >>= (fun _ => outcome) =
      empty.resize rows slots >>= fun _ => outcome := by
  have hempty : empty.offsets.size * wordBytes ≤ byteBound := by decide
  rw [resize_bind_const hoffsets hcolumns, resize_bind_const hempty (by decide)]

theorem transposeOnto_eq_transpose {table : IncidenceTable} {rows : List (List Nat)}
    (hrows : table.rows = .ok rows) (hoffsets : target.offsets.size * wordBytes ≤ byteBound)
    (hcolumns : target.columns.size * wordBytes ≤ byteBound) (columnCount : Option Nat) :
    table.transposeOnto target columnCount = table.transpose columnCount := by
  rw [transpose, transposeOnto_eq hrows, transposeOnto_eq hrows]
  simp only [resize_bind_eq_empty hoffsets hcolumns]

theorem changes_transposeInto {table : IncidenceTable} {rows : List (List Nat)}
    (hrows : table.rows = .ok rows) (target : IncidenceTable) (columnCount : Option Nat) :
    (table.transposeInto columnCount).Changes target (table.transposeOnto target columnCount) := by
  rw [transposeInto, transposeOnto]
  refine .ofResult_bind fun width hwidth => ?_
  rw [width_eq hrows] at hwidth
  obtain rfl := (word_eq_ok_iff.mp hwidth).2
  dsimp only
  split
  · exact .of_error (ends_ofResult _)
  · rename_i hwide
    refine .ofResult_bind fun found hfound => ?_
    obtain rfl := Except.ok.inj (hrows.symm.trans hfound)
    -- Once the table has its size, counting and scattering succeed, so each stage can be followed.
    refine .change_bind fun resized hresized => ?_
    have hsizes := (resize_answers _ _ _).of_eq_ok hresized
    have hfits := columnsNeeded_le_iff.mp (Nat.le_of_not_lt hwide)
    have hok := scatter_resized hfits hsizes
    obtain ⟨counts, hcounted, hrest⟩ := Result.bind_eq_ok_iff.mp hok
    obtain ⟨⟨cursors, columns⟩, hscattered, hrestored⟩ := Result.bind_eq_ok_iff.mp hrest
    have hcounts : countOver rows.flatten (clearOffsets resized) =
        .ok { resized with offsets := counts } := by
      rw [countOver, clearOffsets, hcounted]
      rfl
    have hplaced : scatterOver (connectionsFrom 0 rows)
        { resized with offsets := sumCounts counts } =
          .ok { resized with offsets := cursors, columns := columns } := by
      rw [scatterOver, hscattered]
      rfl
    refine ⟨_, hok, ?_⟩
    refine Runs.bind (runs_change rfl) ?_
    refine Runs.bind (runs_change hcounts) ?_
    refine Runs.bind (runs_change rfl) ?_
    exact Runs.bind (runs_change hplaced) (runs_change hrestored)

variable {first second : IncidenceTable} {sources targets : List (List Nat)}

theorem multiplyOnto_eq_multiply (hfirst : first.rows = .ok sources)
    (hsecond : second.rows = .ok targets) (hoffsets : target.offsets.size * wordBytes ≤ byteBound)
    (hcolumns : target.columns.size * wordBytes ≤ byteBound) :
    first.multiplyOnto second target = first.multiply second := by
  rw [multiply, multiplyOnto_eq hfirst hsecond, multiplyOnto_eq hfirst hsecond]
  simp only [resize_bind_eq_empty hoffsets hcolumns]

theorem changes_multiplyInto (hfirst : first.rows = .ok sources)
    (hsecond : second.rows = .ok targets) (target : IncidenceTable) :
    (first.multiplyInto second).Changes target (first.multiplyOnto second target) := by
  rw [← multiplyInPasses_eq hfirst hsecond, multiplyInto, multiplyInPasses]
  refine .ofResult_bind fun width hwidth => ?_
  rw [width_eq hfirst] at hwidth
  obtain rfl := (word_eq_ok_iff.mp hwidth).2
  dsimp only
  split
  · exact .of_error (ends_ofResult _)
  · rename_i hwide
    have hfits := Nat.le_of_not_lt hwide
    rw [← length_of_rows_eq_ok hsecond] at hfits
    refine .ofResult_bind fun columnCount hcolumnCount => ?_
    rw [width_eq hsecond] at hcolumnCount
    obtain rfl := (word_eq_ok_iff.mp hcolumnCount).2
    refine .ofResult_bind fun _ _ => .ofResult_bind fun count hcount => ?_
    obtain rfl := Except.ok.inj ((countPass_eq hfirst hsecond hfits).symm.trans hcount)
    refine .change_bind fun resized hresized => ?_
    have hsizes := (resize_answers _ _ _).of_eq_ok hresized
    rw [← length_of_rows_eq_ok hfirst] at hsizes
    have hok := writePass_eq hfirst hsecond hfits hsizes
    exact ⟨_, hok, runs_change hok⟩

end Outcomes

/-- What is written over `target` is what is given without it. An operation on the table at hand
succeeds with just this, and leaves the table alone if it refuses its input. -/
structure WritesOver (first second target : IncidenceTable) : Prop where
  transposeOnto_eq : ∀ columnCount,
    first.transposeOnto target columnCount = first.transpose columnCount
  transposeInto_runs_iff : ∀ columnCount after,
    (first.transposeInto columnCount).Runs target () after ↔
      first.transpose columnCount = .ok after
  transposeInto_refuses_iff : ∀ columnCount error left,
    (first.transposeInto columnCount).Ends target (refuse error) left ↔
      first.transpose columnCount = refuse error ∧ left = target
  multiplyOnto_eq : first.multiplyOnto second target = first.multiply second
  multiplyInto_runs_iff : ∀ after,
    (first.multiplyInto second).Runs target () after ↔ first.multiply second = .ok after
  multiplyInto_refuses_iff : ∀ error left,
    (first.multiplyInto second).Ends target (refuse error) left ↔
      first.multiply second = refuse error ∧ left = target

/-- **Writing over a table.** Transposing a table without defect, or multiplying two of them, comes
to the same over any table in memory, of whatever sizes and with whatever contents. -/
theorem writesOver {first second target : IncidenceTable} (hfirst : first.defect? = none)
    (hsecond : second.defect? = none) (hoffsets : target.offsets.size * wordBytes ≤ byteBound)
    (hcolumns : target.columns.size * wordBytes ≤ byteBound) :
    WritesOver first second target := by
  obtain ⟨_, hsources⟩ := defect?_eq_none_iff.mp hfirst
  obtain ⟨sources, hsources, -⟩ := hsources.exists_rows
  obtain ⟨_, htargets⟩ := defect?_eq_none_iff.mp hsecond
  obtain ⟨targets, htargets, -⟩ := htargets.exists_rows
  have htranspose := transposeOnto_eq_transpose hsources hoffsets hcolumns
  have hmultiply := multiplyOnto_eq_multiply hsources htargets hoffsets hcolumns
  have htransposing := changes_transposeInto hsources target
  have hmultiplying := changes_multiplyInto hsources htargets target
  simp only [htranspose] at htransposing
  rw [hmultiply] at hmultiplying
  exact {
    transposeOnto_eq := htranspose
    transposeInto_runs_iff := fun columnCount _ => (htransposing columnCount).runs_iff
    transposeInto_refuses_iff := fun columnCount _ _ => (htransposing columnCount).refuses_iff
    multiplyOnto_eq := hmultiply
    multiplyInto_runs_iff := fun _ => hmultiplying.runs_iff
    multiplyInto_refuses_iff := fun _ _ => hmultiplying.refuses_iff }

/-- Three rows halfway through a build: two columns have been placed in the first of them and one in
the second, so two offsets are cursors. -/
def halfwayTable : IncidenceTable := ⟨#[2, 3, 5, 5], #[8, 8, 1, 0, 0], none⟩

theorem writesOver_halfwayTable : repeatingTable.defect? = none ∧ (ofRows fiveRows).defect? = none ∧
    halfwayTable.offsets.size * wordBytes ≤ byteBound ∧
    halfwayTable.columns.size * wordBytes ≤ byteBound ∧
    (repeatingTable.multiplyInto (ofRows fiveRows)).Runs halfwayTable ()
      ⟨#[0, 3, 3, 5], #[5, 2, 7, 5, 2], none⟩ ∧
    (repeatingTable.transposeInto (some 4)).Ends halfwayTable
      (refuse (.layout (.columnOutside 4 4))) halfwayTable := by
  have hover : WritesOver repeatingTable (ofRows fiveRows) halfwayTable :=
    writesOver stores_repeatingTable.defect?_eq_none (defect?_ofRows fiveRows) (by decide)
      (by decide)
  exact ⟨stores_repeatingTable.defect?_eq_none, defect?_ofRows fiveRows, by decide, by decide,
    (hover.multiplyInto_runs_iff _).mpr (by decide),
    (hover.transposeInto_refuses_iff _ _ _).mpr ⟨by decide, rfl⟩⟩

end IncidenceTable

end MeshIncidence
