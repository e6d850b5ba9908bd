/-
# Names that operations leave alone

Binding sets to a mesh and letting them follow a refinement change lists of members, tables and
counts, and never a name. This holds for any mesh, also for one whose answers do not fit together,
and of an operation that fails in the middle.

`Action.Mirrors` relates two actions on different states of which one shows the other, with the same
outcome and the same notes. An action that keeps an invariant is one that mirrors itself, so that
the rules by which actions are put together are stated once.
-/

import Mathlib.Tactic.SplitIfs
import MeshIncidence.SetCatalog.Refinement
import MeshIncidence.Proofs.Outcome

namespace MeshIncidence

namespace Action

variable {σ τ α β : Type}

/-- From a state and from what it shows, the actions go the same way to a state with the invariant
and to what that one shows. -/
def Mirrors (shown : σ → τ) (invariant : σ → Prop) (before : σ) (action : Action σ α)
    (model : Action τ α) : Prop :=
  ∀ notes, ∃ outcome after written, invariant after ∧
    action.run ⟨before, notes⟩ = ending outcome ⟨after, written⟩ ∧
    model.run ⟨shown before, notes⟩ = ending outcome ⟨shown after, written⟩

/-- An action keeps an invariant, however it ends. -/
def Preserves (action : Action σ α) (invariant : σ → Prop) : Prop :=
  ∀ before, invariant before → Mirrors id invariant before action action

namespace Mirrors

variable {shown : σ → τ} {invariant : σ → Prop} {before : σ}

theorem ofResult (hbefore : invariant before) (outcome : Result α) :
    Mirrors shown invariant before (ofResult outcome) (ofResult outcome) := by
  intro notes
  refine ⟨outcome, before, notes, hbefore, ?_⟩
  cases outcome <;> exact ⟨rfl, rfl⟩

theorem pure (hbefore : invariant before) (value : α) :
    Mirrors shown invariant before (pure value) (pure value) :=
  ofResult hbefore (.ok value)

theorem setState {after : σ} (hafter : invariant after) :
    Mirrors shown invariant before (setState after) (setState (shown after)) :=
  fun notes => ⟨.ok (), after, notes, hafter, rfl, rfl⟩

theorem note (hbefore : invariant before) (message : Note) :
    Mirrors shown invariant before (note message) (note message) :=
  fun notes => ⟨.ok (), before, notes ++ [message], hbefore, rfl, rfl⟩

/-- The first actions decide with which states the second ones start. -/
theorem bind {action : Action σ α} {model : Action τ α} {next : α → Action σ β}
    {modelNext : α → Action τ β} (hfirst : Mirrors shown invariant before action model)
    (hnext : ∀ value after, invariant after →
      Mirrors shown invariant after (next value) (modelNext value)) :
    Mirrors shown invariant before (action >>= next) (model >>= modelNext) := by
  intro notes
  obtain ⟨outcome, middle, early, hmiddle, hrun, hmodel⟩ := hfirst notes
  cases outcome with
  | error failure =>
      exact ⟨.error failure, middle, early, hmiddle, by simp [hrun, ending],
        by simp [hmodel, ending]⟩
  | ok value =>
      obtain ⟨last, after, written, hafter, hlast, hshown⟩ := hnext value middle hmiddle early
      exact ⟨last, after, written, hafter, by simp [hrun, ending, hlast],
        by simp [hmodel, ending, hshown]⟩

theorem state_bind {next : σ → Action σ α} {modelNext : τ → Action τ α}
    (hnext : Mirrors shown invariant before (next before) (modelNext (shown before))) :
    Mirrors shown invariant before (state >>= next) (state >>= modelNext) := hnext

/-- An outcome that depends on no state is the same for both. -/
theorem ofResult_bind (hbefore : invariant before) (outcome : Result α)
    {next : α → Action σ β} {modelNext : α → Action τ β} (hnext : ∀ value, outcome = .ok value →
      Mirrors shown invariant before (next value) (modelNext value)) :
    Mirrors shown invariant before (Action.ofResult outcome >>= next)
      (Action.ofResult outcome >>= modelNext) := by
  cases outcome with
  | error failure => exact fun notes => ⟨.error failure, before, notes, hbefore, rfl, rfl⟩
  | ok value => exact hnext value rfl

/-- Each may go on with a value of its own that is made of the outcome. -/
theorem ofResult_map_bind {γ : Type} (hbefore : invariant before) (outcome : Result γ)
    (change : γ → α) {next : α → Action σ β} {modelNext : γ → Action τ β}
    (hnext : ∀ value, Mirrors shown invariant before (next (change value)) (modelNext value)) :
    Mirrors shown invariant before (Action.ofResult (change <$> outcome) >>= next)
      (Action.ofResult outcome >>= modelNext) := by
  cases outcome with
  | error failure => exact fun notes => ⟨.error failure, before, notes, hbefore, rfl, rfl⟩
  | ok value => exact hnext value

theorem forM_note (hbefore : invariant before) (messages : List Note) :
    Mirrors shown invariant before (messages.forM Action.note) (messages.forM Action.note) := by
  induction messages generalizing before with
  | nil => exact pure hbefore ()
  | cons message messages ih => exact (note hbefore message).bind fun _ _ hafter => ih hafter

/-- Performing both shows the same outcome and notes. -/
theorem perform {action : Action σ α} {model : Action τ α}
    (hmirrors : Mirrors shown invariant before action model) :
    ∃ outcome after notes, invariant after ∧ action.perform before = (outcome, ⟨after, notes⟩) ∧
      model.perform (shown before) = (outcome, ⟨shown after, notes⟩) := by
  obtain ⟨outcome, after, notes, hafter, hrun, hmodel⟩ := hmirrors []
  refine ⟨outcome, after, notes, hafter, ?_⟩
  cases outcome <;> simp [Action.perform, hrun, hmodel, ending]

end Mirrors

end Action

/-- The sets of each kind have given names, in order. -/
def SetsByKind.HasNames {α : Type} (sets : SetsByKind α) (names : Kind → List String) : Prop :=
  ∀ kind, (sets.get kind).map NamedSet.name = names kind

theorem SetsByKind.HasNames.set {α : Type} {sets : SetsByKind α} {names : Kind → List String}
    (hnames : sets.HasNames names) {kind : Kind} {changed : List (NamedSet α)}
    (hchanged : changed.map NamedSet.name = names kind) :
    HasNames (sets.set kind changed : SetsByKind α) names := by
  intro other
  by_cases hother : other = kind
  · subst hother
    rw [PerKind.get_set_self, hchanged]
  · rw [PerKind.get_set_of_ne _ _ hother, hnames other]

namespace Bound

variable {M α : Type}

/-- The sets of each kind have given names, in order. -/
def HasNames (names : Kind → List String) (bound : Bound M) : Prop :=
  bound.catalog.sets.HasNames names

/-- Whatever names the sets have, the action leaves them these names, however it ends. -/
def KeepsNames (action : Action (Bound M) α) : Prop :=
  ∀ names, action.Preserves (HasNames names)

theorem keepsNames_setTable (which : DerivedTable) (table : Option IncidenceTable) :
    KeepsNames (setTable which table : Action (Bound M) Unit) :=
  fun _ _ hnames => .state_bind (.setState hnames)

theorem map_name_splitSets (size : Nat) (children : Nat → List (Result Nat)) (noteOf : Nat → Note)
    (sets : List (NamedSet Nat)) :
    (splitSets size children noteOf sets).1.map NamedSet.name = sets.map NamedSet.name := by
  induction sets with
  | nil => rfl
  | cons set sets ih =>
      rw [splitSets]
      obtain ⟨families, failure⟩ := familiesUpToFailure children set.members
      cases failure with
      | some failure => rfl
      | none => exact congrArg (set.name :: ·) ih

theorem map_name_splitElementSets {catalog : SetCatalog} {size : Nat} {sets : List (NamedSet Nat)}
    (hsets : catalog.splitElementSets size = .ok sets) :
    sets.map NamedSet.name = catalog.sets.element.map NamedSet.name := by
  refine Result.map_eq_of_mapM_eq_ok hsets fun set split hsplit => ?_
  obtain ⟨families, -, hvalue⟩ := Result.bind_eq_ok_iff.mp hsplit
  rw [← Except.ok.inj hvalue]

theorem preserves_applySplit {names : Kind → List String} {kind : Kind}
    {split : List (NamedSet Nat) × List Note × Option Failure}
    (hsplit : split.1.map NamedSet.name = names kind) :
    (applySplit kind split : Action (Bound M) Unit).Preserves (HasNames names) := by
  obtain ⟨sets, notes, failure⟩ := split
  refine fun before hnames => .state_bind ?_
  -- What is written back has been read before the notes.
  refine (Action.Mirrors.forM_note hnames notes).bind fun _ _ _ => ?_
  have hafter : HasNames names ⟨{ before.catalog with
      sets := before.catalog.sets.set kind sets }, before.mesh⟩ := hnames.set hsplit
  refine (Action.Mirrors.setState hafter).bind fun _ _ hend => ?_
  cases failure with
  | some failure => exact .ofResult hend (.error failure)
  | none => exact .pure hend ()

theorem keepsNames_splitElementSets (size : Nat) :
    KeepsNames (splitElementSets size : Action (Bound M) Unit) := by
  refine fun names before hnames => .state_bind ?_
  refine (Action.Mirrors.note hnames _).bind fun _ after hafter => ?_
  refine .ofResult_bind hafter _ fun sets hsets => ?_
  have hend : HasNames names ⟨{ before.catalog with
      sets := before.catalog.sets.set .element sets }, before.mesh⟩ :=
    hnames.set ((map_name_splitElementSets hsets).trans (hnames .element))
  exact .setState hend

variable [Connectivity M]

theorem keepsNames_obtain (which : DerivedTable) :
    KeepsNames (obtain which : Action (Bound M) IncidenceTable) := by
  refine fun names before hnames => .state_bind ?_
  dsimp only [id_eq]
  split
  · exact .pure hnames _
  · refine (Action.Mirrors.note hnames _).bind fun _ after hafter => ?_
    refine .ofResult_bind hafter _ fun handed _ => ?_
    have hleft : HasNames names ⟨before.catalog, handed.2⟩ := hnames
    exact (Action.Mirrors.setState hleft).bind fun _ last hlast => .pure hlast _

theorem keepsNames_renewTable (needed : Bool) (which : DerivedTable) :
    KeepsNames (renewTable needed which : Action (Bound M) Unit) := by
  intro names before hnames
  cases needed with
  | false => exact keepsNames_setTable which none names before hnames
  | true =>
      exact (keepsNames_obtain which names before hnames).bind fun table after hafter =>
        keepsNames_setTable which (some table) names after hafter

theorem keepsNames_rebind : KeepsNames (rebind : Action (Bound M) Unit) := by
  refine fun names before hnames => .state_bind ?_
  refine (keepsNames_renewTable _ .edgeVertex names _ hnames).bind fun _ _ hafter => ?_
  refine (keepsNames_renewTable _ .faceVertex names _ hafter).bind fun _ _ hafter => ?_
  refine (keepsNames_renewTable _ .faceEdge names _ hafter).bind fun _ last hlast => ?_
  refine .state_bind ?_
  have hbound : HasNames names ⟨{ SetCatalog.ofMesh last.mesh with
      sets := last.catalog.sets
      tables := last.catalog.tables }, last.mesh⟩ := hlast
  exact (Action.Mirrors.setState hbound).bind fun _ _ hend => .ofResult hend _

theorem keepsNames_splitEdgeSets : KeepsNames (splitEdgeSets : Action (Bound M) Unit) := by
  refine fun names before hnames => .state_bind ?_
  dsimp only [id_eq]
  split_ifs
  · refine .ofResult_bind hnames _ fun edges _ => ?_
    cases before.catalog.tables.edgeVertex with
    | none => exact .ofResult hnames (.error _)
    | some edgeVertex =>
        refine preserves_applySplit ?_ before hnames
        rw [map_name_splitSets]
        exact hnames .edge
  · exact .pure hnames ()

theorem keepsNames_splitFaceSets : KeepsNames (splitFaceSets : Action (Bound M) Unit) := by
  refine fun names before hnames => .state_bind ?_
  dsimp only [id_eq]
  split_ifs
  · refine .ofResult_bind hnames _ fun faces _ => ?_
    refine .ofResult_bind hnames _ fun firstCenter _ => ?_
    cases before.catalog.tables.faceVertex with
    | none => exact .ofResult hnames (.error _)
    | some faceVertex =>
        cases before.catalog.tables.faceEdge with
        | none => exact .ofResult hnames (.error _)
        | some faceEdge =>
            refine preserves_applySplit ?_ before hnames
            rw [map_name_splitSets]
            exact hnames .face
  · exact .pure hnames ()

theorem keepsNames_followQuadrilaterals :
    KeepsNames (followQuadrilaterals : Action (Bound M) Unit) := by
  intro names before hnames
  refine (keepsNames_splitEdgeSets names before hnames).bind fun _ _ hafter => ?_
  refine (keepsNames_splitElementSets 4 names _ hafter).bind fun _ _ hafter => ?_
  exact keepsNames_rebind names _ hafter

theorem keepsNames_followHexahedra : KeepsNames (followHexahedra : Action (Bound M) Unit) := by
  intro names before hnames
  refine (keepsNames_splitEdgeSets names before hnames).bind fun _ _ hafter => ?_
  refine (keepsNames_splitFaceSets names _ hafter).bind fun _ _ hafter => ?_
  refine (keepsNames_splitElementSets 8 names _ hafter).bind fun _ _ hafter => ?_
  exact keepsNames_rebind names _ hafter

end Bound

end MeshIncidence
