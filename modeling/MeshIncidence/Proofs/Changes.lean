/-
# Operations done to the state at hand

Most operations are functions that give an outcome. Their callers have one state and let it be
changed, in stages, so that a failure may come too late: after it the state is what the stages
before have made of it.

For an insertion that does not happen, and `Action.Performs` says so: the action has the value and
the state that the function gives, or it fails as the function does and has changed nothing. An
operation in many stages need not keep the state if it runs out of memory. What it owes its caller
is `Action.Changes`: a refusal comes before the first change. `Action.Stages` describes such
operations by their parts.
-/

import MeshIncidence.Proofs.Outcome

namespace MeshIncidence

namespace Action

variable {σ α β : Type} {before middle after : σ}

/-- The state that performing an action leads to, whether it succeeds or not. -/
def reached (action : Action σ α) (before : σ) : σ := (action.perform before).2.state

theorem Ends.reached_eq {action : Action σ α} {outcome : Result α}
    (hends : action.Ends before outcome after) : action.reached before = after := by
  obtain ⟨notes, hshown⟩ := hends.perform
  rw [reached, hshown]

/-- The action does to the state at hand what an operation gives: it leads to the value and the
state of the outcome, and if the outcome is a failure it fails likewise and has changed nothing. -/
structure Performs (action : Action σ α) (before : σ) (outcome : Result (α × σ)) : Prop where
  runs : ∀ value after, outcome = .ok (value, after) → action.Runs before value after
  fails : ∀ failure, outcome = .error failure → action.Ends before (.error failure) before

namespace Performs

variable {action : Action σ α} {outcome : Result (α × σ)}

theorem of_runs {value : α} (hruns : action.Runs before value after) :
    action.Performs before (.ok (value, after)) where
  runs other last hother := by
    obtain ⟨rfl, rfl⟩ := Prod.mk.inj (Except.ok.inj hother)
    exact hruns
  fails := nofun

theorem of_error {failure : Failure} (hends : action.Ends before (.error failure) before) :
    action.Performs before (.error failure) where
  runs := nofun
  fails other hother := by
    obtain rfl := Except.error.inj hother
    exact hends

theorem state_bind {next : σ → Action σ α} (hnext : (next before).Performs before outcome) :
    (state >>= next).Performs before outcome where
  runs value after hok := runs_state.bind (hnext.runs value after hok)
  fails failure herror := runs_state.bind (hnext.fails failure herror)

/-- Looking at an outcome changes nothing. -/
theorem ofResult_bind {first : Result β} {next : β → Action σ α} {operation : β → Result (α × σ)}
    (hnext : ∀ value, first = .ok value → (next value).Performs before (operation value)) :
    (ofResult first >>= next).Performs before (first >>= operation) := by
  cases hfirst : first with
  | error failure => exact of_error (ends_ofResult_bind rfl)
  | ok value => exact ofResult_ok_bind value next ▸ hnext value hfirst

theorem reached_of_eq_ok (hperforms : action.Performs before outcome) {value : α}
    (hok : outcome = .ok (value, after)) : action.reached before = after :=
  (hperforms.runs value after hok).reached_eq

theorem reached_of_eq_error (hperforms : action.Performs before outcome) {failure : Failure}
    (herror : outcome = .error failure) : action.reached before = before :=
  (hperforms.fails failure herror).reached_eq

/-- The action answers what the operation answers. -/
theorem fst_perform (hperforms : action.Performs before outcome) :
    (action.perform before).1 = outcome.map Prod.fst := by
  cases houtcome : outcome with
  | error failure =>
      obtain ⟨notes, hshown⟩ := (hperforms.fails failure houtcome).perform
      rw [hshown]
      rfl
  | ok result =>
      obtain ⟨notes, hshown⟩ := (hperforms.runs result.1 result.2 houtcome).perform
      rw [hshown]
      rfl

end Performs

/-- The action changes the state to the outcome of an operation. Where the operation refuses, it
changes nothing. -/
structure Changes (action : Action σ Unit) (before : σ) (outcome : Result σ) : Prop where
  runs : ∀ after, outcome = .ok after → action.Runs before () after
  refuses : ∀ error, outcome = refuse error → action.Ends before (refuse error) before
  fails : ∀ failure, outcome = .error failure → ∃ left, action.Ends before (.error failure) left

namespace Changes

/-- An action that fails may have changed nothing. -/
theorem of_error {action : Action σ Unit} {failure : Failure}
    (hends : action.Ends before (.error failure) before) :
    action.Changes before (.error failure) where
  runs := nofun
  refuses error hrefused := by
    obtain rfl := Except.error.inj hrefused
    exact hends
  fails other hfailed := by
    obtain rfl := Except.error.inj hfailed
    exact ⟨before, hends⟩

theorem of_runs {action : Action σ Unit} (hruns : action.Runs before () after) :
    action.Changes before (.ok after) where
  runs _ hother := Except.ok.inj hother ▸ hruns
  refuses := nofun
  fails := nofun

/-- Looking at an outcome changes nothing. -/
theorem ofResult_bind {first : Result α} {next : α → Action σ Unit} {operation : α → Result σ}
    (hnext : ∀ value, first = .ok value → (next value).Changes before (operation value)) :
    (ofResult first >>= next).Changes before (first >>= operation) := by
  cases hfirst : first with
  | error failure => exact of_error (ends_ofResult_bind rfl)
  | ok value => exact ofResult_ok_bind value next ▸ hnext value hfirst

/-- If all succeeds after a first change, a refusal comes before it. -/
theorem change_bind {operation finish : σ → Result σ} {next : Unit → Action σ Unit}
    (hnext : ∀ middle, operation before = .ok middle →
      ∃ after, finish middle = .ok after ∧ (next ()).Runs middle () after) :
    (change operation >>= next).Changes before (operation before >>= finish) := by
  cases hchanged : operation before with
  | error failure => exact of_error ((ends_change hchanged).bind_error)
  | ok middle =>
      obtain ⟨after, hfinished, hruns⟩ := hnext middle hchanged
      rw [Result.ok_bind, hfinished]
      exact of_runs ((runs_change hchanged).bind hruns)

variable {action : Action σ Unit} {outcome : Result σ}

theorem runs_iff (hchanges : action.Changes before outcome) :
    action.Runs before () after ↔ outcome = .ok after := by
  refine ⟨fun hruns => ?_, hchanges.runs after⟩
  cases houtcome : outcome with
  | ok other => exact congrArg _ (hruns.unique (hchanges.runs other houtcome)).2.symm
  | error failure =>
      obtain ⟨left, hends⟩ := hchanges.fails failure houtcome
      cases (hruns.unique hends).1

theorem refuses_iff (hchanges : action.Changes before outcome) {error : Error} {left : σ} :
    action.Ends before (refuse error) left ↔ outcome = refuse error ∧ left = before := by
  constructor
  · intro hends
    cases houtcome : outcome with
    | ok other => cases (hends.unique (hchanges.runs other houtcome)).1
    | error failure =>
        obtain ⟨last, hlast⟩ := hchanges.fails failure houtcome
        obtain rfl := Except.error.inj (hends.unique hlast).1
        exact ⟨rfl, (hends.unique (hchanges.refuses error houtcome)).2⟩
  · rintro ⟨hrefused, rfl⟩
    exact hchanges.refuses error hrefused

end Changes

/-- The action does an operation stage by stage. If the operation fails, the stages before are done
already. -/
structure Stages (action : Action σ Unit) (operation : σ → Result σ) : Prop where
  runs : ∀ before after, operation before = .ok after → action.Runs before () after
  fails : ∀ before failure, operation before = .error failure →
    ∃ left, action.Ends before (.error failure) left

namespace Stages

/-- One stage fails without a change. -/
theorem change (operation : σ → Result σ) : (Action.change operation).Stages operation where
  runs _ _ := runs_change
  fails before _ herror := ⟨before, ends_change herror⟩

theorem bind {first second : Action σ Unit} {operation finish : σ → Result σ}
    (hfirst : first.Stages operation) (hsecond : second.Stages finish) :
    (first >>= fun _ => second).Stages fun before => operation before >>= finish where
  runs before after hok := by
    obtain ⟨middle, hmiddle, hrest⟩ := Result.bind_eq_ok_iff.mp hok
    exact (hfirst.runs before middle hmiddle).bind (hsecond.runs middle after hrest)
  fails before failure herror := by
    cases hmiddle : operation before with
    | error other =>
        rw [hmiddle, Result.error_bind] at herror
        obtain ⟨left, hends⟩ := hfirst.fails before other hmiddle
        exact ⟨left, Except.error.inj herror ▸ hends.bind_error⟩
    | ok middle =>
        rw [hmiddle, Result.ok_bind] at herror
        obtain ⟨left, hends⟩ := hsecond.fails middle failure herror
        exact ⟨left, (hfirst.runs before middle hmiddle).bind hends⟩

/-- A loop has a stage for each member. -/
theorem forM {step : α → Action σ Unit} {operation : σ → α → Result σ}
    (hstep : ∀ member, (step member).Stages (operation · member)) (members : List α) :
    (members.forM step).Stages (members.foldlM operation) := by
  induction members with
  | nil => exact ⟨fun before _ hok => Except.ok.inj hok ▸ runs_pure (), nofun⟩
  | cons member members ih => exact (hstep member).bind ih

/-- An operation that refuses nothing is a change, whatever its stages have done. -/
theorem changes {action : Action σ Unit} {operation : σ → Result σ}
    (hstages : action.Stages operation) (hnever : ∀ error, operation before ≠ refuse error) :
    action.Changes before (operation before) where
  runs := hstages.runs before
  refuses error hrefused := absurd hrefused (hnever error)
  fails := hstages.fails before

end Stages

theorem changes_change (operation : σ → Result σ) :
    (change operation).Changes before (operation before) where
  runs _ := runs_change
  refuses _ := ends_change
  fails _ herror := ⟨before, ends_change herror⟩

/-- An action in place is a change if its value is dropped. -/
theorem Performs.changes {action : Action σ α} {outcome : Result (α × σ)}
    (hperforms : action.Performs before outcome) :
    (action >>= fun _ => pure ()).Changes before (outcome.map Prod.snd) := by
  cases houtcome : outcome with
  | error failure => exact .of_error (hperforms.fails failure houtcome).bind_error
  | ok result =>
      have hruns : (action >>= fun _ => pure () : Action σ Unit).Runs before () result.2 :=
        (hperforms.runs result.1 result.2 houtcome).bind (runs_pure ())
      exact .of_runs hruns

end Action

end MeshIncidence
