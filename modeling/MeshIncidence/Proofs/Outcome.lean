/-
# Reasoning about outcomes

Two things are said of operations throughout: that one succeeds with a value, and
that an action takes one state to another. Both are composed here step by step, so
that nothing further on unfolds the monads. Where an operation may also refuse or run
out of numbers, `Result.Answers` says what holds if it does not, and `Result.RunsOut` that it
does.

An action writes the same notes whatever stands in the journal already, and no state depends on
them. `Action.Writes` tells them, `Action.Ends` and `Action.Runs` leave them out.
-/

import MeshIncidence.Journal

namespace MeshIncidence

variable {α β : Type}

namespace Result

@[simp]
theorem ok_bind (value : α) (next : α → Result β) :
    (Except.ok value : Result α) >>= next = next value := rfl

@[simp]
theorem error_bind (failure : Failure) (next : α → Result β) :
    (Except.error failure : Result α) >>= next = .error failure := rfl

@[simp]
theorem pure_eq_ok (value : α) : (pure value : Result α) = .ok value := rfl

/-- A composed operation succeeds exactly when both of its steps do. -/
theorem bind_eq_ok_iff {outcome : Result α} {next : α → Result β} {value : β} :
    outcome >>= next = .ok value ↔ ∃ first, outcome = .ok first ∧ next first = .ok value := by
  cases outcome with
  | error failure => simp
  | ok first => simp

/-- An operation that succeeds at every member succeeds at the list. -/
theorem mapM_eq_ok {operation : α → Result β} {value : α → β} {members : List α}
    (hok : ∀ member ∈ members, operation member = .ok (value member)) :
    members.mapM operation = .ok (members.map value) := by
  induction members with
  | nil => rfl
  | cons first rest ih =>
      have hfirst := hok first (by simp)
      have hrest := ih fun member hmember => hok member (by simp [hmember])
      simp [hfirst, hrest]

/-- An operation that finds the members of a list at their positions finds the list. -/
theorem mapM_range_eq_ok {operation : Nat → Result β} {values : List β}
    (hok : ∀ position value, values[position]? = some value → operation position = .ok value) :
    (List.range values.length).mapM operation = .ok values := by
  induction values generalizing operation with
  | nil => rfl
  | cons first rest ih =>
      have hfirst := hok 0 first rfl
      have hrest : (List.range rest.length).mapM (operation ∘ Nat.succ) = .ok rest :=
        ih fun position value hvalue => hok (position + 1) value hvalue
      rw [List.length_cons, List.range_succ_eq_map, List.mapM_cons, hfirst, List.mapM_map, hrest]
      rfl

/-- Going through a list by positions is going through it with positions. -/
theorem mapM_range_eq_mapM_zipIdx {make : Nat → Result β}
    {other : α × Nat → Result β} {items : List α}
    (hsame : ∀ position item, items[position]? = some item →
      make position = other (item, position)) :
    (List.range items.length).mapM make = items.zipIdx.mapM other := by
  induction items generalizing make other with
  | nil => rfl
  | cons first rest ih =>
      have hrest : (List.range rest.length).mapM (make ∘ Nat.succ) =
          rest.zipIdx.mapM (other ∘ fun pair => (pair.1, pair.2 + 1)) :=
        ih fun position item hitem => hsame (position + 1) item hitem
      rw [List.length_cons, List.range_succ_eq_map, List.mapM_cons, List.mapM_map, hrest,
        hsame 0 first rfl, List.zipIdx_cons, List.zipIdx_succ, List.mapM_cons, List.mapM_map]

/-- An operation that succeeds at a list has succeeded at each of its members. -/
theorem exists_of_mapM_eq_ok {operation : α → Result β} {members : List α} {values : List β}
    (hok : members.mapM operation = .ok values) {position : Nat} {member : α}
    (hmember : members[position]? = some member) :
    ∃ value, values[position]? = some value ∧ operation member = .ok value := by
  induction members generalizing values position with
  | nil => simp at hmember
  | cons first rest ih =>
      rw [List.mapM_cons] at hok
      obtain ⟨value, hvalue, hrest⟩ := bind_eq_ok_iff.mp hok
      obtain ⟨others, hothers, hvalues⟩ := bind_eq_ok_iff.mp hrest
      obtain rfl := Except.ok.inj hvalues
      cases position with
      | zero =>
          obtain rfl := Option.some.inj hmember
          exact ⟨value, rfl, hvalue⟩
      | succ position => exact ih hothers hmember

/-- What every step keeps of its member, the list keeps of the members. -/
theorem map_eq_of_mapM_eq_ok {γ : Type} {operation : α → Result β} {members : List α}
    {values : List β} {before : α → γ} {after : β → γ} (hok : members.mapM operation = .ok values)
    (hkept : ∀ member value, operation member = .ok value → after value = before member) :
    values.map after = members.map before := by
  induction members generalizing values with
  | nil =>
      obtain rfl := Except.ok.inj hok
      rfl
  | cons first rest ih =>
      rw [List.mapM_cons] at hok
      obtain ⟨value, hvalue, hrest⟩ := bind_eq_ok_iff.mp hok
      obtain ⟨others, hothers, hvalues⟩ := bind_eq_ok_iff.mp hrest
      obtain rfl := Except.ok.inj hvalues
      rw [List.map_cons, List.map_cons, hkept first value hvalue, ih hothers]

theorem length_of_mapM_eq_ok {operation : α → Result β} {members : List α} {values : List β}
    (hok : members.mapM operation = .ok values) : values.length = members.length := by
  have hmarks : values.map (fun _ => ()) = members.map fun _ => () :=
    map_eq_of_mapM_eq_ok hok fun _ _ _ => rfl
  simpa using congrArg List.length hmarks

/-- Members that are worked on with their positions, which do not matter. -/
theorem mapM_zipIdx_eq_ok {γ : Type} {operation : β × Nat → Result γ} {image : α → β}
    {value : α → γ} {members : List α} (start : Nat) (hok : ∀ member ∈ members, ∀ position,
      operation (image member, position) = .ok (value member)) :
    ((members.map image).zipIdx start).mapM operation = .ok (members.map value) := by
  induction members generalizing start with
  | nil => rfl
  | cons first rest ih =>
      have hfirst := hok first (by simp) start
      have hrest := ih (start + 1) fun member hmember => hok member (by simp [hmember])
      simp [List.zipIdx_cons, hfirst, hrest]

/-- A loop whose steps succeed and keep an invariant succeeds. The invariant may speak of the
members that are still to come. -/
theorem exists_foldlM {σ : Type} (invariant : List α → σ → Prop) {step : σ → α → Result σ}
    {members : List α} {start : σ} (hstart : invariant members start)
    (hstep : ∀ member rest current, invariant (member :: rest) current →
      ∃ next, step current member = .ok next ∧ invariant rest next) :
    ∃ finish, members.foldlM step start = .ok finish ∧ invariant [] finish := by
  induction members generalizing start with
  | nil => exact ⟨start, rfl, hstart⟩
  | cons member rest ih =>
      obtain ⟨next, hnext, hkept⟩ := hstep member rest start hstart
      obtain ⟨finish, hfinish, hlast⟩ := ih hkept
      exact ⟨finish, by rw [List.foldlM_cons, hnext, ok_bind, hfinish], hlast⟩

/-- The operation succeeds with a value of which `post` holds, or it refuses its input, or it
needs a number or an array that is too large. It never looks for what is not there. -/
def Answers (post : α → Prop) : Result α → Prop
  | .ok value => post value
  | .error (.refused _) => True
  | .error (.fault fault) => fault = .overflow ∨ fault = .storage
  | .error (.broken _) => False

theorem answers_of_eq_ok {post : α → Prop} {outcome : Result α} {value : α}
    (hok : outcome = .ok value) (hpost : post value) : outcome.Answers post := by
  rw [hok]
  exact hpost

@[simp]
theorem answers_refuse (post : α → Prop) (error : Error) :
    (refuse error : Result α).Answers post := trivial

namespace Answers

variable {post : α → Prop} {outcome : Result α}

theorem of_eq_ok (hanswers : outcome.Answers post) {value : α} (hok : outcome = .ok value) :
    post value := by
  rwa [hok] at hanswers

theorem mono {wider : α → Prop} (hanswers : outcome.Answers post)
    (hwider : ∀ value, post value → wider value) : outcome.Answers wider := by
  cases outcome with
  | ok value => exact hwider value hanswers
  | error failure => cases failure <;> exact hanswers

/-- What the first operation answers, the second one goes on with. -/
theorem bind {goal : β → Prop} {next : α → Result β} (hfirst : outcome.Answers post)
    (hnext : ∀ value, post value → (next value).Answers goal) :
    (outcome >>= next).Answers goal := by
  cases outcome with
  | ok value => exact hnext value hfirst
  | error failure => cases failure <;> exact hfirst

end Answers

/-- The operation needs a number or an array that is too large. -/
def RunsOut (outcome : Result α) : Prop := outcome = stop .overflow ∨ outcome = stop .storage

theorem RunsOut.bind {outcome : Result α} (hrunsOut : outcome.RunsOut) (next : α → Result β) :
    (outcome >>= next).RunsOut := by
  obtain rfl | rfl := hrunsOut
  · exact .inl rfl
  · exact .inr rfl

theorem RunsOut.answers {outcome : Result α} (hrunsOut : outcome.RunsOut) (post : α → Prop) :
    outcome.Answers post := by
  obtain rfl | rfl := hrunsOut
  · exact .inl rfl
  · exact .inr rfl

theorem RunsOut.ne_ok {outcome : Result α} (hrunsOut : outcome.RunsOut) (value : α) :
    outcome ≠ .ok value := by
  obtain rfl | rfl := hrunsOut <;> exact nofun

theorem RunsOut.ne_refuse {outcome : Result α} (hrunsOut : outcome.RunsOut) (error : Error) :
    outcome ≠ refuse error := by
  obtain rfl | rfl := hrunsOut <;> exact nofun

end Result

namespace Action

variable {σ : Type}

/-- The result of running an action that ends in a state with an outcome. -/
def ending : Result α → Logged σ → EStateM.Result Failure (Logged σ) α
  | .ok value, logged => .ok value logged
  | .error failure, logged => .error failure logged

/-- Whatever notes there are already, the action takes the state `before` to the
state `after` and has the outcome `outcome`. -/
def Ends (action : Action σ α) (before : σ) (outcome : Result α) (after : σ) : Prop :=
  ∀ notes, ∃ more, action.run ⟨before, notes⟩ = ending outcome ⟨after, notes ++ more⟩

/-- The action succeeds with `value` and takes the state `before` to the state
`after`. -/
abbrev Runs (action : Action σ α) (before : σ) (value : α) (after : σ) : Prop :=
  action.Ends before (.ok value) after

variable {before middle after : σ}

/-- Whatever notes there are already, the action takes the state `before` to the state `after`, has
the outcome `outcome` and writes the notes `more`. -/
def Writes (action : Action σ α) (before : σ) (outcome : Result α) (after : σ) (more : List Note) :
    Prop :=
  ∀ notes, action.run ⟨before, notes⟩ = ending outcome ⟨after, notes ++ more⟩

theorem Writes.ends {action : Action σ α} {outcome : Result α} {more : List Note}
    (hwrites : action.Writes before outcome after more) : action.Ends before outcome after :=
  fun notes => ⟨more, hwrites notes⟩

theorem writes_pure (value : α) : (pure value : Action σ α).Writes before (.ok value) before [] :=
  fun _ => by simp [ending]

theorem writes_throw (failure : Failure) :
    (throw failure : Action σ α).Writes before (.error failure) before [] :=
  fun _ => by rw [List.append_nil]; rfl

theorem writes_ofResult (outcome : Result α) :
    (ofResult outcome : Action σ α).Writes before outcome before [] := by
  cases outcome with
  | ok value => exact writes_pure value
  | error failure => exact writes_throw failure

theorem writes_note (message : Note) :
    (note message : Action σ Unit).Writes before (.ok ()) before [message] :=
  fun _ => by simp [note, ending]

theorem writes_setState : (setState after : Action σ Unit).Writes before (.ok ()) after [] :=
  fun _ => by simp [setState, ending]

theorem Writes.run_bind {action : Action σ α} {value : α} {more : List Note}
    (hwrites : action.Writes before (.ok value) after more) (next : α → Action σ β)
    (notes : List Note) :
    (action >>= next).run ⟨before, notes⟩ = (next value).run ⟨after, notes ++ more⟩ := by
  simp [hwrites notes, ending]

/-- The notes of a second action come behind those of the first. -/
theorem Writes.bind {action : Action σ α} {next : α → Action σ β} {first : α}
    {outcome : Result β} {early late : List Note}
    (hfirst : action.Writes before (.ok first) middle early)
    (hnext : (next first).Writes middle outcome after late) :
    (action >>= next).Writes before outcome after (early ++ late) := by
  intro notes
  rw [hfirst.run_bind, hnext, List.append_assoc]

theorem Writes.bind_error {action : Action σ α} {next : α → Action σ β} {failure : Failure}
    {more : List Note} (hwrites : action.Writes before (.error failure) after more) :
    (action >>= next).Writes before (.error failure) after more :=
  fun notes => by simp [hwrites notes, ending]

theorem Writes.state_bind {next : σ → Action σ α} {outcome : Result α} {more : List Note}
    (hnext : (next before).Writes before outcome after more) :
    (state >>= next).Writes before outcome after more := hnext

/-- With an outcome that is a success, the action goes on from its value. -/
theorem ofResult_ok_bind (value : α) (next : α → Action σ β) :
    ofResult (.ok value) >>= next = next value := pure_bind value next

theorem writes_change {operation : σ → Result σ} (hok : operation before = .ok after) :
    (change operation).Writes before (.ok ()) after [] := by
  refine .state_bind ?_
  rw [hok, ofResult_ok_bind]
  exact writes_setState

/-- A change that is always possible is made. -/
theorem writes_change_ok {operation : σ → σ} :
    (change fun state => .ok (operation state)).Writes before (.ok ()) (operation before) [] :=
  writes_change rfl

theorem writes_change_error {operation : σ → Result σ} {failure : Failure}
    (herror : operation before = .error failure) :
    (change operation).Writes before (.error failure) before [] := by
  refine .state_bind ?_
  rw [herror]
  exact (writes_throw failure).bind_error

theorem writes_forM_note (messages : List Note) :
    (messages.forM note : Action σ Unit).Writes before (.ok ()) before messages := by
  induction messages with
  | nil => exact writes_pure ()
  | cons message messages ih => exact (writes_note message).bind ih

/-- An action on a part of the state runs as it does on the part alone. -/
theorem run_onPart {τ : Type} {part : σ → τ} {putBack : σ → τ → σ} {action : Action τ α}
    {outcome : Result α} {notes : List Note} {inner : Logged τ}
    (hrun : action.run ⟨part before, notes⟩ = ending outcome inner) :
    (onPart part putBack action).run ⟨before, notes⟩ =
      ending outcome ⟨putBack before inner.state, inner.notes⟩ := by
  simp only [EStateM.run] at hrun
  simp only [EStateM.run, onPart, hrun]
  cases outcome <;> rfl

theorem Writes.onPart {τ : Type} {part : σ → τ} (putBack : σ → τ → σ) {action : Action τ α}
    {outcome : Result α} {inner : τ} {more : List Note}
    (hwrites : action.Writes (part before) outcome inner more) :
    (onPart part putBack action).Writes before outcome (putBack before inner) more :=
  fun notes => run_onPart (hwrites notes)

theorem runs_pure (value : α) : (pure value : Action σ α).Runs before value before :=
  (writes_pure value).ends

theorem runs_state : (state : Action σ σ).Runs before before before :=
  (writes_pure before).state_bind.ends

theorem runs_setState : (setState after : Action σ Unit).Runs before () after :=
  writes_setState.ends

theorem runs_note (message : Note) : (note message : Action σ Unit).Runs before () before :=
  (writes_note message).ends

theorem runs_forM_note (messages : List Note) :
    (messages.forM note : Action σ Unit).Runs before () before :=
  (writes_forM_note messages).ends

theorem ends_ofResult (outcome : Result α) :
    (ofResult outcome : Action σ α).Ends before outcome before :=
  (writes_ofResult outcome).ends

theorem runs_ofResult {outcome : Result α} {value : α} (hok : outcome = .ok value) :
    (ofResult outcome : Action σ α).Runs before value before :=
  hok ▸ ends_ofResult outcome

/-- After an action that succeeds, the next one decides how both end. -/
theorem Runs.bind {action : Action σ α} {next : α → Action σ β} {first : α}
    {outcome : Result β} (hfirst : action.Runs before first middle)
    (hnext : (next first).Ends middle outcome after) :
    (action >>= next).Ends before outcome after := by
  intro notes
  obtain ⟨early, hearly⟩ := hfirst notes
  obtain ⟨late, hlate⟩ := hnext (notes ++ early)
  exact ⟨early ++ late, by simp [hearly, hlate, ending]⟩

/-- After an action that fails, nothing more is done. -/
theorem Ends.bind_error {action : Action σ α} {next : α → Action σ β} {failure : Failure}
    (hends : action.Ends before (.error failure) after) :
    (action >>= next).Ends before (.error failure) after := by
  intro notes
  obtain ⟨more, hrun⟩ := hends notes
  exact ⟨more, by simp [hrun, ending]⟩

/-- An outcome that is no success ends the action before anything is changed. -/
theorem ends_ofResult_bind {outcome : Result α} {next : α → Action σ β} {failure : Failure}
    (hfailure : outcome = .error failure) :
    (ofResult outcome >>= next).Ends before (.error failure) before := by
  have hends : (ofResult outcome : Action σ α).Ends before (.error failure) before :=
    hfailure ▸ ends_ofResult outcome
  exact hends.bind_error

theorem runs_change {operation : σ → Result σ} (hok : operation before = .ok after) :
    (change operation).Runs before () after :=
  (writes_change hok).ends

theorem runs_change_ok {operation : σ → σ} :
    (change fun state => .ok (operation state)).Runs before () (operation before) :=
  writes_change_ok.ends

theorem ends_change {operation : σ → Result σ} {failure : Failure}
    (herror : operation before = .error failure) :
    (change operation).Ends before (.error failure) before :=
  (writes_change_error herror).ends

/-- Performing an action shows how it ends. -/
theorem Ends.perform {action : Action σ α} {outcome : Result α}
    (hends : action.Ends before outcome after) :
    ∃ notes, action.perform before = (outcome, ⟨after, notes⟩) := by
  obtain ⟨notes, hrun⟩ := hends []
  refine ⟨notes, ?_⟩
  cases outcome <;> simp [Action.perform, hrun, ending]

/-- Actions that begin by looking at the state are the same if they run alike from there. -/
theorem state_bind_congr {first second : σ → Action σ α}
    (hsame : ∀ before notes,
      (first before).run ⟨before, notes⟩ = (second before).run ⟨before, notes⟩) :
    state >>= first = state >>= second :=
  funext fun logged => hsame logged.state logged.notes

/-- An action ends in one way only. -/
theorem Ends.unique {action : Action σ α} {outcome other : Result α} {reached last : σ}
    (hends : action.Ends before outcome reached) (hother : action.Ends before other last) :
    outcome = other ∧ reached = last := by
  obtain ⟨notes, hshown⟩ := hends.perform
  obtain ⟨others, hothers⟩ := hother.perform
  have hsame := hshown.symm.trans hothers
  simp only [Prod.mk.injEq, Logged.mk.injEq] at hsame
  exact ⟨hsame.1, hsame.2.1⟩

theorem perform_onPart {τ : Type} (part : σ → τ) (putBack : σ → τ → σ) (action : Action τ α)
    (before : σ) : (onPart part putBack action).perform before =
      let performed := action.perform (part before)
      (performed.1, ⟨putBack before performed.2.state, performed.2.notes⟩) := by
  simp only [Action.perform, EStateM.run, onPart]
  cases action ⟨part before, []⟩ <;> rfl

end Action

end MeshIncidence
