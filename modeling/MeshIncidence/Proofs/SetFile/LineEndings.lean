/-
# Line endings

Some systems end a line by a carriage return and a line feed. A carriage return is a blank, so
it does not show where a text is read by tokens; and where it is read by lines, the one before
the line feed is left out. A text without carriage returns is therefore read as it is with one
put before each line feed, whatever the text: each scan ends in the same way on both, with the
same value or the same failure, and what is left of the second text is what is left of the
first with returns put in.
-/

import MeshIncidence.Proofs.SetFile.Composition
import MeshIncidence.Proofs.SetFile.Progress
import MeshIncidence.Proofs.SetFile.Reading

namespace MeshIncidence

/-- The text with a carriage return before each line feed. -/
def withReturns (text : List Char) : List Char :=
  text.flatMap fun c => if c = '\n' then ['\r', '\n'] else [c]

@[simp]
theorem withReturns_feed (text : List Char) :
    withReturns ('\n' :: text) = '\r' :: '\n' :: withReturns text := rfl

theorem withReturns_cons {c : Char} (hc : c ≠ '\n') (text : List Char) :
    withReturns (c :: text) = c :: withReturns text := by
  rw [withReturns, List.flatMap_cons, if_neg hc]
  rfl

theorem isBlank_feed : isBlank '\n' = true := by decide

theorem isBlank_return : isBlank '\r' = true := by decide

theorem ne_feed_of_not_blank {c : Char} (hc : ¬isBlank c = true) : c ≠ '\n' := by
  rintro rfl
  exact hc isBlank_feed

/-- To put returns in changes neither which texts are empty nor the blanks there are. -/
theorem isEmpty_withReturns (text : List Char) : (withReturns text).isEmpty = text.isEmpty := by
  cases text with
  | nil => rfl
  | cons c text =>
      by_cases hc : c = '\n'
      · subst hc
        rfl
      · rw [withReturns_cons hc]
        rfl

theorem skipBlanks_withReturns (text : List Char) :
    skipBlanks (withReturns text) = withReturns (skipBlanks text) := by
  induction text with
  | nil => rfl
  | cons c text ih =>
      by_cases hblank : isBlank c = true
      · rw [skipBlanks, skipBlanks, List.dropWhile_cons_of_pos hblank]
        by_cases hc : c = '\n'
        · subst hc
          rw [withReturns_feed, List.dropWhile_cons_of_pos isBlank_return,
            List.dropWhile_cons_of_pos isBlank_feed]
          exact ih
        · rw [withReturns_cons hc, List.dropWhile_cons_of_pos hblank]
          exact ih
      · rw [withReturns_cons (ne_feed_of_not_blank hblank), skipBlanks, skipBlanks,
          List.dropWhile_cons_of_neg hblank, List.dropWhile_cons_of_neg hblank,
          withReturns_cons (ne_feed_of_not_blank hblank)]

theorem skipRemarks_withReturns {mark : Char} (inRemark : Bool) (text : List Char) :
    skipRemarks mark inRemark (withReturns text) = withReturns (skipRemarks mark inRemark text) := by
  induction text generalizing inRemark with
  | nil => rfl
  | cons c text ih =>
      by_cases hc : c = '\n'
      · subst hc
        cases inRemark <;> simp [skipRemarks, isBlank_feed, isBlank_return, ih]
      · rw [withReturns_cons hc, skipRemarks, skipRemarks]
        split_ifs
        · exact ih _
        · exact ih _
        · exact ih _
        · exact (withReturns_cons hc text).symm

/-- A token ends before the return as it ends before the line feed. -/
theorem takeToken?_withReturns (text : List Char) : takeToken? (withReturns text) =
    (takeToken? text).map fun read => (read.1, withReturns read.2) := by
  have hspan (text : List Char) : (withReturns text).span (fun c => !isBlank c) =
      ((text.span fun c => !isBlank c).1, withReturns (text.span fun c => !isBlank c).2) := by
    simp only [List.span_eq_takeWhile_dropWhile, Prod.mk.injEq]
    induction text with
    | nil => exact ⟨rfl, rfl⟩
    | cons c text ih =>
        by_cases hc : c = '\n'
        · subst hc
          simp [isBlank_feed, isBlank_return]
        · rw [withReturns_cons hc]
          by_cases hblank : isBlank c = true
          · simp [hblank, withReturns_cons hc]
          · simp [hblank, ih]
  rw [takeToken?, takeToken?, skipBlanks_withReturns, isEmpty_withReturns]
  split_ifs
  · rfl
  · rw [hspan]
    rfl

/-- In a text without returns, the return before a line feed is all that is left out. -/
theorem takeLine?_withReturns {text : List Char} (hreturn : '\r' ∉ text) :
    takeLine? (withReturns text) =
      (takeLine? text).map fun read => (read.1, withReturns read.2) := by
  have hlines (text : List Char) :
      (withReturns text).takeWhile (· ≠ '\n') = text.takeWhile (· ≠ '\n') ++
          (if '\n' ∈ text then ['\r'] else []) ∧
        ((withReturns text).dropWhile (· ≠ '\n')).drop 1 =
          withReturns ((text.dropWhile (· ≠ '\n')).drop 1) := by
    induction text with
    | nil => exact ⟨rfl, rfl⟩
    | cons c text ih =>
        by_cases hc : c = '\n'
        · subst hc
          simp
        · rw [withReturns_cons hc]
          simpa [hc, Ne.symm hc] using ih
  have hline : '\r' ∉ text.takeWhile (· ≠ '\n') :=
    fun hmem => hreturn ((List.takeWhile_prefix _).subset hmem)
  rw [takeLine?, takeLine?, isEmpty_withReturns]
  split_ifs
  · rfl
  · simp only [List.span_eq_takeWhile_dropWhile, Option.map_some, (hlines text).1, (hlines text).2,
      withoutReturn_of_not_mem hline]
    split_ifs
    · rw [withoutReturn_append_return]
    · rw [List.append_nil, withoutReturn_of_not_mem hline]

namespace Scan

variable {α β : Type}

/-- Reading a text without returns, the scan does not notice if there is one before each line
feed. -/
def IgnoresReturns (scan : Scan α) : Prop :=
  ∀ text, '\r' ∉ text →
    scan.run (withReturns text) =
        (scan.run text).map (fun read => (read.1, withReturns read.2)) ∧
      ∀ read, scan.run text = .ok read → '\r' ∉ read.2

namespace IgnoresReturns

variable {scan : Scan α}

theorem pure (value : α) : (pure value : Scan α).IgnoresReturns := by
  refine fun text hreturn => ⟨rfl, fun read hread => ?_⟩
  obtain rfl := Except.ok.inj hread
  exact hreturn

theorem fail (defect : TextDefect) : (fail defect : Scan α).IgnoresReturns :=
  fun _ _ => ⟨rfl, fun _ => nofun⟩

theorem ofResult (outcome : Result α) : (ofResult outcome).IgnoresReturns := by
  cases outcome with
  | ok value => exact pure value
  | error failure => exact fun _ _ => ⟨rfl, fun _ => nofun⟩

theorem bind {next : α → Scan β} (hfirst : scan.IgnoresReturns)
    (hnext : ∀ value, (next value).IgnoresReturns) : (scan >>= next).IgnoresReturns := by
  intro text hreturn
  obtain ⟨hrun, hrest⟩ := hfirst text hreturn
  rw [StateT.run_bind, StateT.run_bind, hrun]
  cases hread : scan.run text with
  | error failure => exact ⟨rfl, fun _ => nofun⟩
  | ok read => exact hnext read.1 read.2 (hrest read hread)

/-- What is left of a text without returns has none. -/
theorem of_endsAfter (hrun : ∀ text, '\r' ∉ text → scan.run (withReturns text) =
      (scan.run text).map fun read => (read.1, withReturns read.2))
    (hends : ∀ text read, scan.run text = .ok read → EndsAfter 0 text read.2) :
    scan.IgnoresReturns :=
  fun text hreturn => ⟨hrun text hreturn, fun read hread hmem =>
    hreturn ((hends text read hread).isSuffix.subset hmem)⟩

theorem blanks : blanks.IgnoresReturns := by
  refine of_endsAfter (fun text _ => ?_) fun text read hread => ?_
  · exact congrArg (fun rest => Except.ok ((), rest)) (skipBlanks_withReturns text)
  · obtain rfl := Except.ok.inj hread
    exact EndsAfter.skipBlanks text

theorem remarks : remarks.IgnoresReturns := by
  refine of_endsAfter (fun text _ => ?_) fun text read hread => ?_
  · exact congrArg (fun rest => Except.ok ((), rest)) (skipRemarks_withReturns false text)
  · obtain rfl := Except.ok.inj hread
    exact EndsAfter.skipRemarks '#' false text

theorem line? : line?.IgnoresReturns := by
  intro text hreturn
  simp only [Scan.line?, StateT.run, takeLine?_withReturns hreturn]
  cases htaken : takeLine? text with
  | none =>
      obtain rfl := eq_nil_of_takeLine? htaken
      exact ⟨rfl, fun read hread => Except.ok.inj hread ▸ hreturn⟩
  | some read =>
      refine ⟨rfl, fun after hread hmem => ?_⟩
      obtain rfl := Except.ok.inj hread
      exact hreturn ((EndsAfter.takeLine? htaken).isSuffix.subset hmem)

theorem token? : token?.IgnoresReturns := by
  intro text hreturn
  simp only [Scan.token?, StateT.run, takeToken?_withReturns]
  cases htaken : takeToken? text with
  | none => exact ⟨rfl, fun read hread => Except.ok.inj hread ▸ List.not_mem_nil⟩
  | some read =>
      refine ⟨rfl, fun after hread hmem => ?_⟩
      obtain rfl := Except.ok.inj hread
      exact hreturn ((EndsAfter.takeToken? htaken).isSuffix.subset hmem)

theorem value (field : Field) (read? : List Char → Option α) :
    (value field read?).IgnoresReturns := by
  refine token?.bind fun token => ?_
  cases token with
  | none => exact fail _
  | some token =>
      dsimp only
      split
      · exact pure _
      · exact fail _

theorem keyword (expected : String) : (keyword expected).IgnoresReturns := by
  refine token?.bind fun token => ?_
  cases token with
  | none => exact fail _
  | some token =>
      dsimp only
      split_ifs
      · exact pure _
      · exact fail _

theorem isComposable : IsComposable IgnoresReturns where
  pure := pure
  ofResult := ofResult
  fail := fail
  bind := bind
  blanks := blanks
  remarks := remarks
  line? := line?
  value := value
  keyword := keyword

end IgnoresReturns

end Scan

/-- A text as it is stored. -/
def inUTF8 (text : List Char) : ByteArray := (String.ofList text).toUTF8

theorem decodeText_inUTF8 (text : List Char) : decodeText (inUTF8 text) = .ok text := by
  rw [inUTF8, decodeText_toUTF8, String.toList_ofList]

/-- The title is the same, and what follows it is read on. -/
theorem titleLine_withReturns {text : List Char} (hreturn : '\r' ∉ text) :
    titleLine (withReturns text) = ((titleLine text).1, withReturns (titleLine text).2) ∧
      '\r' ∉ (titleLine text).2 := by
  have hskip : '\r' ∉ skipBlanks text := fun hmem =>
    hreturn ((EndsAfter.skipBlanks text).isSuffix.subset hmem)
  rw [titleLine, titleLine, skipBlanks_withReturns, takeLine?_withReturns hskip]
  cases htaken : takeLine? (skipBlanks text) with
  | none => exact ⟨rfl, List.not_mem_nil⟩
  | some read => exact ⟨rfl, fun hmem => hskip ((EndsAfter.takeLine? htaken).isSuffix.subset hmem)⟩

namespace Bound

variable {M : Type} [Connectivity M] {text other : List Char}

/-- What loading does is told by the title and by the sets that are read after it. -/
theorem run_load_congr {mesh : M} (htitle : (titleLine text).1 = (titleLine other).1)
    (hread : ((Scan.catalogSets mesh).run (titleLine text).2).map Prod.fst =
      ((Scan.catalogSets mesh).run (titleLine other).2).map Prod.fst)
    (catalog : SetCatalog) (notes : List Note) :
    (load (inUTF8 text)).run ⟨⟨catalog, mesh⟩, notes⟩ =
      (load (inUTF8 other)).run ⟨⟨catalog, mesh⟩, notes⟩ := by
  have hload (text : List Char) : (load (inUTF8 text)).run ⟨⟨catalog, mesh⟩, notes⟩ =
      (if String.ofList (titleLine text).1 ≠ setFileTitle then
        Action.note (.notSetFile (String.ofList (titleLine text).1))
      else do
        let sets ← Action.ofResult (((Scan.catalogSets mesh).run (titleLine text).2).map Prod.fst)
        Action.setState ⟨{ catalog with sets := sets }, mesh⟩
        Action.note (.loaded sets.counts)
        rebind : Action (Bound M) Unit).run ⟨⟨catalog, mesh⟩, notes⟩ := by
    have hstate : (Action.state : Action (Bound M) _).run ⟨⟨catalog, mesh⟩, notes⟩ =
        .ok ⟨catalog, mesh⟩ ⟨⟨catalog, mesh⟩, notes⟩ := rfl
    rw [load, EStateM.run_bind, hstate]
    simp only [decodeText_inUTF8, Action.ofResult, pure_bind]
    cases (Scan.catalogSets mesh).run (titleLine text).2 <;> rfl
  rw [hload, hload, htitle, hread]

/-- To load a text without returns or with one before each line feed is the same action. -/
theorem load_withReturns (hreturn : '\r' ∉ text) :
    (load (inUTF8 (withReturns text)) : Action (Bound M) Unit) = load (inUTF8 text) := by
  obtain ⟨htitle, hrest⟩ := titleLine_withReturns hreturn
  funext logged
  refine run_load_congr (by rw [htitle]) ?_ logged.state.catalog logged.notes
  rw [htitle, (Scan.IgnoresReturns.isComposable.catalogSets logged.state.mesh _ hrest).1]
  cases (Scan.catalogSets logged.state.mesh).run (titleLine text).2 <;> rfl

end Bound

end MeshIncidence
