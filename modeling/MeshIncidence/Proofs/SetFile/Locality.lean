/-
# Reading does not look ahead

What a scan makes of a text it finds out from the part it takes and from the first character
after it, which may end a token. If something else follows that starts with the same
character, the scan takes the same part and has the same value. `Scan.IsLocal` says so, and is
put together as scans are.

A scan that ends with a token stops at a blank or at the end of the text. `Scan.StopsAfter`
keeps track of that.
-/

import MeshIncidence.Proofs.SetFile.Composition
import MeshIncidence.Proofs.SetFile.Words
import Mathlib.Data.List.TakeWhile

namespace MeshIncidence

/-- A token that is taken stands between blanks. -/
theorem exists_of_takeToken? {text token rest : List Char}
    (htaken : takeToken? text = some (token, rest)) :
    ∃ gap, text = gap ++ token ++ rest ∧ IsGap gap ∧ IsToken token ∧ Stops rest := by
  have htext : text = text.takeWhile isBlank ++ skipBlanks text :=
    List.takeWhile_append_dropWhile.symm
  have hhead := List.head?_dropWhile_not isBlank text
  rw [← skipBlanks] at hhead
  rw [takeToken?] at htaken
  cases hleft : skipBlanks text with
  | nil => simp [hleft] at htaken
  | cons c left =>
      have hc : isBlank c = false := by simpa [hleft] using hhead
      simp only [hleft, List.isEmpty_cons, Bool.false_eq_true, if_false,
        List.span_eq_takeWhile_dropWhile, Option.some.injEq, Prod.mk.injEq] at htaken
      obtain ⟨rfl, rfl⟩ := htaken
      refine ⟨text.takeWhile isBlank, ?_, fun c hc => List.mem_takeWhile_imp hc, ⟨?_, ?_⟩, ?_⟩
      · rw [List.append_assoc, List.takeWhile_append_dropWhile, ← hleft]
        exact htext
      · simp [hc]
      · intro d hd
        simpa using List.mem_takeWhile_imp hd
      · intro d hd
        have hnot := List.head?_dropWhile_not (fun c => !isBlank c) (c :: left)
        rw [Option.mem_def.mp hd] at hnot
        simpa using hnot

/-- A line that is taken goes on to a line feed or to the end of the text. -/
theorem exists_of_takeLine? {text line rest : List Char}
    (htaken : takeLine? text = some (line, rest)) :
    ∃ taken, '\n' ∉ taken ∧ line = withoutReturn taken ∧
      (text = taken ++ '\n' :: rest ∨ text = taken ∧ rest = []) := by
  rw [takeLine?] at htaken
  split at htaken
  · cases htaken
  · simp only [List.span_eq_takeWhile_dropWhile, Option.some.injEq, Prod.mk.injEq] at htaken
    obtain ⟨rfl, rfl⟩ := htaken
    refine ⟨text.takeWhile (· ≠ '\n'), fun hmem => ?_, rfl, ?_⟩
    · simpa using List.mem_takeWhile_imp hmem
    · have htext := List.takeWhile_append_dropWhile (p := (· ≠ '\n')) (l := text)
      have hhead := List.head?_dropWhile_not (fun c => decide (c ≠ '\n')) text
      cases hleft : text.dropWhile (· ≠ '\n') with
      | nil =>
          rw [hleft, List.append_nil] at htext
          exact .inr ⟨htext.symm, rfl⟩
      | cons c left =>
          rw [hleft] at hhead htext
          obtain rfl : c = '\n' := by simpa using hhead
          exact .inl htext.symm

/-- After blanks a line has at least one character, which is no blank. -/
theorem exists_of_takeLine?_skipBlanks {text line rest : List Char}
    (htaken : takeLine? (skipBlanks text) = some (line, rest)) :
    ∃ c taken, isBlank c = false ∧ '\n' ∉ c :: taken ∧ line = withoutReturn (c :: taken) ∧
      (skipBlanks text = c :: taken ++ '\n' :: rest ∨
        skipBlanks text = c :: taken ∧ rest = []) := by
  obtain ⟨taken, hfeed, hline, hleft⟩ := exists_of_takeLine? htaken
  have hhead := List.head?_dropWhile_not isBlank text
  rw [← skipBlanks] at hhead
  cases taken with
  | nil =>
      rcases hleft with hleft | ⟨hleft, -⟩
      · rw [hleft] at hhead
        cases hhead
      · rw [hleft] at htaken
        cases htaken
  | cons c taken =>
      refine ⟨c, taken, ?_, hfeed, hline, hleft⟩
      rcases hleft with hleft | ⟨hleft, -⟩ <;> simpa [hleft] using hhead

/-- What is left after remarks starts with no blank and no mark. What has been passed over is
passed over whatever follows. -/
theorem exists_of_skipRemarks {mark c : Char} {inRemark : Bool} {text rest : List Char}
    (hskip : skipRemarks mark inRemark text = c :: rest) :
    isBlank c = false ∧ c ≠ mark ∧ ∃ skipped, text = skipped ++ c :: rest ∧
      ∀ other, skipRemarks mark inRemark (skipped ++ other) = skipRemarks mark false other := by
  induction text generalizing inRemark with
  | nil => simp [skipRemarks] at hskip
  | cons d text ih =>
      rw [skipRemarks] at hskip
      split_ifs at hskip with hin hblank hmark
      · obtain ⟨hc, hne, skipped, rfl, hother⟩ := ih hskip
        refine ⟨hc, hne, d :: skipped, rfl, fun other => ?_⟩
        rw [List.cons_append, skipRemarks, if_pos hin, hother]
      · obtain ⟨hc, hne, skipped, rfl, hother⟩ := ih hskip
        refine ⟨hc, hne, d :: skipped, rfl, fun other => ?_⟩
        rw [List.cons_append, skipRemarks, if_neg hin, if_pos hblank, hother]
      · obtain ⟨hc, hne, skipped, rfl, hother⟩ := ih hskip
        refine ⟨hc, hne, d :: skipped, rfl, fun other => ?_⟩
        rw [List.cons_append, skipRemarks, if_neg hin, if_neg hblank, if_pos hmark, hother]
      · obtain ⟨rfl, rfl⟩ := List.cons.inj hskip
        refine ⟨by simpa using hblank, hmark, [], rfl, fun other => ?_⟩
        rw [List.nil_append, (Bool.not_eq_true _).mp hin]

namespace Scan

variable {α β : Type}

/-- A token that is read is the next one, and without one nothing is left. -/
theorem takeToken?_of_token? {text rest : List Char} {token : Option (List Char)}
    (hread : token?.run text = .ok (token, rest)) :
    token = none ∧ rest = [] ∨
      ∃ taken, token = some taken ∧ takeToken? text = some (taken, rest) := by
  simp only [token?, StateT.run] at hread
  cases htaken : takeToken? text with
  | none =>
      rw [htaken] at hread
      obtain ⟨rfl, rfl⟩ := Prod.mk.inj (Except.ok.inj hread)
      exact .inl ⟨rfl, rfl⟩
  | some taken =>
      rw [htaken] at hread
      obtain ⟨rfl, rfl⟩ := Prod.mk.inj (Except.ok.inj hread)
      exact .inr ⟨_, rfl, rfl⟩

/-- A line that is read is the next one, and there is none at the end of the text only. -/
theorem takeLine?_of_line? {text rest : List Char} {line : Option (List Char)}
    (hread : line?.run text = .ok (line, rest)) :
    line = none ∧ text = [] ∧ rest = [] ∨
      ∃ taken, line = some taken ∧ takeLine? text = some (taken, rest) := by
  simp only [line?, StateT.run] at hread
  cases htaken : takeLine? text with
  | none =>
      rw [htaken] at hread
      obtain ⟨rfl, rfl⟩ := Prod.mk.inj (Except.ok.inj hread)
      exact .inl ⟨rfl, eq_nil_of_takeLine? htaken, eq_nil_of_takeLine? htaken⟩
  | some taken =>
      rw [htaken] at hread
      obtain ⟨rfl, rfl⟩ := Prod.mk.inj (Except.ok.inj hread)
      exact .inr ⟨_, rfl, rfl⟩

/-- What has been taken is taken with the same value if something else follows that starts with
the same character. -/
def IsLocal (scan : Scan α) : Prop :=
  ∀ text value rest, scan.run text = .ok (value, rest) → ∃ taken, text = taken ++ rest ∧
    ∀ other, other.head? = rest.head? → scan.run (taken ++ other) = .ok (value, other)

namespace IsLocal

variable {scan : Scan α}

theorem pure (value : α) : (pure value : Scan α).IsLocal := by
  intro text _ rest hread
  obtain ⟨rfl, rfl⟩ := Prod.mk.inj (Except.ok.inj hread)
  exact ⟨[], rfl, fun _ _ => rfl⟩

theorem ofResult (outcome : Result α) : (ofResult outcome).IsLocal := by
  cases outcome with
  | ok value => exact pure value
  | error failure => exact fun _ _ _ => nofun

theorem fail (defect : TextDefect) : (fail defect : Scan α).IsLocal := fun _ _ _ => nofun

theorem bind {next : α → Scan β} (hfirst : scan.IsLocal) (hnext : ∀ value, (next value).IsLocal) :
    (scan >>= next).IsLocal := by
  intro text result rest hread
  rw [StateT.run_bind] at hread
  obtain ⟨⟨value, middle⟩, hfound, hlast⟩ := Result.bind_eq_ok_iff.mp hread
  obtain ⟨early, rfl, hearly⟩ := hfirst text value middle hfound
  obtain ⟨late, rfl, hlate⟩ := hnext value middle result rest hlast
  refine ⟨early ++ late, (List.append_assoc _ _ _).symm, fun other hother => ?_⟩
  have hmiddle : (late ++ other).head? = (late ++ rest).head? := by
    rw [List.head?_append, List.head?_append, hother]
  rw [List.append_assoc, StateT.run_bind, hearly _ hmiddle]
  exact hlate other hother

theorem blanks : blanks.IsLocal := by
  intro text value rest hread
  obtain rfl : skipBlanks text = rest := congrArg Prod.snd (Except.ok.inj hread)
  refine ⟨text.takeWhile isBlank, List.takeWhile_append_dropWhile.symm, fun other hother => ?_⟩
  have hskip : skipBlanks (text.takeWhile isBlank ++ other) = other := by
    rw [skipBlanks_append fun c hc => List.mem_takeWhile_imp hc]
    apply skipBlanks_of_head
    rw [hother]
    have hhead := List.head?_dropWhile_not isBlank text
    cases hfirst : (skipBlanks text).head? with
    | none => rfl
    | some c =>
        rw [← skipBlanks, hfirst] at hhead
        exact hhead
  exact congrArg (fun rest => Except.ok (value, rest)) hskip

theorem remarks : remarks.IsLocal := by
  intro text value rest hread
  obtain rfl : skipRemarks '#' false text = rest := congrArg Prod.snd (Except.ok.inj hread)
  cases hskip : skipRemarks '#' false text with
  | nil =>
      refine ⟨text, (List.append_nil text).symm, fun other hother => ?_⟩
      obtain rfl : other = [] := List.head?_eq_none_iff.mp hother
      rw [List.append_nil]
      exact congrArg (fun rest => Except.ok (value, rest)) hskip
  | cons c rest =>
      obtain ⟨hc, hmark, skipped, rfl, hsame⟩ := exists_of_skipRemarks hskip
      refine ⟨skipped, rfl, fun other hother => ?_⟩
      obtain ⟨after, rfl⟩ : ∃ after, other = c :: after := by
        cases other with
        | nil => simp at hother
        | cons d after => exact ⟨after, by simpa using hother⟩
      have hstay : skipRemarks '#' false (skipped ++ c :: after) = c :: after := by
        rw [hsame, skipRemarks]
        simp [hc, hmark]
      exact congrArg (fun rest => Except.ok (value, rest)) hstay

theorem line? : line?.IsLocal := by
  intro text value rest hread
  obtain ⟨rfl, rfl, rfl⟩ | ⟨line, rfl, htaken⟩ := takeLine?_of_line? hread
  · refine ⟨[], rfl, fun other hother => ?_⟩
    rw [List.head?_eq_none_iff.mp hother]
    rfl
  · obtain ⟨taken, hfeed, hline, rfl | ⟨rfl, rfl⟩⟩ := exists_of_takeLine? htaken
    · refine ⟨taken ++ ['\n'], by simp, fun other _ => ?_⟩
      rw [List.append_assoc, List.singleton_append]
      simp only [Scan.line?, StateT.run, takeLine?_feed hfeed, hline]
    · refine ⟨text, (List.append_nil text).symm, fun other hother => ?_⟩
      rw [List.head?_nil, List.head?_eq_none_iff] at hother
      rw [hother, List.append_nil]
      exact hread

/-- A scan that goes on with a token is local if it is so for every token. Without one it has to
refuse. -/
theorem token?_bind {next : Option (List Char) → Scan β}
    (hnone : ∀ text read, (next none).run text ≠ .ok read)
    (hsome : ∀ token, (next (some token)).IsLocal) : (token? >>= next).IsLocal := by
  intro text value rest hread
  rw [StateT.run_bind] at hread
  obtain ⟨⟨token, middle⟩, hfound, hrest⟩ := Result.bind_eq_ok_iff.mp hread
  obtain ⟨rfl, -⟩ | ⟨taken, rfl, htaken⟩ := takeToken?_of_token? hfound
  · exact absurd hrest (hnone _ _)
  · obtain ⟨gap, rfl, hgap, htoken, hstops⟩ := exists_of_takeToken? htaken
    obtain ⟨late, rfl, hlate⟩ := hsome taken middle value rest hrest
    refine ⟨gap ++ taken ++ late, (List.append_assoc _ _ _).symm, fun other hother => ?_⟩
    have hmiddle : Stops (late ++ other) := by
      rwa [Stops, List.head?_append, hother, ← List.head?_append]
    rw [List.append_assoc, StateT.run_bind, token?_run hgap htoken hmiddle, Result.ok_bind]
    exact hlate other hother

theorem value (field : Field) (read? : List Char → Option α) : (value field read?).IsLocal := by
  refine token?_bind (fun _ _ => nofun) fun token => ?_
  dsimp only
  split
  · exact pure _
  · exact fail _

theorem keyword (expected : String) : (keyword expected).IsLocal := by
  refine token?_bind (fun _ _ => nofun) fun token => ?_
  dsimp only
  split_ifs
  · exact pure _
  · exact fail _

theorem isComposable : IsComposable IsLocal where
  pure := pure
  ofResult := ofResult
  fail := fail
  bind := bind
  blanks := blanks
  remarks := remarks
  line? := line?
  value := value
  keyword := keyword

end IsLocal

/-- Where the text before was so, the scan stops at a blank or at the end of the text. -/
def StopsAfter (scan : Scan α) (before : List Char → Prop) : Prop :=
  ∀ text, before text → ∀ read, scan.run text = .ok read → Stops read.2

namespace StopsAfter

variable {scan : Scan α} {before : List Char → Prop}

/-- A scan that takes nothing stops where it was. -/
theorem of_takes_nothing (hsame : ∀ text read, scan.run text = .ok read → read.2 = text) :
    scan.StopsAfter Stops :=
  fun text hstops read hread => hsame text read hread ▸ hstops

theorem pure (value : α) : (pure value : Scan α).StopsAfter Stops :=
  of_takes_nothing fun _ _ hread => Except.ok.inj hread ▸ rfl

theorem ofResult (outcome : Result α) : (ofResult outcome).StopsAfter Stops := by
  cases outcome with
  | ok value => exact pure value
  | error failure => exact of_takes_nothing fun _ _ => nofun

theorem fail (defect : TextDefect) : (fail defect : Scan α).StopsAfter before := fun _ _ _ => nofun

theorem mono {wider : List Char → Prop} (hstops : scan.StopsAfter wider)
    (hwider : ∀ text, before text → wider text) : scan.StopsAfter before :=
  fun text hbefore => hstops text (hwider text hbefore)

/-- Where the first scan stops the second one goes on. -/
theorem bind {next : α → Scan β} (hfirst : scan.StopsAfter before)
    (hnext : ∀ value, (next value).StopsAfter Stops) : (scan >>= next).StopsAfter before := by
  intro text hbefore read hread
  rw [StateT.run_bind] at hread
  obtain ⟨first, hfound, hlast⟩ := Result.bind_eq_ok_iff.mp hread
  exact hnext first.1 first.2 (hfirst text hbefore first hfound) read hlast

/-- If the second scan stops after any text, it does not matter where the first one does. -/
theorem bind_any {next : α → Scan β} (hnext : ∀ value, (next value).StopsAfter fun _ => True) :
    (scan >>= next).StopsAfter fun _ => True := by
  intro text _ read hread
  rw [StateT.run_bind] at hread
  obtain ⟨first, -, hlast⟩ := Result.bind_eq_ok_iff.mp hread
  exact hnext first.1 first.2 trivial read hlast

/-- After a token there is a blank or the end of the text. -/
theorem token?_bind {next : Option (List Char) → Scan β}
    (hnone : (next none).StopsAfter fun _ => True)
    (hsome : ∀ token, (next (some token)).StopsAfter Stops) :
    (token? >>= next).StopsAfter fun _ => True := by
  intro text _ read hread
  rw [StateT.run_bind] at hread
  obtain ⟨⟨token, rest⟩, hfound, hlast⟩ := Result.bind_eq_ok_iff.mp hread
  obtain ⟨rfl, rfl⟩ | ⟨taken, rfl, htaken⟩ := takeToken?_of_token? hfound
  · exact hnone [] trivial read hlast
  · obtain ⟨gap, -, -, -, hstops⟩ := exists_of_takeToken? htaken
    exact hsome taken rest hstops read hlast

theorem value (field : Field) (read? : List Char → Option α) :
    (value field read?).StopsAfter fun _ => True := by
  refine token?_bind (fail _) fun token => ?_
  dsimp only
  split
  · exact pure _
  · exact fail _

theorem keyword (expected : String) : (keyword expected).StopsAfter fun _ => True := by
  refine token?_bind (fail _) fun token => ?_
  dsimp only
  split_ifs
  · exact pure _
  · exact fail _

theorem isTokenwise : IsTokenwise fun scan => scan.StopsAfter Stops where
  pure := pure
  ofResult := ofResult
  fail := fail
  bind := bind
  value field read? := (value field read?).mono fun _ _ => trivial
  keyword expected := (keyword expected).mono fun _ _ => trivial

theorem namedSet (kind : Kind) {member : Scan Nat} (hmember : member.StopsAfter Stops) :
    (namedSet kind member).StopsAfter fun _ => True := by
  refine bind_any fun _ => bind_any fun name => ?_
  cases name with
  | none => exact fail _
  | some name =>
      exact (value _ _).bind fun count => (isTokenwise.times hmember count).bind fun _ => pure _

variable {M : Type} [Connectivity M] (mesh : M)

theorem block (kind : Kind) : (block mesh kind).StopsAfter fun _ => True := by
  refine bind_any fun _ => (keyword _).bind fun _ => ((value _ _).mono fun _ _ => trivial).bind
    fun count => ?_
  split_ifs
  · exact pure _
  · cases hmember : Scan.member mesh kind with
    | error failure => exact fun _ _ _ => nofun
    | ok scan =>
        have hset : (Scan.namedSet kind scan).StopsAfter Stops :=
          (namedSet kind (isTokenwise.member mesh hmember)).mono fun _ _ => trivial
        exact isTokenwise.times hset count

theorem blockOf (dimension : Nat) (kind : Kind) :
    (blockOf mesh dimension kind).StopsAfter Stops := by
  rw [Scan.blockOf]
  split_ifs
  · exact (block mesh kind).mono fun _ _ => trivial
  · exact pure _

end StopsAfter

end Scan

end MeshIncidence
