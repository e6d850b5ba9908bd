/-
# Reading what is written between blanks

A scan passes over blanks before it takes a token and stops at the blank after it. So
what it makes of a text does not depend on which blanks stand between the tokens, nor on
how many, and two scans in sequence read two texts in sequence.

`Scan.Takes` is about a text from its first token to its last; `Scan.Reads` is about a
text as it is printed, with the blanks that end it. Printed texts can simply be put
together, and so can the scans that read them.
-/

import MeshIncidence.Text.Scan
import MeshIncidence.Proofs.Outcome
import Mathlib.Data.List.TakeDrop

namespace MeshIncidence

theorem decodeText_toUTF8 (text : String) : decodeText text.toUTF8 = .ok text.toList := by
  have hbytes : String.fromUTF8? text.toUTF8 = some text := by
    have hvalid : text.toUTF8.IsValidUTF8 := text.isValidUTF8
    rw [String.fromUTF8?, dif_pos hvalid]
    rfl
  rw [decodeText, hbytes]

/-- Blanks only. -/
def IsGap (text : List Char) : Prop := ∀ c ∈ text, isBlank c = true

/-- The text starts with a blank if there is any. -/
def Stops (text : List Char) : Prop := ∀ c ∈ text.head?, isBlank c = true

/-- One or more characters without blanks. -/
structure IsToken (text : List Char) : Prop where
  ne_nil : text ≠ []
  not_blank : ∀ c ∈ text, isBlank c = false

theorem isToken_of_all {text : List Char} (hne : text ≠ [])
    (hall : (text.all fun c => !isBlank c) = true) : IsToken text where
  ne_nil := hne
  not_blank c hc := by simpa using List.all_eq_true.mp hall c hc

theorem stops_of_isGap {trail rest : List Char} (hne : trail ≠ []) (hgap : IsGap trail) :
    Stops (trail ++ rest) := by
  cases trail with
  | nil => exact absurd rfl hne
  | cons c trail =>
      intro first hfirst
      obtain rfl : c = first := by simpa using hfirst
      exact hgap c (by simp)

theorem skipBlanks_append {gap rest : List Char} (hgap : IsGap gap) :
    skipBlanks (gap ++ rest) = skipBlanks rest := List.dropWhile_append_of_pos hgap

theorem skipBlanks_of_head {text : List Char} (hhead : text.head?.any isBlank = false) :
    skipBlanks text = text := by
  cases text with
  | nil => rfl
  | cons c text =>
      have hc : isBlank c = false := hhead
      simp [skipBlanks, hc]

/-- After blanks and up to the next one stands a token. -/
theorem takeToken?_append {gap token rest : List Char} (hgap : IsGap gap) (htoken : IsToken token)
    (hstops : Stops rest) : takeToken? (gap ++ token ++ rest) = some (token, rest) := by
  have hskip : skipBlanks (gap ++ token ++ rest) = token ++ rest := by
    rw [List.append_assoc, skipBlanks_append hgap]
    apply skipBlanks_of_head
    cases token with
    | nil => exact absurd rfl htoken.ne_nil
    | cons first token => exact htoken.not_blank first (by simp)
  have hall : ∀ c ∈ token, (!isBlank c) = true := by
    intro c hc
    rw [htoken.not_blank c hc]
    rfl
  have hrest : rest.takeWhile (fun c => !isBlank c) = [] ∧
      rest.dropWhile (fun c => !isBlank c) = rest := by
    cases rest with
    | nil => exact ⟨rfl, rfl⟩
    | cons c rest =>
        have hc := hstops c (by simp)
        simp [hc]
  have hne : (token ++ rest).isEmpty = false := by
    simp [htoken.ne_nil]
  simp only [takeToken?, hskip, hne, Bool.false_eq_true, if_false, List.span_eq_takeWhile_dropWhile,
    List.takeWhile_append_of_pos hall, List.dropWhile_append_of_pos hall, hrest.1, hrest.2,
    List.append_nil]

theorem withoutReturn_of_not_mem {line : List Char} (hreturn : '\r' ∉ line) :
    withoutReturn line = line := by
  rw [withoutReturn, if_neg fun hlast => hreturn (List.mem_of_getLast? hlast)]

theorem withoutReturn_append_return (line : List Char) : withoutReturn (line ++ ['\r']) = line := by
  rw [withoutReturn, if_pos List.getLast?_concat, List.dropLast_concat]

theorem forall_ne_feed {line : List Char} (hfeed : '\n' ∉ line) :
    ∀ c ∈ line, decide (c ≠ '\n') = true := by
  intro c hc
  rw [decide_eq_true_eq]
  rintro rfl
  exact hfeed hc

theorem eq_nil_of_takeLine? {text : List Char} (htaken : takeLine? text = none) : text = [] := by
  rw [takeLine?] at htaken
  simpa using htaken

/-- Up to a line feed stands a line. -/
theorem takeLine?_feed {taken rest : List Char} (hfeed : '\n' ∉ taken) :
    takeLine? (taken ++ '\n' :: rest) = some (withoutReturn taken, rest) := by
  have hall := forall_ne_feed hfeed
  have hne : (taken ++ '\n' :: rest).isEmpty = false := by simp
  simp only [takeLine?, hne, Bool.false_eq_true, if_false, List.span_eq_takeWhile_dropWhile,
    List.takeWhile_append_of_pos hall, List.dropWhile_append_of_pos hall]
  simp

/-- The line is all that was taken, if that does not end in a carriage return. -/
theorem takeLine?_append {line rest : List Char} (hfeed : '\n' ∉ line)
    (hreturn : line.getLast? ≠ some '\r') :
    takeLine? (line ++ '\n' :: rest) = some (line, rest) := by
  rw [takeLine?_feed hfeed, withoutReturn, if_neg hreturn]

/-- What is left after blanks is not a remark if it does not start with the mark. -/
theorem skipRemarks_append {gap rest : List Char} {c mark : Char} (hgap : IsGap gap)
    (hblank : isBlank c = false) (hmark : c ≠ mark) :
    skipRemarks mark false (gap ++ c :: rest) = c :: rest := by
  induction gap with
  | nil => simp [skipRemarks, hblank, hmark]
  | cons first gap ih =>
      have hfirst := hgap first (by simp)
      have hrest := ih fun c hc => hgap c (by simp [hc])
      simpa [skipRemarks, hfirst] using hrest

namespace Scan

variable {α β : Type}

/-- The scan takes the text and has the value, whatever blanks stand before it, and stops
at the blank after it. -/
def Takes (scan : Scan α) (text : List Char) (value : α) : Prop :=
  ∀ gap rest, IsGap gap → Stops rest → scan.run (gap ++ text ++ rest) = .ok (value, rest)

/-- The scan reads a printed text, which ends in blanks, and has the value. -/
def Reads (scan : Scan α) (text : List Char) (value : α) : Prop :=
  ∃ core trail, text = core ++ trail ∧ trail ≠ [] ∧ IsGap trail ∧ scan.Takes core value

/-- The scan has the value without reading anything. -/
def Passes (scan : Scan α) (value : α) : Prop := ∀ rest, scan.run rest = .ok (value, rest)

/-- The scan reads a printed text or, if there is none, passes. -/
inductive Continues (scan : Scan α) : List Char → α → Prop
  | passes {value : α} (hpasses : scan.Passes value) : Continues scan [] value
  | reads {text : List Char} {value : α} (hreads : scan.Reads text value) :
      Continues scan text value

theorem passes_pure (value : α) : (pure value : Scan α).Passes value := fun _ => rfl

theorem passes_ofResult {result : Result α} {value : α} (hok : result = .ok value) :
    (ofResult result).Passes value := by
  subst hok
  exact fun _ => rfl

variable {first : Scan α} {next : α → Scan β} {early late : List Char} {a : α} {b : β}

theorem Passes.bind (hfirst : first.Passes a) (hnext : (next a).Passes b) :
    (first >>= next).Passes b := by
  intro rest
  rw [StateT.run_bind, hfirst rest]
  exact hnext rest

theorem Takes.bind_passes (hfirst : first.Takes early a) (hnext : (next a).Passes b) :
    (first >>= next).Takes early b := by
  intro gap rest hgap hstops
  rw [StateT.run_bind, hfirst gap rest hgap hstops]
  exact hnext rest

theorem Passes.bind_takes (hfirst : first.Passes a) (hnext : (next a).Takes late b) :
    (first >>= next).Takes late b := by
  intro gap rest hgap hstops
  rw [StateT.run_bind, hfirst]
  exact hnext gap rest hgap hstops

/-- Two scans take two texts with blanks between them. -/
theorem Takes.bind {between : List Char} (hfirst : first.Takes early a) (hne : between ≠ [])
    (hbetween : IsGap between) (hnext : (next a).Takes late b) :
    (first >>= next).Takes (early ++ between ++ late) b := by
  intro gap rest hgap hstops
  have hrun := hfirst gap (between ++ late ++ rest) hgap (by
    rw [List.append_assoc]
    exact stops_of_isGap hne hbetween)
  have hlast := hnext between rest hbetween hstops
  simp only [List.append_assoc] at hrun hlast ⊢
  rw [StateT.run_bind, hrun]
  exact hlast

theorem Takes.reads {scan : Scan α} {core trail : List Char} {value : α}
    (htakes : scan.Takes core value) (hne : trail ≠ []) (hgap : IsGap trail) :
    scan.Reads (core ++ trail) value := ⟨core, trail, rfl, hne, hgap, htakes⟩

/-- More blanks at the end change nothing. -/
theorem Reads.append_gap {scan : Scan α} {text trail : List Char} {value : α}
    (hreads : scan.Reads text value) (htrail : IsGap trail) :
    scan.Reads (text ++ trail) value := by
  obtain ⟨core, last, rfl, hne, hgap, htakes⟩ := hreads
  refine ⟨core, last ++ trail, List.append_assoc _ _ _, by simp [hne], ?_, htakes⟩
  intro c hc
  rcases List.mem_append.mp hc with hlast | hmore
  · exact hgap c hlast
  · exact htrail c hmore

/-- Two scans read two printed texts one after the other. -/
theorem Reads.bind (hfirst : first.Reads early a) (hnext : (next a).Reads late b) :
    (first >>= next).Reads (early ++ late) b := by
  obtain ⟨core, trail, rfl, hne, hgap, htakes⟩ := hfirst
  obtain ⟨last, rest, rfl, hrest, hrestGap, hlast⟩ := hnext
  refine ⟨core ++ trail ++ last, rest, ?_, hrest, hrestGap, htakes.bind hne hgap hlast⟩
  simp only [List.append_assoc]

theorem Reads.bind_passes (hfirst : first.Reads early a) (hnext : (next a).Passes b) :
    (first >>= next).Reads early b := by
  obtain ⟨core, trail, rfl, hne, hgap, htakes⟩ := hfirst
  exact ⟨core, trail, rfl, hne, hgap, htakes.bind_passes hnext⟩

theorem Passes.bind_reads (hfirst : first.Passes a) (hnext : (next a).Reads late b) :
    (first >>= next).Reads late b := by
  obtain ⟨core, trail, rfl, hne, hgap, htakes⟩ := hnext
  exact ⟨core, trail, rfl, hne, hgap, hfirst.bind_takes htakes⟩

theorem Reads.bind_continues (hfirst : first.Reads early a) (hnext : (next a).Continues late b) :
    (first >>= next).Reads (early ++ late) b := by
  cases hnext with
  | passes hpasses =>
      rw [List.append_nil]
      exact hfirst.bind_passes hpasses
  | reads hreads => exact hfirst.bind hreads

theorem Continues.bind (hfirst : first.Continues early a) (hnext : (next a).Continues late b) :
    (first >>= next).Continues (early ++ late) b := by
  cases hfirst with
  | passes hpasses =>
      cases hnext with
      | passes hnext => exact .passes (hpasses.bind hnext)
      | reads hnext => exact .reads (hpasses.bind_reads hnext)
  | reads hreads => exact .reads (hreads.bind_continues hnext)

/-- One more repetition reads one more text. -/
theorem reads_times_cons {scan : Scan α} {values : List α} (hfirst : scan.Reads early a)
    (hrest : (times scan values.length).Continues late values) :
    (times scan (a :: values).length).Reads (early ++ late) (a :: values) := by
  have hall : (times scan values.length >>= fun rest => pure (a :: rest)).Continues (late ++ [])
      (a :: values) := hrest.bind (.passes (passes_pure _))
  rw [List.append_nil] at hall
  rw [List.length_cons, times]
  exact hfirst.bind_continues hall

/-- Repeating a scan reads the texts of all values. -/
theorem continues_times {scan : Scan α} {texts : List (List Char)} {values : List α}
    (hreads : List.Forall₂ scan.Reads texts values) :
    (times scan values.length).Continues texts.flatten values := by
  induction hreads with
  | nil => exact .passes (passes_pure [])
  | cons hfirst _ ih => exact .reads (reads_times_cons hfirst ih)

theorem reads_times {scan : Scan α} {texts : List (List Char)} {values : List α}
    (hne : values ≠ []) (hreads : List.Forall₂ scan.Reads texts values) :
    (times scan values.length).Reads texts.flatten values := by
  cases hreads with
  | nil => exact absurd rfl hne
  | cons hfirst hrest => exact reads_times_cons hfirst (continues_times hrest)

/-- Values divided by spaces are read one after the other. -/
theorem reads_times_spaced {scan : Scan α} {core : α → List Char} {values : List α}
    (hne : values ≠ []) (htakes : ∀ value ∈ values, scan.Takes (core value) value)
    {trail : List Char} (htrail : trail ≠ []) (hgap : IsGap trail) :
    (times scan values.length).Reads ([' '].intercalate (values.map core) ++ trail) values := by
  induction values with
  | nil => exact absurd rfl hne
  | cons value values ih =>
      have hfirst := htakes value (by simp)
      cases values with
      | nil =>
          have hnone : (times scan ([] : List α).length).Continues [] [] :=
            .passes (passes_pure [])
          have hone := reads_times_cons (hfirst.reads htrail hgap) hnone
          simpa [List.intercalate] using hone
      | cons second values =>
          have hrest := ih (by simp) fun other hother => htakes other (by simp [hother])
          have hspace : IsGap [' '] := by
            intro c hc
            obtain rfl : c = ' ' := by simpa using hc
            decide
          have hall := reads_times_cons (hfirst.reads (by simp) hspace) (.reads hrest)
          simpa [List.intercalate, List.append_assoc] using hall

/-- Remarks are passed over before a text whose first token does not start like one. -/
theorem Reads.after_remarks {scan : Scan α} {token text : List Char} {value : α}
    (hreads : scan.Reads (token ++ text) value) (htoken : IsToken token)
    (hmark : token.head? ≠ some '#') :
    (remarks >>= fun _ => scan).Reads (token ++ text) value := by
  obtain ⟨core, trail, htext, hne, hgap, htakes⟩ := hreads
  refine ⟨core, trail, htext, hne, hgap, ?_⟩
  cases token with
  | nil => exact absurd rfl htoken.ne_nil
  | cons c token =>
      have hblank := htoken.not_blank c (by simp)
      cases core with
      | nil =>
          have hfirst := hgap c (by rw [List.nil_append] at htext; simp [← htext])
          rw [hblank] at hfirst
          exact absurd hfirst (by decide)
      | cons first core =>
          obtain rfl : c = first := (List.cons.inj htext).1
          intro gap rest hgap hstops
          have hskip : skipRemarks '#' false (gap ++ (c :: core) ++ rest) = c :: core ++ rest := by
            rw [List.append_assoc]
            exact skipRemarks_append hgap hblank fun hsame => hmark (by rw [hsame]; rfl)
          have hremarks : remarks.run (gap ++ (c :: core) ++ rest) = .ok ((), c :: core ++ rest) := by
            rw [← hskip]
            rfl
          have hrun := htakes [] rest (by simp [IsGap]) hstops
          rw [StateT.run_bind, hremarks]
          exact hrun

end Scan

end MeshIncidence
