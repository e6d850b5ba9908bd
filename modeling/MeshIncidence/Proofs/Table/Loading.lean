/-
# What is read as a saved table

The tokens of a saved table begin with numbers: how many rows there are, an offset more than this,
and as many columns as the last offset says. `Spells` says so without reading, and loading a text
comes to just this. Where the numbers are there, what decides is whether the offsets lay out a
table; where they are not, the first token that is missing or is no number.

The counts may promise more than the text holds. Reading ends with the first token that is not
there, so `Asking.table`, which counts the tokens it asks for, asks for one more than there are at
most.
-/

import MeshIncidence.Proofs.SetFile.Reading
import MeshIncidence.Proofs.Table.Checking

namespace MeshIncidence

theorem exists_splitOnP_eq (text : List Char) : ∃ later,
    text.splitOnP isBlank = (splitWords text).1 :: later ∧
      (splitWords text).2 = later.filter (!·.isEmpty) := by
  induction text with
  | nil => exact ⟨[], by simp [splitWords], rfl⟩
  | cons c text ih =>
      obtain ⟨later, hsplit, hlater⟩ := ih
      rw [List.splitOnP_cons_eq_if_modifyHead, hsplit, splitWords]
      by_cases hblank : isBlank c = true
      · refine ⟨(splitWords text).1 :: later, by simp [hblank], ?_⟩
        rw [List.filter_cons, ← hlater]
        cases hfirst : (splitWords text).1 <;> simp [hblank, hfirst]
      · exact ⟨later, by simp [hblank], by simp [hblank, hlater]⟩

/-- The tokens of a text are what stands between its blanks, wherever something does. -/
theorem words_eq_filter (text : List Char) :
    words text = (text.splitOnP isBlank).filter (!·.isEmpty) := by
  obtain ⟨later, hsplit, hlater⟩ := exists_splitOnP_eq text
  rw [words, hsplit, List.filter_cons, ← hlater]
  cases hfirst : (splitWords text).1 <;> simp [hfirst]

/-- A token that is the machine word `number`: decimal digits, perhaps after a plus sign. -/
structure Writes (token : List Char) (number : Nat) : Prop where
  exists_digits : ∃ digits, (token = digits ∨ token = '+' :: digits) ∧ digits ≠ [] ∧
    (∀ c ∈ digits, c.isDigit = true) ∧ Nat.ofDigitChars 10 digits 0 = number
  lt : number < wordBound

theorem readDigits?_eq_some_iff {digits : List Char} {number : Nat} :
    readDigits? digits = some number ↔ digits ≠ [] ∧ (∀ c ∈ digits, c.isDigit = true) ∧
      Nat.ofDigitChars 10 digits 0 = number := by
  rw [readDigits?, Option.ite_none_right_eq_some, List.all_eq_true, Option.some_inj, and_assoc]
  rfl

/-- Exactly the machine words are read. -/
theorem readWord?_eq_some_iff {token : List Char} {number : Nat} :
    readWord? token = some number ↔ Writes token number := by
  have hfilter (digits : List Char) :
      (readDigits? digits).filter (· < wordBound) = some number ↔
        readDigits? digits = some number ∧ number < wordBound := by
    rw [Option.filter_eq_some_iff, decide_eq_true_iff]
  unfold readWord?
  split
  · rename_i rest
    rw [hfilter, readDigits?_eq_some_iff]
    constructor
    · exact fun ⟨hdigits, hlt⟩ => ⟨⟨rest, .inr rfl, hdigits⟩, hlt⟩
    · rintro ⟨⟨digits, rfl | hsign, hdigits⟩, hlt⟩
      · exact absurd (hdigits.2.1 '+' (by simp)) (by decide)
      · obtain rfl := (List.cons.inj hsign).2
        exact ⟨hdigits, hlt⟩
  · rename_i hplain
    rw [hfilter, readDigits?_eq_some_iff]
    constructor
    · exact fun ⟨hdigits, hlt⟩ => ⟨⟨token, .inl rfl, hdigits⟩, hlt⟩
    · rintro ⟨⟨digits, rfl | hsign, hdigits⟩, hlt⟩
      · exact ⟨hdigits, hlt⟩
      · exact absurd hsign (hplain digits)

/-- The numbers that tokens begin with, up to the first token that is none. -/
def leadingNumbers : List (List Char) → List Nat
  | [] => []
  | token :: tokens =>
    match readWord? token with
    | some number => number :: leadingNumbers tokens
    | none => []

theorem leadingNumbers_cons {token : List Char} {number : Nat}
    (hread : readWord? token = some number) (tokens : List (List Char)) :
    leadingNumbers (token :: tokens) = number :: leadingNumbers tokens := by
  rw [leadingNumbers, hread]

theorem leadingNumbers_of_none {token : List Char} (hread : readWord? token = none)
    (tokens : List (List Char)) : leadingNumbers (token :: tokens) = [] := by
  rw [leadingNumbers, hread]

theorem leadingNumbers_append {given : List (List Char)} {numbers : List Nat}
    (hgiven : List.Forall₂ Writes given numbers) (rest : List (List Char)) :
    leadingNumbers (given ++ rest) = numbers ++ leadingNumbers rest := by
  induction hgiven with
  | nil => rfl
  | cons hwrites _ ih =>
      rw [List.cons_append, leadingNumbers_cons (readWord?_eq_some_iff.mpr hwrites), ih,
        List.cons_append]

/-- What follows the leading numbers, if anything does, is no number. -/
theorem exists_leadingNumbers (tokens : List (List Char)) : ∃ given rest, tokens = given ++ rest ∧
    List.Forall₂ Writes given (leadingNumbers tokens) ∧ leadingNumbers rest = [] := by
  induction tokens with
  | nil => exact ⟨[], [], rfl, .nil, rfl⟩
  | cons token tokens ih =>
      obtain ⟨given, rest, htokens, hgiven, hrest⟩ := ih
      cases hread : readWord? token with
      | none =>
          have hnone := leadingNumbers_of_none hread tokens
          exact ⟨[], token :: tokens, rfl, hnone ▸ .nil, hnone⟩
      | some number =>
          refine ⟨token :: given, rest, by rw [htokens, List.cons_append], ?_, hrest⟩
          rw [leadingNumbers_cons hread]
          exact .cons (readWord?_eq_some_iff.mp hread) hgiven

theorem leadingNumbers_eq_nil_iff {token : List Char} {rest : List (List Char)} :
    leadingNumbers (token :: rest) = [] ↔ ∀ number, ¬ Writes token number := by
  simp only [leadingNumbers, ← readWord?_eq_some_iff]
  cases readWord? token <;> simp

theorem leadingNumbers_of_forall₂ {tokens : List (List Char)} {numbers : List Nat}
    (hall : List.Forall₂ Writes tokens numbers) : leadingNumbers tokens = numbers := by
  have hnumbers := leadingNumbers_append hall []
  rwa [List.append_nil, leadingNumbers, List.append_nil] at hnumbers

theorem leadingNumbers_of_bad {given : List (List Char)} {numbers : List Nat} {token : List Char}
    (hgiven : List.Forall₂ Writes given numbers) (hbad : ∀ number, ¬ Writes token number)
    (rest : List (List Char)) : leadingNumbers (given ++ token :: rest) = numbers := by
  rw [leadingNumbers_append hgiven, leadingNumbers_eq_nil_iff.mpr hbad, List.append_nil]

/-- All tokens are numbers, or there is a first one that is none. -/
theorem leadingNumbers_cases (tokens : List (List Char)) :
    List.Forall₂ Writes tokens (leadingNumbers tokens) ∨
      ∃ given token rest, tokens = given ++ token :: rest ∧
        List.Forall₂ Writes given (leadingNumbers tokens) ∧ ∀ number, ¬ Writes token number := by
  obtain ⟨given, rest, htokens, hgiven, hrest⟩ := exists_leadingNumbers tokens
  cases rest with
  | nil =>
      rw [List.append_nil] at htokens
      exact .inl (htokens ▸ hgiven)
  | cons token rest =>
      exact .inr ⟨given, token, rest, htokens, hgiven, leadingNumbers_eq_nil_iff.mp hrest⟩

/-- The tokens begin with these numbers. -/
def BeginWith (tokens : List (List Char)) (numbers : List Nat) : Prop :=
  ∃ given rest, tokens = given ++ rest ∧ List.Forall₂ Writes given numbers

theorem beginWith_iff {tokens : List (List Char)} {numbers : List Nat} :
    BeginWith tokens numbers ↔ numbers <+: leadingNumbers tokens := by
  constructor
  · rintro ⟨given, rest, rfl, hgiven⟩
    exact ⟨leadingNumbers rest, (leadingNumbers_append hgiven rest).symm⟩
  · rintro ⟨more, hnumbers⟩
    obtain ⟨given, rest, rfl, hgiven, -⟩ := exists_leadingNumbers tokens
    rw [← hnumbers] at hgiven
    have hearly := List.forall₂_take numbers.length hgiven
    rw [List.take_left] at hearly
    refine ⟨given.take numbers.length, given.drop numbers.length ++ rest, ?_, hearly⟩
    rw [← List.append_assoc, List.take_append_drop]

namespace IncidenceTable

/-- How reading ends at the first token that is no number. -/
def stopReading {α : Type} (field : Field) (tokens : List (List Char)) : Result α :=
  match tokens[(leadingNumbers tokens).length]? with
  | none => refuse (.text (.missing field))
  | some token => refuse (.text (.invalidEntry (String.ofList token)))

theorem stopReading_cons {α : Type} {token : List Char} {number : Nat}
    (hread : readWord? token = some number) (field : Field) (tokens : List (List Char)) :
    (stopReading field (token :: tokens) : Result α) = stopReading field tokens := by
  rw [stopReading, leadingNumbers_cons hread, List.length_cons, List.getElem?_cons_succ]
  rfl

theorem stopReading_bind {α β : Type} (field : Field) (tokens : List (List Char))
    (next : α → Result β) : stopReading field tokens >>= next = stopReading field tokens := by
  unfold stopReading
  split <;> rfl

/-- Numbers are read if there are as many, whatever follows them. -/
theorem readEntries_eq (field : Field) (count : Nat) (tokens : List (List Char)) :
    readEntries field count tokens =
      if count ≤ (leadingNumbers tokens).length
      then .ok ((leadingNumbers tokens).take count, tokens.drop count)
      else stopReading field tokens := by
  -- The recursion is on the count, which may be larger than any list: each step takes a token.
  induction count generalizing tokens with
  | zero => simp [readEntries]
  | succ count ih =>
      cases tokens with
      | nil => rfl
      | cons token tokens =>
          rw [readEntries, readEntry]
          cases hread : readWord? token with
          | none =>
              rw [stopReading, leadingNumbers_of_none hread]
              rfl
          | some number =>
              dsimp only
              rw [Result.ok_bind, ih, leadingNumbers_cons hread, stopReading_cons hread,
                List.length_cons]
              simp only [Nat.add_le_add_iff_right]
              split
              · rfl
              · exact stopReading_bind field tokens _

/-- Numbers that have been read are no longer there, and nothing else has changed. -/
theorem readEntries_drop (field : Field) {early : Nat} (late : Nat) {tokens : List (List Char)}
    (hearly : early ≤ (leadingNumbers tokens).length) :
    readEntries field late (tokens.drop early) =
      if early + late ≤ (leadingNumbers tokens).length
      then .ok (((leadingNumbers tokens).drop early).take late, tokens.drop (early + late))
      else stopReading field tokens := by
  induction early generalizing tokens with
  | zero =>
      rw [Nat.zero_add]
      exact readEntries_eq field late tokens
  | succ early ih =>
      cases tokens with
      | nil => cases hearly
      | cons token tokens =>
          cases hread : readWord? token with
          | none =>
              rw [leadingNumbers_of_none hread] at hearly
              cases hearly
          | some number =>
              rw [leadingNumbers_cons hread] at hearly ⊢
              rw [List.drop_succ_cons, ih (Nat.le_of_succ_le_succ hearly), stopReading_cons hread,
                Nat.add_right_comm, List.length_cons]
              simp only [Nat.add_le_add_iff_right, List.drop_succ_cons]

/-- What is still due after some numbers of a saved table. -/
def due? : List Nat → Option Field
  | [] => some .rowCount
  | rowCount :: numbers =>
    if numbers.length < rowCount + 1 then some .rowOffset
    else if numbers.length < rowCount + 1 + numbers.getD rowCount 0 then some .columnIndex
    else none

/-- The table that is saved as some numbers, and possibly more. -/
def ofNumbers : List Nat → IncidenceTable
  | [] => empty
  | rowCount :: numbers => ofLists (numbers.take (rowCount + 1))
      ((numbers.drop (rowCount + 1)).take (numbers.getD rowCount 0)) none

theorem getLast?_take_succ {numbers : List Nat} {position : Nat} (hlt : position < numbers.length) :
    (numbers.take (position + 1)).getLast? = some (numbers.getD position 0) := by
  rw [List.getLast?_take, List.getD_eq_getElem?_getD]
  simp [hlt]

/-- The leading numbers decide how reading ends, except for what stands after them. -/
theorem ofWords_eq (tokens : List (List Char)) : ofWords tokens =
    match due? (leadingNumbers tokens) with
    | some field => stopReading field tokens
    | none => (ofNumbers (leadingNumbers tokens)).checked := by
  cases tokens with
  | nil => rfl
  | cons token tokens =>
      rw [ofWords, readEntry]
      cases hread : readWord? token with
      | none =>
          simp only [leadingNumbers_of_none hread, due?, stopReading]
          rfl
      | some rowCount =>
          dsimp only
          rw [Result.ok_bind, leadingNumbers_cons hread]
          simp only [stopReading_cons hread, due?]
          by_cases hoffsets : rowCount + 1 ≤ (leadingNumbers tokens).length
          · rw [readEntries_eq, if_pos hoffsets, Result.ok_bind]
            dsimp only
            rw [List.getLastD_eq_getLast?, getLast?_take_succ (Nat.lt_of_succ_le hoffsets),
              Option.getD_some, readEntries_drop _ _ hoffsets, if_neg (Nat.not_lt.mpr hoffsets)]
            by_cases hcolumns : rowCount + 1 + (leadingNumbers tokens).getD rowCount 0 ≤
                (leadingNumbers tokens).length
            · rw [if_pos hcolumns, if_neg (Nat.not_lt.mpr hcolumns)]
              rfl
            · rw [if_neg hcolumns, if_pos (Nat.lt_of_not_le hcolumns), stopReading_bind]
          · rw [readEntries_eq, if_neg hoffsets, if_pos (Nat.lt_of_not_le hoffsets),
              stopReading_bind]

/-- The tokens begin with the number of rows, the offsets and the columns. -/
structure Spells (tokens : List (List Char)) (rowCount : Nat) (offsets columns : List Nat) :
    Prop where
  beginWith : BeginWith tokens (rowCount :: (offsets ++ columns))
  length_offsets : offsets.length = rowCount + 1
  getLast?_offsets : offsets.getLast? = some columns.length

variable {tokens : List (List Char)} {rowCount : Nat} {offsets columns : List Nat}

/-- Nothing is due any more, and the numbers are those of the table. -/
theorem Spells.due?_eq_none (hspells : Spells tokens rowCount offsets columns) :
    due? (leadingNumbers tokens) = none ∧
      ofNumbers (leadingNumbers tokens) = ofLists offsets columns none := by
  obtain ⟨more, hmore⟩ := beginWith_iff.mp hspells.beginWith
  have hlength := hspells.length_offsets
  have hlast : (offsets ++ columns ++ more).getD rowCount 0 = columns.length := by
    have hend := hspells.getLast?_offsets
    rw [List.getLast?_eq_getElem?, hlength, Nat.add_sub_cancel] at hend
    rw [List.append_assoc, List.getD_eq_getElem?_getD, List.getElem?_append_left (by omega), hend,
      Option.getD_some]
  rw [← hmore, List.cons_append, due?, ofNumbers, hlast, ← hlength]
  simp

theorem exists_spells (hdue : due? (leadingNumbers tokens) = none) :
    ∃ rowCount offsets columns, Spells tokens rowCount offsets columns := by
  cases hnumbers : leadingNumbers tokens with
  | nil =>
      rw [hnumbers] at hdue
      cases hdue
  | cons rowCount numbers =>
      rw [hnumbers, due?] at hdue
      split at hdue
      · cases hdue
      split at hdue
      · cases hdue
      rename_i hoffsets hcolumns
      refine ⟨rowCount, numbers.take (rowCount + 1),
        (numbers.drop (rowCount + 1)).take (numbers.getD rowCount 0), ?_, ?_, ?_⟩
      · rw [beginWith_iff, hnumbers, List.prefix_cons_inj, ← List.take_add]
        exact List.take_prefix _ _
      · rw [List.length_take]
        omega
      · rw [List.length_take, List.length_drop, Nat.min_eq_left (by omega),
          getLast?_take_succ (by omega)]

theorem stopReading_of_forall₂ {α : Type} {numbers : List Nat}
    (hall : List.Forall₂ Writes tokens numbers) (field : Field) :
    (stopReading field tokens : Result α) = refuse (.text (.missing field)) := by
  rw [stopReading, leadingNumbers_of_forall₂ hall, ← hall.length_eq, List.getElem?_length]

theorem stopReading_of_bad {α : Type} {given rest : List (List Char)} {numbers : List Nat}
    {token : List Char} (hgiven : List.Forall₂ Writes given numbers)
    (hbad : ∀ number, ¬ Writes token number) (field : Field) :
    (stopReading field (given ++ token :: rest) : Result α) =
      refuse (.text (.invalidEntry (String.ofList token))) := by
  have htoken : (given ++ token :: rest)[numbers.length]? = some token := by
    rw [← hgiven.length_eq]
    simp
  rw [stopReading, leadingNumbers_of_bad hgiven hbad, htoken]

/-- The offsets of rows start at zero and never decrease. -/
def LaysOut (offsets : List Nat) : Prop := offsets.head? = some 0 ∧ offsets.IsChain (· ≤ ·)

theorem Spells.ofWords_eq (hspells : Spells tokens rowCount offsets columns) :
    ofWords tokens = (ofLists offsets columns none).checked := by
  obtain ⟨hdue, htable⟩ := hspells.due?_eq_none
  rw [IncidenceTable.ofWords_eq, hdue, ← htable]

theorem Spells.ofWords_eq_ok (hspells : Spells tokens rowCount offsets columns)
    (hlayout : LaysOut offsets) :
    ofWords tokens = .ok ⟨offsets.toArray, columns.toArray, none⟩ := by
  have hsound : IsLayout offsets columns none :=
    ⟨hlayout.1, hlayout.2, hspells.getLast?_offsets, nofun, nofun⟩
  rw [hspells.ofWords_eq, checked_eq_ok (defect?_ofLists_eq_none_iff.mpr hsound)]
  rfl

theorem Spells.exists_ofWords_eq_refuse (hspells : Spells tokens rowCount offsets columns)
    (hother : ¬ LaysOut offsets) : ∃ defect, ofWords tokens = refuse (.layout defect) := by
  rw [hspells.ofWords_eq]
  cases hdefect : (ofLists offsets columns none).layoutDefect? with
  | some defect => exact ⟨defect, checked_eq_refuse (by rw [defect?, hdefect])⟩
  | none =>
      have hsound : (ofLists offsets columns none).defect? = none := by
        rw [defect?, hdefect]
        rfl
      obtain ⟨hfirst, hordered, -⟩ := defect?_ofLists_eq_none_iff.mp hsound
      exact absurd ⟨hfirst, hordered⟩ hother

/-- The ways in which reading a saved table from tokens ends. -/
inductive Ending (tokens : List (List Char)) : Result IncidenceTable → Prop
  | accepted {rowCount : Nat} {offsets columns : List Nat}
      (hspells : Spells tokens rowCount offsets columns) (hlayout : LaysOut offsets) :
      Ending tokens (.ok ⟨offsets.toArray, columns.toArray, none⟩)
  | disordered {rowCount : Nat} {offsets columns : List Nat} (defect : LayoutDefect)
      (hspells : Spells tokens rowCount offsets columns) (hother : ¬ LaysOut offsets) :
      Ending tokens (refuse (.layout defect))
  | missing {numbers : List Nat} {field : Field} (hall : List.Forall₂ Writes tokens numbers)
      (hdue : due? numbers = some field) : Ending tokens (refuse (.text (.missing field)))
  | invalid {given rest : List (List Char)} {numbers : List Nat} {field : Field}
      {token : List Char} (htokens : tokens = given ++ token :: rest)
      (hgiven : List.Forall₂ Writes given numbers) (hdue : due? numbers = some field)
      (hbad : ∀ number, ¬ Writes token number) :
      Ending tokens (refuse (.text (.invalidEntry (String.ofList token))))

/-- Either all numbers are there, and the offsets decide, or one is due where they end. -/
theorem ending (tokens : List (List Char)) : Ending tokens (ofWords tokens) := by
  cases hdue : due? (leadingNumbers tokens) with
  | none =>
      obtain ⟨rowCount, offsets, columns, hspells⟩ := exists_spells hdue
      by_cases hlayout : LaysOut offsets
      · exact hspells.ofWords_eq_ok hlayout ▸ .accepted hspells hlayout
      · obtain ⟨defect, hrefused⟩ := hspells.exists_ofWords_eq_refuse hlayout
        exact hrefused ▸ .disordered defect hspells hlayout
  | some field =>
      have hstop : ofWords tokens = stopReading field tokens := by rw [ofWords_eq, hdue]
      obtain hall | ⟨given, token, rest, htokens, hgiven, hbad⟩ := leadingNumbers_cases tokens
      · rw [hstop, stopReading_of_forall₂ hall]
        exact .missing hall hdue
      · rw [htokens, stopReading_of_bad hgiven hbad] at hstop
        rw [htokens, hstop, ← htokens]
        exact .invalid htokens hgiven hdue hbad

theorem Spells.not_due (hspells : Spells tokens rowCount offsets columns) {field : Field} :
    due? (leadingNumbers tokens) ≠ some field := by
  rw [hspells.due?_eq_none.1]
  exact nofun

/-- How reading a saved table from tokens ends. -/
structure ReadsExactly (tokens : List (List Char)) (outcome : Result IncidenceTable) : Prop where
  ok_iff : ∀ table, outcome = .ok table ↔ ∃ rowCount offsets columns,
    Spells tokens rowCount offsets columns ∧ LaysOut offsets ∧
      table = ⟨offsets.toArray, columns.toArray, none⟩
  /-- It is refused as a table if all numbers are there, and the offsets lay out none. -/
  layout_iff : (∃ defect, outcome = refuse (.layout defect)) ↔
    ∃ rowCount offsets columns, Spells tokens rowCount offsets columns ∧ ¬ LaysOut offsets
  /-- It is refused as a text if some number is not there. -/
  text_iff : (∃ defect, outcome = refuse (.text defect)) ↔
    ¬ ∃ rowCount offsets columns, Spells tokens rowCount offsets columns
  /-- The text has ended, and a number is due. -/
  missing_iff : ∀ field, outcome = refuse (.text (.missing field)) ↔
    ∃ numbers, List.Forall₂ Writes tokens numbers ∧ due? numbers = some field
  /-- A number is due, and there is something else. -/
  invalid_iff : ∀ token, outcome = refuse (.text (.invalidEntry token)) ↔
    ∃ given rest numbers field, tokens = given ++ token.toList :: rest ∧
      List.Forall₂ Writes given numbers ∧ due? numbers = some field ∧
        ∀ number, ¬ Writes token.toList number
  /-- Nothing else happens. -/
  answers : (∃ table, outcome = .ok table) ∨ (∃ defect, outcome = refuse (.layout defect)) ∨
    ∃ defect, outcome = refuse (.text defect)

theorem readsExactly (tokens : List (List Char)) : ReadsExactly tokens (ofWords tokens) where
  ok_iff table := by
    refine ⟨fun hok => ?_, ?_⟩
    · have hending := ending tokens
      rw [hok] at hending
      cases hending with
      | accepted hspells hlayout => exact ⟨_, _, _, hspells, hlayout, rfl⟩
    · rintro ⟨rowCount, offsets, columns, hspells, hlayout, rfl⟩
      exact hspells.ofWords_eq_ok hlayout
  layout_iff := by
    constructor
    · rintro ⟨defect, hrefused⟩
      have hending := ending tokens
      rw [hrefused] at hending
      cases hending with
      | disordered _ hspells hother => exact ⟨_, _, _, hspells, hother⟩
    · rintro ⟨rowCount, offsets, columns, hspells, hother⟩
      exact hspells.exists_ofWords_eq_refuse hother
  text_iff := by
    constructor
    · rintro ⟨defect, hrefused⟩ ⟨rowCount, offsets, columns, hspells⟩
      have hending := ending tokens
      rw [hrefused] at hending
      cases hending with
      | missing hall hdue => exact hspells.not_due (leadingNumbers_of_forall₂ hall ▸ hdue)
      | invalid htokens hgiven hdue hbad =>
          rw [← leadingNumbers_of_bad hgiven hbad, ← htokens] at hdue
          exact hspells.not_due hdue
    · intro hnone
      have hending := ending tokens
      generalize ofWords tokens = outcome at hending ⊢
      cases hending with
      | accepted hspells _ => exact absurd ⟨_, _, _, hspells⟩ hnone
      | disordered _ hspells _ => exact absurd ⟨_, _, _, hspells⟩ hnone
      | missing => exact ⟨_, rfl⟩
      | invalid => exact ⟨_, rfl⟩
  missing_iff field := by
    refine ⟨fun hrefused => ?_, ?_⟩
    · have hending := ending tokens
      rw [hrefused] at hending
      cases hending with
      | missing hall hdue => exact ⟨_, hall, hdue⟩
    · rintro ⟨numbers, hall, hdue⟩
      rw [ofWords_eq, leadingNumbers_of_forall₂ hall, hdue]
      exact stopReading_of_forall₂ hall field
  invalid_iff token := by
    refine ⟨fun hrefused => ?_, ?_⟩
    · have hending := ending tokens
      rw [hrefused] at hending
      cases hending with
      | invalid htokens hgiven hdue hbad =>
          exact ⟨_, _, _, _, by rwa [String.toList_ofList], hgiven, hdue,
            by rwa [String.toList_ofList]⟩
    · rintro ⟨given, rest, numbers, field, rfl, hgiven, hdue, hbad⟩
      rw [ofWords_eq, leadingNumbers_of_bad hgiven hbad, hdue]
      exact (stopReading_of_bad hgiven hbad field).trans (by rw [String.ofList_toList])
  answers := by
    have hending := ending tokens
    generalize ofWords tokens = outcome at hending ⊢
    cases hending with
    | accepted => exact .inl ⟨_, rfl⟩
    | disordered => exact .inr (.inl ⟨_, rfl⟩)
    | missing => exact .inr (.inr ⟨_, rfl⟩)
    | invalid => exact .inr (.inr ⟨_, rfl⟩)

end IncidenceTable

/-- A reader that counts the tokens it asks for, whether or not they are there. -/
abbrev Asking (α : Type) := ExceptT Failure (StateM Nat) α

namespace Asking

open IncidenceTable

variable {α β : Type}

/-- Read after so many tokens have been asked for: how reading ends, and how many have been asked
for then. -/
def perform (asking : Asking α) (asked : Nat) : Result α × Nat := asking asked

/-- Read one number. -/
def entry (field : Field) (tokens : List (List Char)) : Asking (Nat × List (List Char)) :=
  fun asked => (readEntry field tokens, asked + 1)

/-- Read as many numbers as are due. -/
def entries (field : Field) :
    Nat → List (List Char) → Asking (List Nat × List (List Char))
  | 0, tokens => return ([], tokens)
  | count + 1, tokens => do
    let (first, tokens) ← entry field tokens
    let (rest, tokens) ← entries field count tokens
    return (first :: rest, tokens)

/-- Read a saved table. -/
def table (tokens : List (List Char)) : Asking IncidenceTable := do
  let (rowCount, tokens) ← entry .rowCount tokens
  let (offsets, tokens) ← entries .rowOffset (rowCount + 1) tokens
  let (columns, _) ← entries .columnIndex (offsets.getLastD 0) tokens
  fun asked => (checked ⟨offsets.toArray, columns.toArray, none⟩, asked)

/-- The reader ends with the outcome. Of `length` tokens it asks for those that are not left, and
for one more at most where it fails. -/
def Follows (asking : Asking α) (outcome : Result α) (length : Nat) (left : α → Nat) : Prop :=
  ∀ asked, ∃ more, asking.perform asked = (outcome, asked + more) ∧
    match outcome with
    | .ok value => more + left value ≤ length
    | .error _ => more ≤ length + 1

namespace Follows

variable {asking : Asking α} {outcome : Result α} {length : Nat} {left : α → Nat}

theorem pure (value : α) (left : α → Nat) : Follows (pure value) (.ok value) (left value) left :=
  fun _ => ⟨0, rfl, Nat.le_of_eq (Nat.zero_add _)⟩

theorem bind {next : α → Asking β} {following : α → Result β} {last : β → Nat}
    (hfirst : asking.Follows outcome length left)
    (hnext : ∀ value, (next value).Follows (following value) (left value) last) :
    (asking >>= next).Follows (outcome >>= following) length last := by
  intro asked
  obtain ⟨more, hperform, hmore⟩ := hfirst asked
  have hunfold : (asking >>= next).perform asked =
      (ExceptT.bindCont next (asking.perform asked).1 (asking.perform asked).2 :
        Result β × Nat) := rfl
  rw [hunfold, hperform]
  cases outcome with
  | error failure => exact ⟨more, rfl, hmore⟩
  | ok value =>
      obtain ⟨late, hlate, hbound⟩ := hnext value (asked + more)
      refine ⟨more + late, hlate.trans (by rw [Nat.add_assoc]; rfl), ?_⟩
      rw [Result.ok_bind]
      cases hvalue : following value with
      | ok result =>
          simp only [hvalue] at hbound hmore ⊢
          omega
      | error failure =>
          simp only [hvalue] at hbound hmore ⊢
          omega

end Follows

theorem follows_entry (field : Field) (tokens : List (List Char)) :
    (entry field tokens).Follows (readEntry field tokens) tokens.length fun read =>
      read.2.length := by
  intro asked
  refine ⟨1, rfl, ?_⟩
  cases tokens with
  | nil => exact Nat.le_refl 1
  | cons token tokens =>
      rw [readEntry, List.length_cons]
      cases readWord? token with
      | none => exact Nat.le_add_left 1 _
      | some number => exact Nat.le_of_eq (Nat.add_comm 1 _)

theorem follows_entries (field : Field) (count : Nat) (tokens : List (List Char)) :
    (entries field count tokens).Follows (readEntries field count tokens) tokens.length
      fun read => read.2.length := by
  induction count generalizing tokens with
  | zero => exact .pure ([], tokens) fun read => read.2.length
  | succ count ih =>
      exact (follows_entry field tokens).bind fun first => (ih first.2).bind fun rest =>
        .pure (first.1 :: rest.1, rest.2) fun read => read.2.length

/-- However many numbers are announced, no more tokens are asked for than there are, but one. -/
theorem follows_table (tokens : List (List Char)) :
    (table tokens).Follows (ofWords tokens) tokens.length fun _ => 0 := by
  refine (follows_entry _ tokens).bind fun first => ?_
  refine (follows_entries _ _ first.2).bind fun offsets => ?_
  refine (follows_entries _ _ offsets.2).bind fun columns => ?_
  refine fun asked => ⟨0, rfl, ?_⟩
  split
  · exact Nat.zero_le _
  · exact Nat.zero_le _

end Asking

namespace IncidenceTable

/-- The tokens of a text, without regard to how they are found. -/
def tokensOf (text : String) : List (List Char) :=
  (text.toList.splitOnP isBlank).filter (!·.isEmpty)

theorem load_toUTF8 (text : String) : load text.toUTF8 = ofWords (tokensOf text) := by
  rw [load, decodeText_toUTF8, Result.ok_bind, words_eq_filter, tokensOf]

/-- How loading a text ends. -/
structure LoadsExactly (text : String) : Prop
    extends ReadsExactly (tokensOf text) (load text.toUTF8) where
  /-- It takes no more tokens than there are to find out, and one more to find that there are no
  more. -/
  exists_asked : ∃ asked ≤ (tokensOf text).length + 1,
    (Asking.table (tokensOf text)).perform 0 = (load text.toUTF8, asked)

/-- **Loading a table.** A text is loaded exactly if its tokens begin with the number of rows, the
offsets and the columns of a table, and the table has just these. A text that lacks one of the
numbers is refused at the first that is due, and one whose offsets lay out no table as such. -/
theorem loadsExactly (text : String) : LoadsExactly text where
  toReadsExactly := load_toUTF8 text ▸ readsExactly (tokensOf text)
  exists_asked := by
    rw [load_toUTF8]
    obtain ⟨asked, hperform, hasked⟩ := Asking.follows_table (tokensOf text) 0
    rw [Nat.zero_add] at hperform
    refine ⟨asked, ?_, hperform⟩
    split at hasked
    · exact Nat.le_succ_of_le hasked
    · exact hasked

-- What follows the last column is not looked at, and a plus sign is.
example : ofWords (words "2 0 +1 3\n7 7 08 and more".toList) =
    .ok ⟨#[0, 1, 3], #[7, 7, 8], none⟩ := by decide

end IncidenceTable

end MeshIncidence
