/-
# Numbers and keywords that are read back

A number is printed in decimal digits, without a sign and without leading zeros. As long
as it is a machine word it is read back as itself. A keyword is read back if it has no
blanks.
-/

import MeshIncidence.Proofs.SetFile.Reading

namespace MeshIncidence

theorem isDigit_of_mem_toDigits {n : Nat} : ∀ c ∈ Nat.toDigits 10 n, c.isDigit = true :=
  fun _ hc => Nat.isDigit_of_mem_toDigits (by decide) (by decide) hc

theorem isToken_toDigits (n : Nat) : IsToken (Nat.toDigits 10 n) where
  ne_nil := Nat.toDigits_ne_nil
  not_blank c hc := isBlank_eq_false_of_isDigit (isDigit_of_mem_toDigits c hc)

theorem readDigits?_toDigits (n : Nat) : readDigits? (Nat.toDigits 10 n) = some n := by
  have hvalue : digitsValue (Nat.toDigits 10 n) = n := Nat.ofDigitChars_ten_toDigits
  rw [readDigits?, if_pos ⟨Nat.toDigits_ne_nil, List.all_eq_true.mpr isDigit_of_mem_toDigits⟩,
    hvalue]

/-- The digits of a number start with a digit, hence with no sign. -/
theorem exists_toDigits_eq_cons (n : Nat) :
    ∃ c rest, Nat.toDigits 10 n = c :: rest ∧ c ≠ '+' ∧ c ≠ '-' := by
  cases hdigits : Nat.toDigits 10 n with
  | nil => exact absurd hdigits Nat.toDigits_ne_nil
  | cons c rest =>
      have hc := isDigit_of_mem_toDigits c (hdigits ▸ List.mem_cons_self)
      refine ⟨c, rest, rfl, ?_, ?_⟩ <;> rintro rfl <;> exact absurd hc (by decide)

theorem readWord?_toDigits {n : Nat} (hlt : n < wordBound) :
    readWord? (Nat.toDigits 10 n) = some n := by
  obtain ⟨c, rest, hdigits, hplus, -⟩ := exists_toDigits_eq_cons n
  have hread := readDigits?_toDigits n
  rw [hdigits] at hread ⊢
  unfold readWord?
  split
  · rename_i hsign
    exact absurd (List.cons.inj hsign).1 hplus
  · simp [hread, hlt]

theorem readSigned?_toDigits {n : Nat} (hlt : n < wordBound / 2) :
    readSigned? (Nat.toDigits 10 n) = some (n : Int) := by
  obtain ⟨c, rest, hdigits, hplus, hminus⟩ := exists_toDigits_eq_cons n
  have hread := readDigits?_toDigits n
  rw [hdigits] at hread ⊢
  unfold readSigned?
  split
  · rename_i hsign
    exact absurd (List.cons.inj hsign).1 hminus
  · rename_i hsign
    exact absurd (List.cons.inj hsign).1 hplus
  · rw [hread, Option.filter_some, if_pos (decide_eq_true hlt)]
    rfl

namespace Scan

theorem token?_run {gap token rest : List Char} (hgap : IsGap gap) (htoken : IsToken token)
    (hstops : Stops rest) : token?.run (gap ++ token ++ rest) = .ok (some token, rest) := by
  simp only [token?, StateT.run, takeToken?_append hgap htoken hstops]

theorem takes_value {α : Type} {field : Field} {read? : List Char → Option α}
    {token : List Char} {value : α} (htoken : IsToken token) (hread : read? token = some value) :
    (Scan.value field read?).Takes token value := by
  intro gap rest hgap hstops
  rw [Scan.value, StateT.run_bind, token?_run hgap htoken hstops]
  simp only [Result.ok_bind, hread]
  rfl

/-- A machine word is read back. -/
theorem takes_word (field : Field) {n : Nat} (hlt : n < wordBound) :
    (word field).Takes (Nat.toDigits 10 n) n :=
  takes_value (isToken_toDigits n) (readWord?_toDigits hlt)

/-- A tag is read back. -/
theorem takes_signed (field : Field) {n : Nat} (hlt : n < wordBound / 2) :
    (signed field).Takes (Nat.toDigits 10 n) (n : Int) :=
  takes_value (isToken_toDigits n) (readSigned?_toDigits hlt)

/-- A keyword is found. -/
theorem takes_keyword {expected : String} (htoken : IsToken expected.toList) :
    (keyword expected).Takes expected.toList () := by
  intro gap rest hgap hstops
  rw [keyword, StateT.run_bind, token?_run hgap htoken hstops]
  simp only [Result.ok_bind, String.ofList_toList, if_true]
  rfl

end Scan

end MeshIncidence
