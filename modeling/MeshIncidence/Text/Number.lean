/-
# Numbers in texts

A number is written in decimal digits; leading zeros change nothing, and one
sign may stand in front, a minus only where negative numbers are meant. A text
that stands for a number outside the range of a machine word is no number.
-/

import MeshIncidence.Storage

namespace MeshIncidence

/-- The number that decimal digits stand for, most significant first. -/
def digitsValue (digits : List Char) : Nat :=
  digits.foldl (fun value digit => 10 * value + (digit.toNat - '0'.toNat)) 0

/-- The number that a text of one or more decimal digits stands for. -/
def readDigits? (text : List Char) : Option Nat :=
  if text ≠ [] ∧ text.all Char.isDigit then some (digitsValue text) else none

/-- Read an index or a count. -/
def readWord? (text : List Char) : Option Nat :=
  let digits := match text with
    | '+' :: rest => rest
    | _ => text
  (readDigits? digits).filter (· < wordBound)

/-- Read a tag, which may be negative: a signed machine word. -/
def readSigned? (text : List Char) : Option Int :=
  match text with
  | '-' :: digits =>
    ((readDigits? digits).filter (· ≤ wordBound / 2)).map fun value => -(value : Int)
  | '+' :: digits =>
    ((readDigits? digits).filter (· < wordBound / 2)).map fun value => (value : Int)
  | digits =>
    ((readDigits? digits).filter (· < wordBound / 2)).map fun value => (value : Int)

end MeshIncidence
