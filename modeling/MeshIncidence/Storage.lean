/-
# Numbers and arrays of bounded size

Indices and counts are machine words, and an array cannot take more bytes than
half the address space. Numbers are kept as `Nat`; the operations below compute
in `Nat` and stop with a fault where a word or an allocation ends. Reading and
writing array entries stops likewise where the array ends.

Room is asked for where a size is named, by a caller or by an entry of a table:
such a size may be anything. What grows along with data that is stored already is
not limited, and sums that can only come from such data are plain sums.
-/

import MeshIncidence.Failure

namespace MeshIncidence

-- Powers are those of the core library, whatever else a module imports.
attribute [default_instance high] instPowNat

/-- Every index and every count is below this bound. -/
def wordBound : Nat := 2 ^ 64

/-- No allocation takes more bytes than this. -/
def byteBound : Nat := 2 ^ 63 - 1

/-- Bytes of one number in an array. -/
def wordBytes : Nat := 8

/-- A number that has to be a machine word. -/
def word (n : Nat) : Result Nat :=
  if n < wordBound then .ok n else stop .overflow

/-- The sum of two words, if it is a word. -/
def addWords (m n : Nat) : Result Nat := word (m + n)

/-- The product of two words, if it is a word. -/
def mulWords (m n : Nat) : Result Nat := word (m * n)

/-- Room for `count` items of `bytes` bytes each. -/
def reserve (count bytes : Nat) : Result Unit :=
  if count * bytes ≤ byteBound then .ok () else stop .storage

/-- An array of `count` zeros. -/
def zeros (count : Nat) : Result (Array Nat) := do
  reserve count wordBytes
  return Array.replicate count 0

/-- The entry at a position. -/
def entryAt (entries : Array Nat) (position : Nat) : Result Nat :=
  match entries[position]? with
  | some entry => .ok entry
  | none => stop .outOfRange

/-- Replace the entry at a position. -/
def replaceAt (entries : Array Nat) (position entry : Nat) : Result (Array Nat) :=
  if position < entries.size then .ok (entries.setIfInBounds position entry)
  else stop .outOfRange

/-- The `count` entries from a position on. -/
def entriesFrom (entries : Array Nat) (start count : Nat) : Result (List Nat) :=
  if start + count ≤ entries.size then .ok ((entries.toList.drop start).take count)
  else stop .outOfRange

/-- Replace as many entries from a position on as are given. -/
def replaceFrom (entries : Array Nat) (start : Nat) (values : List Nat) :
    Result (Array Nat) :=
  if start + values.length ≤ entries.size then
    .ok (entries.toList.take start ++ values ++ entries.toList.drop (start + values.length)).toArray
  else stop .outOfRange

@[simp] theorem addWords_of_lt {m n : Nat} (hlt : m + n < wordBound) :
    addWords m n = .ok (m + n) := by
  simp [addWords, word, hlt]

@[simp] theorem mulWords_of_lt {m n : Nat} (hlt : m * n < wordBound) :
    mulWords m n = .ok (m * n) := by
  simp [mulWords, word, hlt]

theorem word_eq_ok_iff {n result : Nat} : word n = .ok result ↔ n < wordBound ∧ result = n := by
  unfold word
  split
  · simp [*, eq_comm]
  · simp [*, stop]

theorem addWords_eq_ok_iff {m n result : Nat} :
    addWords m n = .ok result ↔ m + n < wordBound ∧ result = m + n := word_eq_ok_iff

theorem mulWords_eq_ok_iff {m n result : Nat} :
    mulWords m n = .ok result ↔ m * n < wordBound ∧ result = m * n := word_eq_ok_iff

theorem reserve_eq_ok_iff {count bytes : Nat} {done : Unit} :
    reserve count bytes = .ok done ↔ count * bytes ≤ byteBound := by
  unfold reserve
  split <;> simp [*, stop]

theorem entryAt_eq_ok_iff {entries : Array Nat} {position entry : Nat} :
    entryAt entries position = .ok entry ↔ entries[position]? = some entry := by
  unfold entryAt
  cases hentry : entries[position]? <;> simp [stop]

end MeshIncidence
