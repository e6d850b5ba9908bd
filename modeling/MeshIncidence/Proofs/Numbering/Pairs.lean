/-
# What numbered pairs are

A numbering of pairs is storage by rows; seen from outside, it is the list of its
pairs in the order of their numbers. `PairNumbering.Lists` says that a numbering
stores such a list. Finding, inserting and listing pairs are then statements about
positions in that list, and rows and entries are not mentioned further on.

An undirected pair is listed with its smaller member first.
-/

import MeshIncidence.PairNumbering
import MeshIncidence.Proofs.Outcome
import MeshIncidence.Proofs.Numbering.FirstOccurrence

namespace MeshIncidence

namespace PairNumbering

/-- An undirected pair as row and column. -/
def key (first second : Nat) : Nat × Nat := (min first second, max first second)

theorem key_comm (first second : Nat) : key first second = key second first := by
  rw [key, key, Nat.min_comm, Nat.max_comm]

theorem key_of_le {first second : Nat} (hle : first ≤ second) :
    key first second = (first, second) := by
  rw [key, Nat.min_eq_left hle, Nat.max_eq_right hle]

/-- Two undirected pairs are the same when their members are, in some order. -/
theorem key_eq_key_iff {first second third fourth : Nat} :
    key first second = key third fourth ↔
      first = third ∧ second = fourth ∨ first = fourth ∧ second = third := by
  simp only [key, Prod.mk.injEq]
  omega

/-- The entries of a row when the pairs with the numbers 0, 1, 2, ... are `keys`. -/
def entriesOf (keys : List (Nat × Nat)) (row : Nat) : List (Nat × Nat) :=
  keys.zipIdx.filterMap fun (key, number) => if key.1 = row then some (key.2, number) else none

theorem mem_entriesOf {keys : List (Nat × Nat)} {row column number : Nat} :
    (column, number) ∈ entriesOf keys row ↔ keys[number]? = some (row, column) := by
  simp only [entriesOf, List.mem_filterMap, Prod.exists, List.mem_zipIdx_iff_getElem?]
  constructor
  · rintro ⟨first, second, position, hposition, hentry⟩
    split at hentry
    · simp_all
    · simp at hentry
  · intro hnumber
    exact ⟨row, column, number, hnumber, by simp⟩

/-- A new pair adds one entry, to its own row. -/
theorem entriesOf_concat (keys : List (Nat × Nat)) (row column other : Nat) :
    entriesOf (keys ++ [(row, column)]) other =
      entriesOf keys other ++ if row = other then [(column, keys.length)] else [] := by
  simp only [entriesOf, List.zipIdx_append, List.filterMap_append, Nat.zero_add]
  split <;> simp_all

/-- The numbering stores the pairs `keys`, each with its position as number. -/
structure Lists (numbering : PairNumbering) (keys : List (Nat × Nat)) : Prop where
  nodup : keys.Nodup
  count_eq : numbering.count = keys.length
  row_eq : ∀ row, numbering.row row = entriesOf keys row
  lt_rowCount : ∀ key ∈ keys, key.1 < numbering.rowCount

variable {numbering : PairNumbering} {keys : List (Nat × Nat)}

theorem lists_empty (rowCount : Nat) : (empty rowCount).Lists [] where
  nodup := List.nodup_nil
  count_eq := rfl
  row_eq row := by
    simp only [PairNumbering.row, empty, Array.getD_eq_getD_getElem?, Array.getElem?_replicate]
    split <;> rfl
  lt_rowCount := by simp

@[simp]
theorem rowCount_empty (rowCount : Nat) : (empty rowCount).rowCount = rowCount := by
  simp [PairNumbering.rowCount, empty]

/-- Placing values by their numbers leaves at each number met the value for it, if
all placings agree on that value, and nothing new at the others. -/
theorem getElem?_foldl_place (value : Nat → List Nat) {triples : List (Nat × Nat × Nat)}
    (hvalue : ∀ triple ∈ triples, [triple.1, triple.2.1] = value triple.2.2)
    (start : Array (List Nat)) (position : Nat) :
    (triples.foldl (fun pairs (row, column, number) => pairs.setIfInBounds number [row, column])
        start)[position]? =
      if position ∈ triples.map fun triple => triple.2.2 then
        if position < start.size then some (value position) else none
      else start[position]? := by
  induction triples generalizing start with
  | nil => simp
  | cons triple triples ih =>
      have hfirst := hvalue triple (by simp)
      rw [List.foldl_cons, ih fun other hother => hvalue other (by simp [hother])]
      simp only [Array.size_setIfInBounds, List.map_cons, List.mem_cons,
        Array.getElem?_setIfInBounds, hfirst]
      by_cases hlater : position ∈ triples.map fun triple => triple.2.2
      · simp [hlater]
      · by_cases hnow : position = triple.2.2
        · subst hnow
          simp [hlater]
        · simp [hlater, hnow, Ne.symm hnow]

/-- The numbering with one more pair, under the next number. -/
def withNext (numbering : PairNumbering) (row column : Nat) : PairNumbering where
  rows := numbering.rows.setIfInBounds row (numbering.row row ++ [(column, numbering.count)])
  count := numbering.count + 1

@[simp]
theorem rowCount_withNext (numbering : PairNumbering) (row column : Nat) :
    (numbering.withNext row column).rowCount = numbering.rowCount := by
  simp [PairNumbering.rowCount, withNext]

namespace Lists

/-- A directed pair is found under the number of its position. -/
theorem directed?_eq_some_iff (hlists : numbering.Lists keys) {row column number : Nat} :
    numbering.directed? row column = some number ↔ keys[number]? = some (row, column) := by
  rw [directed?, hlists.row_eq, Option.map_eq_some_iff]
  constructor
  · rintro ⟨⟨found, position⟩, hfind, rfl⟩
    have hcolumn : found = column := by simpa using List.find?_some hfind
    have hposition := mem_entriesOf.mp (List.mem_of_find?_eq_some hfind)
    rwa [hcolumn] at hposition
  · intro hnumber
    have hmember := mem_entriesOf.mpr hnumber
    obtain ⟨⟨found, position⟩, hfind⟩ := Option.isSome_iff_exists.mp
      (List.find?_isSome.mpr ⟨(column, number), hmember, beq_self_eq_true column⟩ :
        ((entriesOf keys row).find? fun entry => entry.1 == column).isSome)
    have hcolumn : found = column := by simpa using List.find?_some hfind
    have hposition := mem_entriesOf.mp (List.mem_of_find?_eq_some hfind)
    rw [hcolumn] at hposition
    refine ⟨(found, position), hfind, ?_⟩
    obtain ⟨hlt, hat⟩ := List.getElem?_eq_some_iff.mp hposition
    exact (List.getElem?_inj hlt hlists.nodup).mp (hposition.trans hnumber.symm)

/-- An undirected pair is found under the number of its position. -/
theorem find?_eq_some_iff (hlists : numbering.Lists keys) {first second number : Nat} :
    numbering.find? first second = some number ↔ keys[number]? = some (key first second) := by
  rw [find?]
  split
  · rename_i hle
    rw [hlists.directed?_eq_some_iff, key_of_le hle]
  · rename_i hle
    rw [hlists.directed?_eq_some_iff, key_comm, key_of_le (by omega)]

theorem directed?_eq_none_iff (hlists : numbering.Lists keys) {row column : Nat} :
    numbering.directed? row column = none ↔ (row, column) ∉ keys := by
  rw [Option.eq_none_iff_forall_ne_some, List.mem_iff_getElem?]
  simp [hlists.directed?_eq_some_iff]

/-- A pair that is not listed yet is put at the end of its row and of the list. -/
theorem concat (hlists : numbering.Lists keys) {row column : Nat}
    (hrow : row < numbering.rowCount) (hnew : (row, column) ∉ keys) :
    (numbering.withNext row column).Lists (keys ++ [(row, column)]) where
  nodup := by simpa using hlists.nodup.concat hnew
  count_eq := by simp [withNext, hlists.count_eq]
  row_eq other := by
    rw [entriesOf_concat, ← hlists.row_eq other, ← hlists.count_eq]
    simp only [PairNumbering.rowCount] at hrow
    simp only [withNext, PairNumbering.row, Array.getD_eq_getD_getElem?,
      Array.getElem?_setIfInBounds]
    by_cases hsame : row = other
    · subst hsame
      simp [hrow]
    · simp [hsame]
  lt_rowCount key hkey := by
    rw [rowCount_withNext]
    rw [List.mem_append, List.mem_singleton] at hkey
    rcases hkey with hkey | rfl
    · exact hlists.lt_rowCount key hkey
    · exact hrow

/-- Inserting a directed pair answers its position and lists it if it is new. -/
theorem insertDirected (hlists : numbering.Lists keys) {row column : Nat}
    (hrow : row < numbering.rowCount) :
    ∃ number extended, numbering.insertDirected row column = .ok (number, extended) ∧
      extended.Lists (seenAfter keys [(row, column)]) ∧
      extended.rowCount = numbering.rowCount ∧
      (seenAfter keys [(row, column)])[number]? = some (row, column) := by
  have hinside : ¬ numbering.rowCount ≤ row := by omega
  by_cases hseen : (row, column) ∈ keys
  · obtain ⟨number, hnumber⟩ := List.mem_iff_getElem?.mp hseen
    have hfound := hlists.directed?_eq_some_iff.mpr hnumber
    refine ⟨number, numbering, ?_, ?_, rfl, ?_⟩
    · rw [PairNumbering.insertDirected, if_neg hinside, hfound]
    · simpa [seenAfter, hseen] using hlists
    · simpa [seenAfter, hseen] using hnumber
  · have hfound := hlists.directed?_eq_none_iff.mpr hseen
    refine ⟨numbering.count, numbering.withNext row column, ?_, ?_, ?_, ?_⟩
    · rw [PairNumbering.insertDirected, if_neg hinside, hfound, withNext]
    · simpa [seenAfter, hseen] using hlists.concat hrow hseen
    · exact rowCount_withNext numbering row column
    · simp [seenAfter, hseen, hlists.count_eq]

/-- Inserting an undirected pair answers its position and lists it if it is new. -/
theorem insert (hlists : numbering.Lists keys) {first second : Nat}
    (hrow : min first second < numbering.rowCount) :
    ∃ number extended, numbering.insert first second = .ok (number, extended) ∧
      extended.Lists (seenAfter keys [key first second]) ∧
      extended.rowCount = numbering.rowCount ∧
      (seenAfter keys [key first second])[number]? = some (key first second) := by
  rw [PairNumbering.insert]
  split
  · rename_i hle
    rw [key_of_le hle]
    exact hlists.insertDirected (by omega)
  · rename_i hle
    rw [key_comm, key_of_le (by omega)]
    exact hlists.insertDirected (by omega)

/-- Numbering more pairs lists those that are new, as they come. -/
theorem insertAll (hlists : numbering.Lists keys) {pairs : List (Nat × Nat)}
    (hrows : ∀ pair ∈ pairs, min pair.1 pair.2 < numbering.rowCount) :
    ∃ extended, numbering.insertAll pairs = .ok extended ∧
      extended.Lists (seenAfter keys (pairs.map fun pair => key pair.1 pair.2)) ∧
      extended.rowCount = numbering.rowCount := by
  induction pairs generalizing numbering keys with
  | nil => exact ⟨numbering, rfl, hlists, rfl⟩
  | cons pair pairs ih =>
      obtain ⟨number, extended, hinsert, hextended, hcount, -⟩ :=
        hlists.insert (hrows pair (by simp))
      obtain ⟨last, hlast, hlists, hrowCount⟩ := ih hextended fun other hother => by
        rw [hcount]
        exact hrows other (by simp [hother])
      refine ⟨last, ?_, ?_, hrowCount.trans hcount⟩
      · simpa [PairNumbering.insertAll, hinsert] using hlast
      · rwa [List.map_cons, seenAfter_cons]

/-- The stored triples are the listed pairs, each with its number. -/
theorem mem_triples (hlists : numbering.Lists keys) {row column number : Nat} :
    (row, column, number) ∈ numbering.triples ↔ keys[number]? = some (row, column) := by
  have hrow := hlists.row_eq row
  simp only [PairNumbering.row, Array.getD_eq_getD_getElem?] at hrow
  simp only [triples, List.mem_flatMap, List.mem_map, Prod.exists, List.mem_zipIdx_iff_getElem?,
    Array.getElem?_toList, Prod.mk.injEq]
  rw [← mem_entriesOf, ← hrow]
  constructor
  · rintro ⟨entries, other, hentries, column', number', hmember, rfl, rfl, rfl⟩
    simpa [hentries] using hmember
  · intro hmember
    cases hentries : numbering.rows[row]? with
    | none => simp [hentries] at hmember
    | some entries =>
        rw [hentries, Option.getD_some] at hmember
        exact ⟨entries, row, hentries, column, number, hmember, rfl, rfl, rfl⟩

/-- The pairs come in the order of their numbers. -/
theorem pairs_eq (hlists : numbering.Lists keys) :
    numbering.pairs = keys.map fun key => [key.1, key.2] := by
  apply List.ext_getElem?
  intro position
  let ends (number : Nat) : List Nat := ((keys[number]?).map fun key => [key.1, key.2]).getD []
  have hends : ∀ triple ∈ numbering.triples, [triple.1, triple.2.1] = ends triple.2.2 := by
    rintro ⟨row, column, number⟩ hmember
    simp [ends, hlists.mem_triples.mp hmember]
  rw [pairs, Array.getElem?_toList, getElem?_foldl_place ends hends, List.getElem?_map,
    Array.size_replicate, hlists.count_eq]
  by_cases hlt : position < keys.length
  · have hmember : (keys[position].1, keys[position].2, position) ∈ numbering.triples :=
      hlists.mem_triples.mpr (List.getElem?_eq_getElem hlt)
    rw [if_pos (List.mem_map.mpr ⟨_, hmember, rfl⟩), if_pos hlt]
    simp [ends, hlt]
  · have hmissing : position ∉ numbering.triples.map fun triple => triple.2.2 := by
      rintro hposition
      obtain ⟨⟨row, column, number⟩, hmember, rfl⟩ := List.mem_map.mp hposition
      have hnumber := hlists.mem_triples.mp hmember
      rw [List.getElem?_eq_none (by simpa using hlt)] at hnumber
      simp at hnumber
    rw [if_neg hmissing, List.getElem?_eq_none (by simpa using hlt), Array.getElem?_eq_none]
    · rfl
    · simpa using hlt

end Lists

end PairNumbering

end MeshIncidence
