/-
# Insertions in any order

Pairs are inserted one after another, by row and column or as undirected pairs, and an
insertion whose row does not exist is refused and leaves the numbering as it is. Whatever the
order, the numbering lists the different rows and columns asked for, at their first
occurrence: one insertion keeps this, hence every sequence does.

If all pairs are undirected, a pair gets the number of different pairs that were inserted
before it for the first time. Unordered pairs are those of `Sym2`, which knows nothing of rows
and columns.
-/

import MeshIncidence.Proofs.Changes
import MeshIncidence.Proofs.Numbering.Pairs
import Mathlib.Data.List.Sigma
import Mathlib.Data.Sym.Sym2

namespace MeshIncidence

namespace PairNumbering

/-- An insertion of a pair, in the direction given or in either direction. -/
inductive Insertion
  | directed (row column : Nat)
  | undirected (first second : Nat)

namespace Insertion

/-- The row and the column that are asked for. -/
def target : Insertion → Nat × Nat
  | directed row column => (row, column)
  | undirected first second => key first second

/-- What the insertion answers. -/
def apply (numbering : PairNumbering) : Insertion → Result (Nat × PairNumbering)
  | directed row column => numbering.insertDirected row column
  | undirected first second => numbering.insert first second

/-- The insertion into the numbering at hand. -/
def action : Insertion → Action PairNumbering Nat
  | directed row column => insertDirectedInPlace row column
  | undirected first second => insertInPlace first second

/-- The numbering after the insertion, whether it succeeds or not. -/
def leaves (numbering : PairNumbering) (insertion : Insertion) : PairNumbering :=
  insertion.action.reached numbering

/-- The numbering after some insertions. -/
def leavesAll (numbering : PairNumbering) (insertions : List Insertion) : PairNumbering :=
  insertions.foldl leaves numbering

/-- Of the rows and columns that some insertions ask for, those that a numbering can have. -/
def accepted (rowCount : Nat) (insertions : List Insertion) : List (Nat × Nat) :=
  (insertions.map target).filter fun pair => pair.1 < rowCount

end Insertion

variable {numbering : PairNumbering} {keys : List (Nat × Nat)}

theorem insertDirectedInPlace_performs (numbering : PairNumbering) (row column : Nat) :
    (insertDirectedInPlace row column).Performs numbering
      (numbering.insertDirected row column) := by
  rw [insertDirectedInPlace, insertDirected]
  refine .state_bind ?_
  split
  · exact .of_error (Action.ends_ofResult _)
  · cases numbering.directed? row column with
    | some number => exact .of_runs (Action.runs_pure _)
    | none =>
        refine .of_runs (Action.runs_change_ok.bind ?_)
        exact Action.runs_change_ok.bind (Action.runs_pure _)

namespace Insertion

/-- An insertion that is refused has changed nothing. -/
theorem action_performs (numbering : PairNumbering) (insertion : Insertion) :
    insertion.action.Performs numbering (insertion.apply numbering) := by
  cases insertion with
  | directed row column => exact numbering.insertDirectedInPlace_performs row column
  | undirected first second =>
      rw [action, apply, insertInPlace, insert]
      split
      · exact numbering.insertDirectedInPlace_performs first second
      · exact numbering.insertDirectedInPlace_performs second first

theorem leaves_of_eq_ok (insertion : Insertion) {number : Nat} {extended : PairNumbering}
    (happly : insertion.apply numbering = .ok (number, extended)) :
    insertion.leaves numbering = extended :=
  (insertion.action_performs numbering).reached_of_eq_ok happly

theorem leaves_of_eq_error (insertion : Insertion) {failure : Failure}
    (happly : insertion.apply numbering = .error failure) :
    insertion.leaves numbering = numbering :=
  (insertion.action_performs numbering).reached_of_eq_error happly

end Insertion

theorem insertDirected_eq_refuse {row : Nat} (hrow : numbering.rowCount ≤ row) (column : Nat) :
    numbering.insertDirected row column = refuse (.rowOutOfRange row numbering.rowCount) :=
  if_pos hrow

theorem insert_eq_refuse {first second : Nat} (hrow : numbering.rowCount ≤ min first second) :
    numbering.insert first second =
      refuse (.rowOutOfRange (min first second) numbering.rowCount) := by
  rw [insert]
  split
  · rename_i hle
    rw [Nat.min_eq_left hle] at hrow ⊢
    exact insertDirected_eq_refuse hrow second
  · rename_i hle
    rw [Nat.min_eq_right (by omega)] at hrow ⊢
    exact insertDirected_eq_refuse hrow first

/-- It does not matter which member of an undirected pair is named first. -/
theorem insert_comm (numbering : PairNumbering) (first second : Nat) :
    numbering.insert first second = numbering.insert second first := by
  unfold insert
  grind

namespace Insertion

variable {rowCount : Nat}

theorem leavesAll_append (numbering : PairNumbering) (early late : List Insertion) :
    leavesAll numbering (early ++ late) = leavesAll (leavesAll numbering early) late :=
  List.foldl_append

theorem accepted_append (early late : List Insertion) :
    accepted rowCount (early ++ late) = accepted rowCount early ++ accepted rowCount late := by
  rw [accepted, List.map_append, List.filter_append, accepted, accepted]

theorem accepted_singleton_of_lt {insertion : Insertion} (hrow : insertion.target.1 < rowCount) :
    accepted rowCount [insertion] = [insertion.target] :=
  List.filter_cons_of_pos (decide_eq_true hrow)

theorem accepted_singleton_of_le {insertion : Insertion} (hrow : rowCount ≤ insertion.target.1) :
    accepted rowCount [insertion] = [] :=
  List.filter_cons_of_neg (by simpa using hrow)

end Insertion

/-- An insertion lists the row and column that it asks for, unless there is no such row. -/
theorem Lists.leaves (hlists : numbering.Lists keys) (insertion : Insertion) :
    (insertion.leaves numbering).Lists
        (seenAfter keys (Insertion.accepted numbering.rowCount [insertion])) ∧
      (insertion.leaves numbering).rowCount = numbering.rowCount := by
  by_cases hrow : insertion.target.1 < numbering.rowCount
  · have hdone : ∃ number extended, insertion.apply numbering = .ok (number, extended) ∧
        extended.Lists (seenAfter keys [insertion.target]) ∧
        extended.rowCount = numbering.rowCount := by
      cases insertion with
      | directed row column =>
          obtain ⟨number, extended, hinsert, hextended, hcount, -⟩ := hlists.insertDirected hrow
          exact ⟨number, extended, hinsert, hextended, hcount⟩
      | undirected first second =>
          obtain ⟨number, extended, hinsert, hextended, hcount, -⟩ := hlists.insert hrow
          exact ⟨number, extended, hinsert, hextended, hcount⟩
    obtain ⟨number, extended, hinsert, hextended, hcount⟩ := hdone
    rw [Insertion.accepted_singleton_of_lt hrow, insertion.leaves_of_eq_ok hinsert]
    exact ⟨hextended, hcount⟩
  · have hmissing := Nat.not_lt.mp hrow
    have hrefused : ∃ error, insertion.apply numbering = refuse error := by
      cases insertion with
      | directed row column => exact ⟨_, insertDirected_eq_refuse hmissing column⟩
      | undirected first second => exact ⟨_, insert_eq_refuse hmissing⟩
    obtain ⟨error, hrefused⟩ := hrefused
    rw [Insertion.accepted_singleton_of_le hmissing, insertion.leaves_of_eq_error hrefused]
    exact ⟨hlists, rfl⟩

/-- After any insertions the different rows and columns are listed as they came. -/
theorem Lists.leavesAll (hlists : numbering.Lists keys) (insertions : List Insertion) :
    (Insertion.leavesAll numbering insertions).Lists
        (seenAfter keys (Insertion.accepted numbering.rowCount insertions)) ∧
      (Insertion.leavesAll numbering insertions).rowCount = numbering.rowCount := by
  induction insertions generalizing numbering keys with
  | nil => exact ⟨hlists, rfl⟩
  | cons insertion insertions ih =>
      obtain ⟨hfirst, hcount⟩ := hlists.leaves insertion
      obtain ⟨hrest, hsame⟩ := ih hfirst
      rw [hcount, ← seenAfter_append, ← Insertion.accepted_append, List.singleton_append] at hrest
      exact ⟨hrest, hsame.trans hcount⟩

/-- The entries of a row differ, since their numbers do. -/
theorem nodup_entriesOf (keys : List (Nat × Nat)) (row : Nat) : (entriesOf keys row).Nodup := by
  induction keys using List.reverseRecOn with
  | nil => exact List.nodup_nil
  | append_singleton keys key ih =>
      rw [entriesOf_concat]
      split
      · have hnew : (key.2, keys.length) ∉ entriesOf keys row := by
          simp [mem_entriesOf]
        simpa using ih.concat hnew
      · rwa [List.append_nil]

namespace Lists

/-- No triple is stored twice. -/
theorem nodup_triples (hlists : numbering.Lists keys) : numbering.triples.Nodup := by
  rw [triples, List.nodup_flatMap]
  constructor
  · rintro ⟨entries, row⟩ hentries
    have hrow := hlists.row_eq row
    rw [List.mem_zipIdx_iff_getElem?, Array.getElem?_toList] at hentries
    rw [PairNumbering.row, Array.getD_eq_getD_getElem?, hentries, Option.getD_some] at hrow
    subst hrow
    refine (nodup_entriesOf keys row).map fun first second hequal => ?_
    simpa [Prod.ext_iff] using hequal
  · have hrows := List.nodup_zipIdx_map_snd numbering.rows.toList
    rw [List.Nodup, List.pairwise_map] at hrows
    refine hrows.imp fun {first second} hne => ?_
    refine List.disjoint_left.mpr ?_
    rintro _ hfirst hsecond
    obtain ⟨entry, -, rfl⟩ := List.mem_map.mp hfirst
    obtain ⟨other, -, hequal⟩ := List.mem_map.mp hsecond
    exact hne (Prod.mk.inj hequal).1.symm

/-- The triples are the pairs with their numbers, in the order of the rows. -/
theorem triples_perm (hlists : numbering.Lists keys) :
    numbering.triples.Perm (keys.zipIdx.map fun (key, number) => (key.1, key.2, number)) := by
  have hnodup : (keys.zipIdx.map fun (key, number) => (key.1, key.2, number)).Nodup := by
    have hnumbers := List.nodup_zipIdx_map_snd keys
    rw [List.Nodup, List.pairwise_map] at hnumbers ⊢
    exact hnumbers.imp fun hne hequal => hne (Prod.mk.inj (Prod.mk.inj hequal).2).2
  rw [List.perm_ext_iff_of_nodup hlists.nodup_triples hnodup]
  rintro ⟨row, column, number⟩
  simp [hlists.mem_triples, List.mem_zipIdx_iff_getElem?]

/-- The numbers in use are those below the count, each once. -/
theorem numbers_perm (hlists : numbering.Lists keys) :
    (numbering.triples.map fun triple => triple.2.2).Perm (List.range numbering.count) := by
  have hnumbers := hlists.triples_perm.map fun triple => triple.2.2
  rw [List.map_map] at hnumbers
  rw [hlists.count_eq, List.range_eq_range', ← List.zipIdx_map_snd 0 keys]
  exact hnumbers

end Lists

/-- Triples with new numbers, all different and below the count, pass the check. -/
theorem checkNumbers_eq_ok {count : Nat} {seen : List Nat} {triples : List (Nat × Nat × Nat)}
    (hlt : ∀ triple ∈ triples, triple.2.2 < count) (hnew : ∀ triple ∈ triples, triple.2.2 ∉ seen)
    (hnodup : (triples.map fun triple => triple.2.2).Nodup) :
    checkNumbers count seen triples =
      .ok ((triples.map fun triple => triple.2.2).reverse ++ seen) := by
  induction triples generalizing seen with
  | nil => rfl
  | cons triple triples ih =>
      obtain ⟨row, column, number⟩ := triple
      obtain ⟨hother, hrest⟩ := List.nodup_cons.mp hnodup
      have hnumber : number ∉ seen := hnew _ List.mem_cons_self
      have hbelow : number < count := hlt _ List.mem_cons_self
      have hfresh : ∀ triple ∈ triples, triple.2.2 ∉ number :: seen := by
        intro triple htriple
        rw [List.mem_cons, not_or]
        refine ⟨?_, hnew triple (List.mem_cons_of_mem _ htriple)⟩
        intro hsame
        exact hother (List.mem_map.mpr ⟨triple, htriple, hsame⟩)
      rw [checkNumbers, if_neg (by omega), if_neg hnumber,
        ih (fun triple htriple => hlt triple (List.mem_cons_of_mem _ htriple)) hfresh hrest]
      simp

/-- A numbering that lists pairs has no defect. -/
theorem Lists.defect?_eq_none (hlists : numbering.Lists keys) : numbering.defect? = none := by
  have hperm := hlists.numbers_perm
  have hlt : ∀ triple ∈ numbering.triples, triple.2.2 < numbering.count := fun triple htriple =>
    List.mem_range.mp (hperm.mem_iff.mp (List.mem_map_of_mem htriple))
  have hnew : ∀ triple ∈ numbering.triples, triple.2.2 ∉ ([] : List Nat) := fun _ _ =>
    List.not_mem_nil
  have hcheck := checkNumbers_eq_ok hlt hnew (hperm.nodup_iff.mpr List.nodup_range)
  simp only [defect?, hcheck, List.append_nil, Option.map_eq_none_iff, List.find?_eq_none,
    List.mem_range]
  intro number hnumber
  simpa using hperm.mem_iff.mpr (List.mem_range.mpr hnumber)

section Undirected

/-- The row and column of an unordered pair. -/
def keyOf : Sym2 Nat → Nat × Nat := Sym2.lift ⟨key, key_comm⟩

theorem keyOf_mk (first second : Nat) : keyOf s(first, second) = key first second := rfl

theorem keyOf_injective : Function.Injective keyOf := by
  intro pair other hequal
  induction pair with
  | _ first second =>
      induction other with
      | _ third fourth => exact Sym2.eq_iff.mpr (key_eq_key_iff.mp hequal)

/-- Of some undirected pairs, those that a numbering can have. -/
def fitting (rowCount : Nat) (pairs : List (Nat × Nat)) : List (Sym2 Nat) :=
  (pairs.filter fun pair => min pair.1 pair.2 < rowCount).map fun pair => s(pair.1, pair.2)

/-- How many different pairs come before the first occurrence of a pair. -/
def countBefore (pairs : List (Sym2 Nat)) (pair : Sym2 Nat) : Nat :=
  (pairs.takeWhile (· ≠ pair)).toFinset.card

/-- The insertions of some undirected pairs. -/
def insertions (pairs : List (Nat × Nat)) : List Insertion :=
  pairs.map fun pair => .undirected pair.1 pair.2

/-- Undirected pairs have been inserted, those that have no row among them. -/
structure NumbersAsMet (rowCount : Nat) (pairs : List (Nat × Nat)) (numbering : PairNumbering) :
    Prop where
  insert_eq_refuse_iff : ∀ first second,
    numbering.insert first second = refuse (.rowOutOfRange (min first second) rowCount) ↔
      rowCount ≤ min first second
  leaves_eq : ∀ first second, rowCount ≤ min first second →
    (Insertion.undirected first second).leaves numbering = numbering
  insert_eq_ok : ∀ first second, min first second < rowCount → ∃ extended,
    numbering.insert first second =
      .ok (countBefore (fitting rowCount pairs) s(first, second), extended)
  insert_comm : ∀ first second, numbering.insert first second = numbering.insert second first
  /-- Done to the numbering at hand, an insertion has the same answer. -/
  fst_perform : ∀ first second, ((insertInPlace first second).perform numbering).1 =
    (numbering.insert first second).map Prod.fst
  /-- Once a pair has a number, it is answered whenever the pair is inserted again. -/
  insert_again : ∀ first second number extended,
    numbering.insert first second = .ok (number, extended) →
      ∀ later, ∃ last, (Insertion.leavesAll extended (insertions later)).insert first second =
        .ok (number, last)
  find?_eq : ∀ first second, numbering.find? first second =
    if s(first, second) ∈ fitting rowCount pairs then
      some (countBefore (fitting rowCount pairs) s(first, second))
    else none
  find?_comm : ∀ first second, numbering.find? first second = numbering.find? second first
  count_eq : numbering.count = (fitting rowCount pairs).toFinset.card
  nodup_triples : (numbering.triples.map fun triple => s(triple.1, triple.2.1)).Nodup
  mem_triples_iff : ∀ pair, pair ∈ (numbering.triples.map fun triple => s(triple.1, triple.2.1)) ↔
    pair ∈ fitting rowCount pairs
  numbers_perm :
    (numbering.triples.map fun triple => triple.2.2).Perm (List.range numbering.count)

variable {rowCount : Nat} {pairs : List (Nat × Nat)}

/-- What comes after the first occurrence of a pair does not count. -/
theorem countBefore_append_cons (early late : List (Sym2 Nat)) (pair : Sym2 Nat) :
    countBefore (early ++ pair :: late) pair = countBefore early pair :=
  differentBefore_append_cons early late pair

theorem accepted_insertions (rowCount : Nat) (pairs : List (Nat × Nat)) :
    Insertion.accepted rowCount (insertions pairs) = (fitting rowCount pairs).map keyOf := by
  rw [Insertion.accepted, insertions, fitting, List.map_map, List.map_map, List.filter_map]
  rfl

theorem insertions_append (early late : List (Nat × Nat)) :
    insertions (early ++ late) = insertions early ++ insertions late := List.map_append

theorem fitting_append_cons {first second : Nat} (hrow : min first second < rowCount)
    (early late : List (Nat × Nat)) :
    fitting rowCount (early ++ (first, second) :: late) =
      fitting rowCount early ++ s(first, second) :: fitting rowCount late := by
  rw [fitting, List.filter_append, List.filter_cons, if_pos (decide_eq_true hrow), List.map_append,
    List.map_cons, fitting, fitting]

/-- The different pairs are listed as they came. -/
theorem lists_leavesAll_insertions (rowCount : Nat) (pairs : List (Nat × Nat)) :
    (Insertion.leavesAll (empty rowCount) (insertions pairs)).Lists
      ((seenAfter [] (fitting rowCount pairs)).map keyOf) := by
  obtain ⟨hlists, -⟩ := (lists_empty rowCount).leavesAll (insertions pairs)
  rwa [rowCount_empty, accepted_insertions, ← List.map_nil (f := keyOf),
    seenAfter_map keyOf_injective] at hlists

/-- An insertion that is not refused answers how many different pairs came first. -/
theorem insert_leavesAll_insertions {first second : Nat} (hrow : min first second < rowCount)
    (pairs : List (Nat × Nat)) :
    (Insertion.leavesAll (empty rowCount) (insertions pairs)).insert first second =
      .ok (countBefore (fitting rowCount pairs) s(first, second),
        Insertion.leavesAll (empty rowCount) (insertions (pairs ++ [(first, second)]))) := by
  have hlists := lists_leavesAll_insertions rowCount pairs
  obtain ⟨-, hcount⟩ := (lists_empty rowCount).leavesAll (insertions pairs)
  rw [rowCount_empty] at hcount
  obtain ⟨number, extended, hinsert, hextended, -, hnumber⟩ := hlists.insert (hcount ▸ hrow)
  -- The position of a pair among the pairs seen is the number of those before it.
  have hposition := getElem?_seenAfter_concat (fitting rowCount pairs) s(first, second)
  have hkeys : seenAfter ((seenAfter [] (fitting rowCount pairs)).map keyOf) [key first second] =
      (seenAfter [] (fitting rowCount pairs ++ [s(first, second)])).map keyOf := by
    rw [seenAfter_append]
    exact seenAfter_map keyOf_injective _ [s(first, second)]
  have hsame : number = countBefore (fitting rowCount pairs) s(first, second) := by
    rw [hkeys] at hnumber hextended
    obtain ⟨hlt, hat⟩ := List.getElem?_eq_some_iff.mp hnumber
    refine (List.getElem?_inj hlt hextended.nodup).mp (hnumber.trans ?_)
    rw [countBefore, List.getElem?_map, hposition]
    rfl
  have hleaves : Insertion.leavesAll (empty rowCount) (insertions (pairs ++ [(first, second)])) =
      extended := by
    rw [insertions_append, Insertion.leavesAll_append]
    exact Insertion.leaves_of_eq_ok (.undirected first second) hinsert
  rw [hinsert, hsame, hleaves]

/-- A pair that was inserted is found under the number that it got then. -/
theorem find?_leavesAll_insertions (rowCount : Nat) (pairs : List (Nat × Nat))
    (first second : Nat) :
    (Insertion.leavesAll (empty rowCount) (insertions pairs)).find? first second =
      if s(first, second) ∈ fitting rowCount pairs then
        some (countBefore (fitting rowCount pairs) s(first, second))
      else none := by
  have hlists := lists_leavesAll_insertions rowCount pairs
  split
  · rename_i hmember
    rw [hlists.find?_eq_some_iff, List.getElem?_map]
    exact congrArg (Option.map keyOf) (getElem?_seenAfter_differentBefore hmember)
  · rename_i hmissing
    rw [Option.eq_none_iff_forall_ne_some]
    intro number hnumber
    rw [hlists.find?_eq_some_iff, ← keyOf_mk] at hnumber
    have hmember := (List.mem_map_of_injective keyOf_injective).mp (List.mem_of_getElem? hnumber)
    exact hmissing ((mem_seenAfter.mp hmember).resolve_left List.not_mem_nil)

theorem mk_keyOf (pair : Sym2 Nat) : s((keyOf pair).1, (keyOf pair).2) = pair := by
  induction pair with
  | _ first second =>
      rw [keyOf_mk]
      rcases Nat.le_total first second with hle | hle
      · rw [key_of_le hle]
      · rw [key_comm, key_of_le hle, Sym2.eq_swap]

/-- The stored pairs are the different ones that were inserted. -/
theorem map_triples_perm_seenAfter (rowCount : Nat) (pairs : List (Nat × Nat)) :
    ((Insertion.leavesAll (empty rowCount) (insertions pairs)).triples.map
      fun triple => s(triple.1, triple.2.1)).Perm (seenAfter [] (fitting rowCount pairs)) := by
  have hperm := (lists_leavesAll_insertions rowCount pairs).triples_perm.map
    fun triple => s(triple.1, triple.2.1)
  rw [List.zipIdx_map, List.map_map, List.map_map] at hperm
  refine hperm.trans (.of_eq ?_)
  conv_rhs => rw [← List.zipIdx_map_fst 0 (seenAfter [] (fitting rowCount pairs))]
  apply List.map_congr_left
  rintro ⟨pair, number⟩ -
  exact mk_keyOf pair

theorem numbersAsMet_leavesAll (rowCount : Nat) (pairs : List (Nat × Nat)) :
    NumbersAsMet rowCount pairs (Insertion.leavesAll (empty rowCount) (insertions pairs)) := by
  have hlists := lists_leavesAll_insertions rowCount pairs
  have hperm := map_triples_perm_seenAfter rowCount pairs
  have hrefused {first second : Nat} (hrow : rowCount ≤ min first second) :
      (Insertion.leavesAll (empty rowCount) (insertions pairs)).insert first second =
        refuse (.rowOutOfRange (min first second) rowCount) := by
    obtain ⟨-, hcount⟩ := (lists_empty rowCount).leavesAll (insertions pairs)
    rw [rowCount_empty] at hcount
    rw [insert_eq_refuse (by rwa [hcount]), hcount]
  exact {
    insert_eq_refuse_iff := fun first second => by
      refine ⟨fun hequal => ?_, hrefused⟩
      by_contra hrow
      rw [insert_leavesAll_insertions (Nat.not_le.mp hrow)] at hequal
      cases hequal
    leaves_eq := fun first second hrow => by
      exact Insertion.leaves_of_eq_error (.undirected first second) (hrefused hrow)
    insert_eq_ok := fun first second hrow => ⟨_, insert_leavesAll_insertions hrow pairs⟩
    insert_comm := insert_comm _
    fst_perform := fun first second =>
      (Insertion.action_performs _ (.undirected first second)).fst_perform
    insert_again := fun first second number extended hinsert later => by
      have hrow : min first second < rowCount := by
        by_contra hrow
        rw [hrefused (Nat.not_lt.mp hrow)] at hinsert
        cases hinsert
      rw [insert_leavesAll_insertions hrow] at hinsert
      obtain ⟨rfl, rfl⟩ := Prod.mk.inj (Except.ok.inj hinsert)
      have hcount := countBefore_append_cons (fitting rowCount pairs) (fitting rowCount later)
        s(first, second)
      rw [← fitting_append_cons hrow] at hcount
      rw [← Insertion.leavesAll_append, ← insertions_append, List.append_assoc,
        List.singleton_append, insert_leavesAll_insertions hrow, hcount]
      exact ⟨_, rfl⟩
    find?_eq := find?_leavesAll_insertions rowCount pairs
    find?_comm := find?_comm _
    count_eq := by rw [hlists.count_eq, List.length_map, length_seenAfter_nil]
    nodup_triples := hperm.nodup_iff.mpr (nodup_seenAfter List.nodup_nil _)
    mem_triples_iff := fun pair => by
      rw [hperm.mem_iff, mem_seenAfter]
      simp
    numbers_perm := hlists.numbers_perm }

end Undirected

/-- Undirected insertions number the different pairs in the order of their first occurrence,
whatever is refused among them. Mixed with directed ones, they still leave a numbering without
defect, in which looking up and listing agree. -/
theorem numbersAsMet_of_insertions (rowCount : Nat) :
    (∀ pairs, NumbersAsMet rowCount pairs
      (Insertion.leavesAll (empty rowCount) (insertions pairs))) ∧
    ∀ mixed, (Insertion.leavesAll (empty rowCount) mixed).defect? = none ∧
      ∀ row column number,
        (Insertion.leavesAll (empty rowCount) mixed).directed? row column = some number ↔
          (row, column, number) ∈ (Insertion.leavesAll (empty rowCount) mixed).triples := by
  refine ⟨numbersAsMet_leavesAll rowCount, fun mixed => ?_⟩
  obtain ⟨hlists, -⟩ := (lists_empty rowCount).leavesAll mixed
  exact ⟨hlists.defect?_eq_none, fun row column number => by
    rw [hlists.directed?_eq_some_iff, hlists.mem_triples]⟩

end PairNumbering

end MeshIncidence
