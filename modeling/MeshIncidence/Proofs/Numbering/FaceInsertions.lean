/-
# Faces inserted in any order

Faces are inserted one after another, triangles and quadrilaterals mixed, and a list of
vertices that is no face is refused and leaves the numbering as it is. Whatever the order, the
numbering lists the keys of the different faces at their first occurrence: one insertion keeps
this, hence every sequence does.

What a face is does not depend on the order of its vertices, so it is a multiset of them. The
key is one list for each multiset, and as it is as long as the face, no triangle has the key
of a quadrilateral.
-/

import MeshIncidence.Proofs.Changes
import MeshIncidence.Proofs.Numbering.Faces
import Mathlib.Data.Multiset.Basic

namespace MeshIncidence

instance (vertices : List Nat) : Decidable (IsFace vertices) :=
  inferInstanceAs (Decidable (_ ∨ _))

theorem IsFace.of_perm {first second : List Nat} (hface : IsFace first)
    (hperm : first.Perm second) : IsFace second := by
  rwa [IsFace, ← hperm.length_eq]

namespace FaceNumbering

/-- The key of a face that is given by its vertices without their order. -/
def keyOf : Multiset Nat → List Nat :=
  Quot.lift ascending fun _ _ hperm => ascending_eq_ascending_iff.mpr hperm

theorem keyOf_coe (vertices : List Nat) : keyOf vertices = ascending vertices := rfl

theorem keyOf_injective : Function.Injective keyOf := by
  intro face other hequal
  induction face using Quotient.inductionOn with
  | h vertices =>
      induction other using Quotient.inductionOn with
      | h others => exact Quotient.sound (ascending_eq_ascending_iff.mp hequal)

/-- The faces among some lists of vertices. -/
def accepted (given : List (List Nat)) : List (Multiset Nat) :=
  (given.filter (IsFace ·)).map Multiset.ofList

theorem accepted_append (early late : List (List Nat)) :
    accepted (early ++ late) = accepted early ++ accepted late := by
  rw [accepted, List.filter_append, List.map_append, accepted, accepted]

theorem accepted_cons_of_isFace {vertices : List Nat} (hface : IsFace vertices)
    (given : List (List Nat)) :
    accepted (vertices :: given) = (vertices : Multiset Nat) :: accepted given := by
  simp [accepted, hface]

theorem accepted_cons_of_not_isFace {vertices : List Nat} (hface : ¬ IsFace vertices)
    (given : List (List Nat)) : accepted (vertices :: given) = accepted given := by
  simp [accepted, hface]

theorem mem_accepted {given : List (List Nat)} {vertices : List Nat} :
    (vertices : Multiset Nat) ∈ accepted given ↔
      ∃ others ∈ given, IsFace others ∧ others.Perm vertices := by
  simp only [accepted, List.mem_map, List.mem_filter, decide_eq_true_eq, Multiset.coe_eq_coe,
    and_assoc]

/-- The numbering after an insertion, whether it finds a face or refuses the list. -/
def leaves (faces : FaceNumbering) (vertices : List Nat) : FaceNumbering :=
  (insertInPlace? vertices).reached faces

/-- The numbering after some insertions. -/
def leavesAll (faces : FaceNumbering) (given : List (List Nat)) : FaceNumbering :=
  given.foldl leaves faces

/-- The numbering as a finite map from keys to numbers. -/
def entries (faces : FaceNumbering) : List (List Nat × Nat) := faces.known.zipIdx

variable {faces : FaceNumbering}

theorem leavesAll_append (faces : FaceNumbering) (early late : List (List Nat)) :
    faces.leavesAll (early ++ late) = (faces.leavesAll early).leavesAll late :=
  List.foldl_append

theorem key?_of_not_isFace {vertices : List Nat} (hface : ¬ IsFace vertices) :
    key? vertices = none := if_neg hface

theorem insert?_eq_none {vertices : List Nat} (hface : ¬ IsFace vertices) :
    faces.insert? vertices = none := by
  rw [insert?, key?_of_not_isFace hface]

theorem find?_eq_none {vertices : List Nat} (hface : ¬ IsFace vertices) :
    faces.find? vertices = none := by
  rw [find?, key?_of_not_isFace hface]

theorem isFace_of_insert?_eq_some {vertices : List Nat} {result : Nat × FaceNumbering}
    (hinsert : faces.insert? vertices = some result) : IsFace vertices := by
  by_contra hface
  rw [insert?_eq_none hface] at hinsert
  cases hinsert

theorem isFace_of_find?_eq_some {vertices : List Nat} {number : Nat}
    (hfound : faces.find? vertices = some number) : IsFace vertices := by
  by_contra hface
  rw [find?_eq_none hface] at hfound
  cases hfound

/-- An insertion into the numbering at hand changes nothing if there is no answer. -/
theorem insertInPlace?_performs (faces : FaceNumbering) (vertices : List Nat) :
    (insertInPlace? vertices).Performs faces (.ok ((faces.insert? vertices).map Prod.fst,
      ((faces.insert? vertices).map Prod.snd).getD faces)) := by
  rw [insertInPlace?, insert?]
  cases key? vertices with
  | none => exact .of_runs (Action.runs_pure _)
  | some key =>
      dsimp only
      refine .state_bind ?_
      cases faces.known.idxOf? key with
      | some number => exact .of_runs (Action.runs_pure _)
      | none => exact .of_runs (Action.runs_change_ok.bind (Action.runs_pure _))

theorem leaves_eq (faces : FaceNumbering) (vertices : List Nat) :
    faces.leaves vertices = ((faces.insert? vertices).map Prod.snd).getD faces :=
  (faces.insertInPlace?_performs vertices).reached_of_eq_ok rfl

/-- An insertion answers the number of the face, or else the next one. -/
theorem insert?_eq_some {vertices : List Nat} (hface : IsFace vertices) :
    faces.insert? vertices =
      some ((faces.find? vertices).getD faces.count, faces.leaves vertices) := by
  rw [leaves_eq]
  simp only [insert?, find?, key?_of_isFace hface]
  cases faces.known.idxOf? (ascending vertices) <;> rfl

theorem leaves_of_not_isFace {vertices : List Nat} (hface : ¬ IsFace vertices) :
    faces.leaves vertices = faces := by
  rw [leaves_eq, insert?_eq_none hface]
  rfl

theorem leaves_of_isFace {vertices : List Nat} (hface : IsFace vertices) :
    faces.leaves vertices = ⟨seenAfter faces.known [ascending vertices]⟩ := by
  obtain ⟨number, hinsert, -⟩ := insert?_eq faces hface
  rw [leaves_eq, hinsert]
  rfl

theorem lookup_zipIdx {α : Type} [BEq α] [LawfulBEq α] (values : List α) (start : Nat) (value : α) :
    (values.zipIdx start).lookup value = (values.idxOf? value).map (start + ·) := by
  induction values generalizing start with
  | nil => rfl
  | cons first values ih =>
      rw [List.zipIdx_cons, List.lookup_cons, List.idxOf?_cons, ih, BEq.comm (a := value)]
      cases first == value with
      | true => rfl
      | false => simp [Function.comp_def, Nat.add_right_comm, ← Nat.add_assoc]

/-- An insertion looks the key up in the map and, if it is missing, enters it under the size of
the map. -/
theorem insert?_entries {vertices : List Nat} (hface : IsFace vertices) :
    faces.insert? vertices = some
        ((faces.entries.lookup (ascending vertices)).getD faces.entries.length,
          faces.leaves vertices) ∧
      (faces.leaves vertices).entries =
        if (faces.entries.lookup (ascending vertices)).isSome then faces.entries
        else faces.entries ++ [(ascending vertices, faces.entries.length)] := by
  have hlookup : faces.entries.lookup (ascending vertices) = faces.find? vertices := by
    rw [entries, lookup_zipIdx, find?, key?_of_isFace hface]
    simp
  rw [hlookup, entries, List.length_zipIdx]
  refine ⟨insert?_eq_some hface, ?_⟩
  rw [leaves_eq]
  simp only [insert?, find?, key?_of_isFace hface]
  cases faces.known.idxOf? (ascending vertices) with
  | some number => rfl
  | none => simp [entries, List.zipIdx_append]

/-- After any insertions the keys of the different faces are listed as they came. -/
theorem leavesAll_eq (faces : FaceNumbering) (given : List (List Nat)) :
    faces.leavesAll given = ⟨seenAfter faces.known ((accepted given).map keyOf)⟩ := by
  induction given generalizing faces with
  | nil => rfl
  | cons vertices given ih =>
      rw [leavesAll, List.foldl_cons, ← leavesAll, ih]
      by_cases hface : IsFace vertices
      · rw [leaves_of_isFace hface, accepted_cons_of_isFace hface, List.map_cons, keyOf_coe,
          seenAfter_cons _ _ ((accepted given).map keyOf)]
      · rw [leaves_of_not_isFace hface, accepted_cons_of_not_isFace hface]

section FromEmpty

variable {given : List (List Nat)} {vertices : List Nat}

theorem known_leavesAll_empty (given : List (List Nat)) :
    (empty.leavesAll given).known = (seenAfter [] (accepted given)).map keyOf := by
  rw [leavesAll_eq, ← seenAfter_map keyOf_injective]
  rfl

theorem nodup_known_leavesAll_empty (given : List (List Nat)) :
    (empty.leavesAll given).known.Nodup := by
  rw [known_leavesAll_empty]
  exact (nodup_seenAfter List.nodup_nil _).map keyOf_injective

theorem count_leavesAll_empty (given : List (List Nat)) :
    (empty.leavesAll given).count = (accepted given).toFinset.card := by
  rw [count, known_leavesAll_empty, List.length_map, length_seenAfter_nil]

/-- Each key is that of a face that was inserted. -/
theorem exists_of_mem_known_leavesAll_empty {key : List Nat}
    (hkey : key ∈ (empty.leavesAll given).known) :
    ∃ vertices, IsFace vertices ∧ ascending vertices = key := by
  rw [known_leavesAll_empty] at hkey
  obtain ⟨face, hseen, rfl⟩ := List.mem_map.mp hkey
  have hface := (mem_seenAfter.mp hseen).resolve_left List.not_mem_nil
  obtain ⟨vertices, hvertices, rfl⟩ := List.mem_map.mp hface
  exact ⟨vertices, of_decide_eq_true (List.mem_filter.mp hvertices).2, rfl⟩

/-- A face that was inserted is found under the number of different faces before it. -/
theorem find?_leavesAll_empty (hmember : (vertices : Multiset Nat) ∈ accepted given) :
    (empty.leavesAll given).find? vertices =
      some (differentBefore (accepted given) (vertices : Multiset Nat)) := by
  obtain ⟨others, -, hface, hperm⟩ := mem_accepted.mp hmember
  rw [find?_eq_some_iff (nodup_known_leavesAll_empty given) (hface.of_perm hperm),
    known_leavesAll_empty, List.getElem?_map, getElem?_seenAfter_differentBefore hmember]
  rfl

/-- A face that was not inserted is not found. -/
theorem find?_leavesAll_empty_of_notMem (hmissing : (vertices : Multiset Nat) ∉ accepted given) :
    (empty.leavesAll given).find? vertices = none := by
  by_cases hface : IsFace vertices
  · rw [Option.eq_none_iff_forall_ne_some]
    intro number hfound
    rw [find?_eq_some_iff (nodup_known_leavesAll_empty given) hface, known_leavesAll_empty,
      ← keyOf_coe] at hfound
    have hseen := (List.mem_map_of_injective keyOf_injective).mp (List.mem_of_getElem? hfound)
    exact hmissing ((mem_seenAfter.mp hseen).resolve_left List.not_mem_nil)
  · exact find?_eq_none hface

/-- An insertion answers how many different faces came first. -/
theorem insert?_leavesAll_empty (hface : IsFace vertices) (given : List (List Nat)) :
    (empty.leavesAll given).insert? vertices =
      some (differentBefore (accepted given) (vertices : Multiset Nat),
        (empty.leavesAll given).leaves vertices) := by
  rw [insert?_eq_some hface]
  by_cases hmember : (vertices : Multiset Nat) ∈ accepted given
  · rw [find?_leavesAll_empty hmember, Option.getD_some]
  · rw [find?_leavesAll_empty_of_notMem hmember, Option.getD_none, count_leavesAll_empty,
      differentBefore_of_notMem hmember]

/-- Of two faces inserted one after the other, each answer counts the faces before the first
occurrence among all that were inserted up to then. -/
theorem number_eq_number_iff {first second : List Nat} {extended last : FaceNumbering}
    {number other : Nat} {between : List (List Nat)}
    (hfirst : (empty.leavesAll given).insert? first = some (number, extended))
    (hsecond : (extended.leavesAll between).insert? second = some (other, last)) :
    number = other ↔ first.Perm second := by
  have hface := isFace_of_insert?_eq_some hfirst
  have hstart := insert?_leavesAll_empty hface given
  rw [hfirst, Option.some.injEq, Prod.mk.injEq] at hstart
  obtain ⟨rfl, rfl⟩ := hstart
  have hmiddle : ((empty.leavesAll given).leaves first).leavesAll between =
      empty.leavesAll (given ++ first :: between) := by
    rw [leavesAll_append]
    rfl
  have hend := insert?_leavesAll_empty (isFace_of_insert?_eq_some hsecond)
    (given ++ first :: between)
  rw [hmiddle] at hsecond
  rw [hsecond, Option.some.injEq, Prod.mk.injEq, accepted_append,
    accepted_cons_of_isFace hface] at hend
  rw [hend.1, ← differentBefore_append_cons _ (accepted between), differentBefore_inj (by simp),
    Multiset.coe_eq_coe]

/-- A face that is found stays where it is. -/
theorem find?_leavesAll_append {number : Nat}
    (hfound : (empty.leavesAll given).find? vertices = some number) (later : List (List Nat)) :
    (empty.leavesAll (given ++ later)).find? vertices = some number := by
  have hmember : (vertices : Multiset Nat) ∈ accepted given := by
    by_contra hmissing
    rw [find?_leavesAll_empty_of_notMem hmissing] at hfound
    cases hfound
  rw [find?_leavesAll_empty hmember] at hfound
  rw [find?_leavesAll_empty (by simp [accepted_append, hmember]), accepted_append,
    differentBefore_append_of_mem hmember, hfound]

/-- All numbers below the count are in use, and no others. -/
theorem exists_find?_leavesAll_iff (given : List (List Nat)) (number : Nat) :
    (∃ vertices, (empty.leavesAll given).find? vertices = some number) ↔
      number < (empty.leavesAll given).count := by
  have hnodup := nodup_known_leavesAll_empty given
  constructor
  · rintro ⟨vertices, hfound⟩
    have hface := isFace_of_find?_eq_some hfound
    exact (List.getElem?_eq_some_iff.mp ((find?_eq_some_iff hnodup hface).mp hfound)).1
  · intro hlt
    have hknown := List.getElem?_eq_getElem hlt
    obtain ⟨vertices, hface, hkey⟩ :=
      exists_of_mem_known_leavesAll_empty (List.mem_of_getElem? hknown)
    exact ⟨vertices, (find?_eq_some_iff hnodup hface).mpr (hknown.trans (congrArg some hkey.symm))⟩

end FromEmpty

/-- Some lists of vertices have been inserted, and those that are no faces refused. -/
structure NumbersAsMet (given : List (List Nat)) (faces : FaceNumbering) : Prop where
  insert?_eq_none_iff : ∀ vertices, faces.insert? vertices = none ↔ ¬ IsFace vertices
  /-- Done to the numbering at hand, an insertion has the same answer. -/
  fst_perform : ∀ vertices, ((insertInPlace? vertices).perform faces).1 =
    .ok ((faces.insert? vertices).map Prod.fst)
  leaves_eq : ∀ vertices, ¬ IsFace vertices → faces.leaves vertices = faces
  insert?_eq : ∀ vertices, IsFace vertices → faces.insert? vertices =
    some (differentBefore (accepted given) (vertices : Multiset Nat), faces.leaves vertices)
  /-- Whatever is inserted between two faces, they get one number if they have the same vertices,
  each as often, and two if not. -/
  same_number_iff : ∀ first number extended, faces.insert? first = some (number, extended) →
    ∀ between second other last,
      (extended.leavesAll between).insert? second = some (other, last) →
        (number = other ↔ first.Perm second)
  find?_eq_some : ∀ others ∈ given, IsFace others → ∀ vertices, others.Perm vertices →
    faces.find? vertices = some (differentBefore (accepted given) (others : Multiset Nat))
  find?_eq_none : ∀ vertices, (∀ others ∈ given, IsFace others → ¬ others.Perm vertices) →
    faces.find? vertices = none
  /-- A face that is found stays where it is. -/
  find?_later : ∀ vertices number, faces.find? vertices = some number →
    ∀ later, (faces.leavesAll later).find? vertices = some number
  count_eq : faces.count = (accepted given).toFinset.card
  exists_find?_iff : ∀ number, (∃ vertices, faces.find? vertices = some number) ↔
    number < faces.count
  /-- As a finite map, the numbering enters a missing key under the size of the map. -/
  insert?_entries : ∀ vertices, IsFace vertices → faces.insert? vertices = some
      ((faces.entries.lookup (ascending vertices)).getD faces.entries.length,
        faces.leaves vertices) ∧
    (faces.leaves vertices).entries =
      if (faces.entries.lookup (ascending vertices)).isSome then faces.entries
      else faces.entries ++ [(ascending vertices, faces.entries.length)]

/-- Insertions number the different faces in the order of their first occurrence. A face is known
by its vertices in any order, its number does not change, all numbers below the count are in
use, and what is no face is refused. -/
theorem numbersFacesAsMet (given : List (List Nat)) :
    NumbersAsMet given (empty.leavesAll given) where
  insert?_eq_none_iff vertices := by
    refine ⟨fun hnone hface => ?_, insert?_eq_none⟩
    rw [insert?_eq_some hface] at hnone
    cases hnone
  fst_perform vertices := (insertInPlace?_performs _ vertices).fst_perform
  leaves_eq vertices := leaves_of_not_isFace
  insert?_eq vertices hface := insert?_leavesAll_empty hface given
  same_number_iff _ _ _ hfirst _ _ _ _ hsecond := number_eq_number_iff hfirst hsecond
  find?_eq_some others hothers hface vertices hperm := by
    rw [Multiset.coe_eq_coe.mpr hperm]
    exact find?_leavesAll_empty (mem_accepted.mpr ⟨others, hothers, hface, hperm⟩)
  find?_eq_none vertices hmissing := by
    refine find?_leavesAll_empty_of_notMem fun hmember => ?_
    obtain ⟨others, hothers, hface, hperm⟩ := mem_accepted.mp hmember
    exact hmissing others hothers hface hperm
  find?_later vertices number hfound later := by
    rw [← leavesAll_append]
    exact find?_leavesAll_append hfound later
  count_eq := count_leavesAll_empty given
  exists_find?_iff := exists_find?_leavesAll_iff given
  insert?_entries vertices := insert?_entries

end FaceNumbering

end MeshIncidence
