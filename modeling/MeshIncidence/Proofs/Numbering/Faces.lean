/-
# What numbered faces are

A numbering of faces is the list of its keys already; what is left to say is that
a key stands for a set of vertices with repetitions, and that numbering the faces
of a mesh lists their keys at their first occurrence. The rows of the face table
are those first occurrences themselves, so they have the same keys.
-/

import MeshIncidence.Mesh.ElementMesh
import MeshIncidence.Proofs.Numbering.FirstOccurrence
import Mathlib.Data.List.Sort

namespace MeshIncidence

theorem insertAscending_eq_orderedInsert (number : Nat) (numbers : List Nat) :
    insertAscending number numbers = numbers.orderedInsert (· ≤ ·) number := by
  induction numbers with
  | nil => rfl
  | cons first rest ih => rw [insertAscending, List.orderedInsert_cons, ih]

theorem ascending_eq_insertionSort (numbers : List Nat) :
    ascending numbers = numbers.insertionSort (· ≤ ·) := by
  induction numbers with
  | nil => rfl
  | cons number numbers ih =>
      rw [ascending, insertAscending_eq_orderedInsert, ih, List.insertionSort_cons]

/-- Lists are the same in increasing order when they have the same members, each as
often. -/
theorem ascending_eq_ascending_iff {first second : List Nat} :
    ascending first = ascending second ↔ first.Perm second := by
  constructor
  · intro hequal
    exact (ascending_perm first).symm.trans (hequal ▸ ascending_perm second)
  · intro hperm
    have hboth : (ascending first).Perm (ascending second) :=
      (ascending_perm first).trans (hperm.trans (ascending_perm second).symm)
    rw [ascending_eq_insertionSort, ascending_eq_insertionSort] at hboth ⊢
    exact hboth.eq_of_pairwise' (List.pairwise_insertionSort _ _)
      (List.pairwise_insertionSort _ _)

/-- The vertices are those of a triangle or of a quadrilateral. -/
def IsFace (vertices : List Nat) : Prop := vertices.length = 3 ∨ vertices.length = 4

namespace FaceNumbering

variable {faces : FaceNumbering}

theorem key?_of_isFace {vertices : List Nat} (hface : IsFace vertices) :
    key? vertices = some (ascending vertices) := if_pos hface

/-- A face is found under the number of the position of its key. -/
theorem find?_eq_some_iff (hnodup : faces.known.Nodup) {vertices : List Nat}
    (hface : IsFace vertices) {number : Nat} :
    faces.find? vertices = some number ↔ faces.known[number]? = some (ascending vertices) := by
  rw [find?, key?_of_isFace hface]
  exact idxOf?_eq_some_iff_getElem? hnodup

/-- Which face is found does not depend on the order of the vertices. -/
theorem find?_perm {first second : List Nat} (hperm : first.Perm second) :
    faces.find? first = faces.find? second := by
  rw [find?, find?, key?, key?, hperm.length_eq, ascending_eq_ascending_iff.mpr hperm]

/-- Inserting a face lists its key if it is new. -/
theorem insert?_eq (faces : FaceNumbering) {vertices : List Nat} (hface : IsFace vertices) :
    ∃ number, faces.insert? vertices =
        some (number, ⟨seenAfter faces.known [ascending vertices]⟩) ∧
      (ascending vertices ∈ faces.known ∧ number < faces.count ∨
        ascending vertices ∉ faces.known ∧ number = faces.count) := by
  simp only [insert?, key?_of_isFace hface]
  cases hfound : faces.known.idxOf? (ascending vertices) with
  | none =>
      have hnew := List.idxOf?_eq_none_iff.mp hfound
      exact ⟨faces.count, by simp [seenAfter, hnew], .inr ⟨hnew, rfl⟩⟩
  | some number =>
      obtain ⟨hlt, hat, -⟩ := List.idxOf?_eq_some_iff.mp hfound
      have hknown : ascending vertices ∈ faces.known := hat ▸ List.getElem_mem hlt
      exact ⟨number, by simp [seenAfter, hknown], .inl ⟨hknown, hlt⟩⟩

/-- Numbering more faces lists the keys that are new, as they come. -/
theorem insertAll_eq {vertexLists : List (List Nat)}
    (hfaces : ∀ vertices ∈ vertexLists, IsFace vertices) :
    faces.insertAll vertexLists = .ok ⟨seenAfter faces.known (vertexLists.map ascending)⟩ := by
  induction vertexLists generalizing faces with
  | nil => rfl
  | cons vertices rest ih =>
      obtain ⟨number, hinsert, -⟩ := insert?_eq faces (hfaces vertices (by simp))
      rw [insertAll, hinsert]
      show insertAll _ rest = _
      rw [ih fun others hothers => hfaces others (by simp [hothers]), List.map_cons,
        seenAfter_cons faces.known _ (rest.map ascending)]

end FaceNumbering

/-- The faces met for the first time have the keys that are new, in order. -/
theorem map_ascending_firstFaces (faces : FaceNumbering) {vertexLists : List (List Nat)}
    (hfaces : ∀ vertices ∈ vertexLists, IsFace vertices) :
    faces.known ++ (firstFaces faces.count faces vertexLists).map ascending =
      seenAfter faces.known (vertexLists.map ascending) := by
  induction vertexLists generalizing faces with
  | nil => simp [firstFaces, seenAfter]
  | cons vertices rest ih =>
      obtain ⟨number, hinsert, hnumber⟩ :=
        FaceNumbering.insert?_eq faces (hfaces vertices (by simp))
      have hrest := fun numbering =>
        ih numbering fun others hothers => hfaces others (by simp [hothers])
      simp only [firstFaces, hinsert]
      rcases hnumber with ⟨hknown, hlt⟩ | ⟨hnew, rfl⟩
      · rw [if_neg (by omega)]
        simpa [seenAfter, hknown] using hrest faces
      · rw [if_pos rfl]
        have hnext := hrest ⟨faces.known ++ [ascending vertices]⟩
        simp only [FaceNumbering.count, List.length_append, List.length_singleton] at hnext
        simpa [seenAfter, hnew, FaceNumbering.count] using hnext

/-- A face met for the first time is one of the faces. -/
theorem mem_of_mem_firstFaces {count : Nat} {faces : FaceNumbering}
    {vertexLists : List (List Nat)} {vertices : List Nat}
    (hfirst : vertices ∈ firstFaces count faces vertexLists) : vertices ∈ vertexLists := by
  induction vertexLists generalizing count faces with
  | nil => simp [firstFaces] at hfirst
  | cons first rest ih =>
      rw [firstFaces] at hfirst
      rw [List.mem_cons]
      split at hfirst
      · split at hfirst
        · exact (List.mem_cons.mp hfirst).imp id ih
        · exact .inr (ih hfirst)
      · exact .inr (ih hfirst)

end MeshIncidence
