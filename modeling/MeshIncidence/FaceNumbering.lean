/-
# Numbered faces

The faces of a mesh are triangles and quadrilaterals, known by their vertices.
Two elements that share a face list its vertices from different starts and in
different directions, so a face is kept by its vertices in increasing order; its
number is the order of its first occurrence.

A list of vertices of any other length is no face, and nothing is kept for it.
-/

import MeshIncidence.Journal

namespace MeshIncidence

/-- Put a number into an increasing list. -/
def insertAscending (number : Nat) : List Nat → List Nat
  | [] => [number]
  | first :: rest =>
    if number ≤ first then number :: first :: rest
    else first :: insertAscending number rest

/-- The same numbers in increasing order. -/
def ascending : List Nat → List Nat
  | [] => []
  | number :: numbers => insertAscending number (ascending numbers)

theorem insertAscending_perm (number : Nat) (numbers : List Nat) :
    (insertAscending number numbers).Perm (number :: numbers) := by
  induction numbers with
  | nil => exact List.Perm.refl _
  | cons first rest ih =>
    unfold insertAscending
    split
    · exact List.Perm.refl _
    · exact (ih.cons first).trans (List.Perm.swap number first rest)

theorem ascending_perm (numbers : List Nat) : (ascending numbers).Perm numbers := by
  induction numbers with
  | nil => exact List.Perm.refl _
  | cons number numbers ih =>
    exact (insertAscending_perm number (ascending numbers)).trans (ih.cons number)

/-- Faces with numbers in the order of their first occurrence. -/
structure FaceNumbering where
  /-- The vertices of the faces, increasing; a face's number is its position. -/
  known : List (List Nat)
deriving DecidableEq, Repr

namespace FaceNumbering

/-- The numbering without faces. -/
def empty : FaceNumbering := ⟨[]⟩

variable (faces : FaceNumbering)

/-- Number of faces. -/
def count : Nat := faces.known.length

/-- There are no faces. -/
def isEmpty : Bool := faces.known.isEmpty

/-- What a face is known by; none for a list of vertices that is no face. -/
def key? (vertices : List Nat) : Option (List Nat) :=
  if vertices.length = 3 ∨ vertices.length = 4 then some (ascending vertices) else none

/-- The number of a face. -/
def find? (vertices : List Nat) : Option Nat :=
  match key? vertices with
  | none => none
  | some key => faces.known.idxOf? key

/-- Find a face or give it the next number; none for a list of vertices that is
no face. -/
def insert? (vertices : List Nat) : Option (Nat × FaceNumbering) :=
  match key? vertices with
  | none => none
  | some key =>
    match faces.known.idxOf? key with
    | some number => some (number, faces)
    | none => some (faces.count, ⟨faces.known ++ [key]⟩)

/-- Insert a face into the numbering at hand; none, and no change, for a list of
vertices that is no face. -/
def insertInPlace? (vertices : List Nat) : Action FaceNumbering (Option Nat) :=
  match key? vertices with
  | none => return none
  | some key => do
    let faces ← Action.state
    match faces.known.idxOf? key with
    | some number => return some number
    | none =>
      let number := faces.count
      Action.change fun faces => .ok ⟨faces.known ++ [key]⟩
      return some number

/-- Number some faces, in order. A list of vertices that is no face is refused. -/
def insertAll : FaceNumbering → List (List Nat) → Result FaceNumbering
  | faces, [] => .ok faces
  | faces, vertices :: rest =>
    match faces.insert? vertices with
    | some (_, faces) => insertAll faces rest
    | none => refuse (.mesh (.faceSize vertices.length))

end FaceNumbering

end MeshIncidence
