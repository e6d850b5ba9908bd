/-
# Named sets

A named set is a list of members under a name; members may repeat and their
order counts. The sets of one kind form a list, and a set is addressed by its
position there or by its name. Names may repeat too: the name then stands for
the last set that has it, while the others can still be reached by position.
-/

import MeshIncidence.Failure

namespace MeshIncidence

/-- A list of members under a name. -/
structure NamedSet (α : Type) where
  name : String
  members : List α
deriving DecidableEq, Repr

namespace NamedSet

variable {α : Type}

/-- The last position at which a set has a given name. -/
def lastPosition? (name : String) : List (NamedSet α) → Option Nat
  | [] => none
  | set :: sets =>
    match lastPosition? name sets with
    | some position => some (position + 1)
    | none => if set.name = name then some 0 else none

/-- A name stands for the set that got it last. -/
theorem lastPosition?_concat (name : String) (members : List α)
    (sets : List (NamedSet α)) :
    lastPosition? name (sets ++ [⟨name, members⟩]) = some sets.length := by
  induction sets with
  | nil => simp [lastPosition?]
  | cons set sets ih => simp [lastPosition?, ih]

end NamedSet

/-- Named sets of each kind, in the order in which they were added. -/
abbrev SetsByKind (α : Type) := PerKind (List (NamedSet α))

namespace SetsByKind

variable {α : Type} (sets : SetsByKind α)

/-- No sets of any kind. -/
def none : SetsByKind α := PerKind.constant []

/-- Number of sets of a kind. -/
def count (kind : Kind) : Nat := (sets.get kind).length

/-- Number of sets of every kind. -/
def counts : PerKind Nat := ⟨sets.count .vertex, sets.count .edge, sets.count .face,
  sets.count .element⟩

/-- The set at a position. -/
def setAt (kind : Kind) (position : Nat) : Result (NamedSet α) :=
  match (sets.get kind)[position]? with
  | some set => .ok set
  | Option.none => stop .outOfRange

/-- The position a name stands for. -/
def positionOf (kind : Kind) (name : String) : Result Nat :=
  match NamedSet.lastPosition? name (sets.get kind) with
  | some position => .ok position
  | Option.none => refuse (.unknownSetName kind name)

/-- The set a name stands for. -/
def setNamed (kind : Kind) (name : String) : Result (NamedSet α) := do
  let position ← sets.positionOf kind name
  sets.setAt kind position

/-- A member of the set at a position. -/
def memberAt (kind : Kind) (position index : Nat) : Result α := do
  let set ← sets.setAt kind position
  match set.members[index]? with
  | some member => return member
  | Option.none => stop .outOfRange

/-- A member of the set that a name stands for. -/
def memberNamed (kind : Kind) (name : String) (index : Nat) : Result α := do
  let set ← sets.setNamed kind name
  match set.members[index]? with
  | some member => return member
  | Option.none => refuse (.rowOutOfRange index set.members.length)

/-- Add a set at the end; the answer is its position. -/
def add (kind : Kind) (name : String) (members : List α) : Nat × SetsByKind α :=
  (sets.count kind, sets.set kind (sets.get kind ++ [⟨name, members⟩]))

/-- Change the members of the set at a position. -/
def modifyAt (kind : Kind) (position : Nat) (change : List α → List α) :
    Result (SetsByKind α) := do
  let set ← sets.setAt kind position
  return sets.set kind <|
    (sets.get kind).set position { set with members := change set.members }

end SetsByKind

end MeshIncidence
