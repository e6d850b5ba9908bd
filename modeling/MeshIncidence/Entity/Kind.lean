/-
# Kinds of mesh entity

A named set collects entities of one kind: vertices, edges, faces or elements.
The order of the constructors is the order in which the kinds are stored,
checked by blocks of the set file, and compared.

`PerKind` is a record with one value for each kind. It is used wherever the same
thing is kept four times, so that "for every kind" is a quantifier over `Kind`
and not a list of fields.
-/

namespace MeshIncidence

/-- The four kinds of mesh entity that can be collected in a named set. -/
inductive Kind
  | vertex
  | edge
  | face
  | element
deriving DecidableEq, Repr

namespace Kind

/-- All kinds, in storage order. -/
def all : List Kind := [.vertex, .edge, .face, .element]

/-- Position of a kind in the storage order. -/
def index : Kind → Nat
  | .vertex => 0
  | .edge => 1
  | .face => 2
  | .element => 3

/-- The word used for a kind in messages and listings. -/
def name : Kind → String
  | .vertex => "Vertex"
  | .edge => "Edge"
  | .face => "Face"
  | .element => "Element"

/-- The line that opens the block of a kind in a set file. -/
def header : Kind → String
  | .vertex => "vertex_sets"
  | .edge => "edge_sets"
  | .face => "face_sets"
  | .element => "element_sets"

/-- How many vertex slots a snapshot keeps for one entity of a kind. A face has
room for four vertices, the last of which a triangle leaves empty; an element is
kept by its own number, which takes one slot. -/
def slotCount : Kind → Nat
  | .vertex => 1
  | .edge => 2
  | .face => 4
  | .element => 1

/-- The kind with a given name. -/
def ofName? (name : String) : Option Kind :=
  all.find? fun kind => kind.name == name

/-- Kinds are compared by their position in the storage order. -/
def compare (first second : Kind) : Ordering :=
  Ord.compare first.index second.index

@[simp] theorem mem_all (kind : Kind) : kind ∈ all := by
  cases kind <;> decide

/-- No two kinds share a name, so each is found by its own. -/
theorem ofName?_name (kind : Kind) : ofName? kind.name = some kind := by
  cases kind <;> decide

end Kind

/-- One value for each kind of entity. -/
structure PerKind (α : Type) where
  vertex : α
  edge : α
  face : α
  element : α
deriving DecidableEq, Repr

namespace PerKind

variable {α β : Type}

/-- The same value for every kind. -/
def constant (value : α) : PerKind α := ⟨value, value, value, value⟩

/-- The value kept for one kind. -/
def get (values : PerKind α) : Kind → α
  | .vertex => values.vertex
  | .edge => values.edge
  | .face => values.face
  | .element => values.element

/-- Replace the value of one kind and keep the others. -/
def set (values : PerKind α) (kind : Kind) (value : α) : PerKind α :=
  match kind with
  | .vertex => { values with vertex := value }
  | .edge => { values with edge := value }
  | .face => { values with face := value }
  | .element => { values with element := value }

@[simp] theorem get_constant (value : α) (kind : Kind) :
    (constant value).get kind = value := by
  cases kind <;> rfl

@[simp] theorem get_set_self (values : PerKind α) (kind : Kind) (value : α) :
    (values.set kind value).get kind = value := by
  cases kind <;> rfl

theorem get_set_of_ne (values : PerKind α) {kind other : Kind} (value : α)
    (hne : other ≠ kind) : (values.set kind value).get other = values.get other := by
  cases kind <;> cases other <;> simp_all [get, set]

/-- Two records agree when they agree at every kind. -/
theorem ext_get {first second : PerKind α}
    (hget : ∀ kind, first.get kind = second.get kind) : first = second := by
  cases first
  cases second
  have hvertex := hget .vertex
  have hedge := hget .edge
  have hface := hget .face
  have helement := hget .element
  simp_all [get]

end PerKind

end MeshIncidence
