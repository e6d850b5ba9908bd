/-
# Properties of scans that are put together

The scans for a set file are put together from a few: those that pass over blanks and remarks,
those that take a line, a number or a keyword, and those that take nothing. What is true of
these and stays true when scans follow each other is true of all of them, whatever the mesh.
-/

import MeshIncidence.SetCatalog.Reader

namespace MeshIncidence

namespace Scan

/-- Read the dimension. -/
def declared : Scan Nat := do
  remarks
  keyword dimensionKeyword
  word .dimension

section Blocks

variable {M : Type} [Connectivity M] (mesh : M)

/-- Read what follows the dimension. -/
def blocks (dimension : Nat) : Scan (SetsByKind Nat) := do
  let vertex ← blockOf mesh dimension .vertex
  let edge ← blockOf mesh dimension .edge
  let face ← blockOf mesh dimension .face
  let element ← blockOf mesh dimension .element
  return ⟨vertex, edge, face, element⟩

theorem catalogSets_eq_blocks : catalogSets mesh = declared >>= blocks mesh := by
  simp only [catalogSets, declared, bind_assoc]
  rfl

end Blocks

/-- A property that the scans for a token have and those that take nothing, and that is kept when
scans follow each other. -/
structure IsTokenwise (property : ∀ {α : Type}, Scan α → Prop) : Prop where
  pure : ∀ {α : Type} (value : α), property (pure value)
  ofResult : ∀ {α : Type} (outcome : Result α), property (ofResult outcome)
  fail : ∀ {α : Type} (defect : TextDefect), property (fail defect : Scan α)
  bind : ∀ {α β : Type} {first : Scan α} {next : α → Scan β}, property first →
    (∀ value, property (next value)) → property (first >>= next)
  value : ∀ {α : Type} (field : Field) (read? : List Char → Option α), property (value field read?)
  keyword : ∀ expected : String, property (keyword expected)

/-- The property holds of the scans for a line, for blanks and for remarks too. -/
structure IsComposable (property : ∀ {α : Type}, Scan α → Prop) : Prop
    extends IsTokenwise property where
  blanks : property blanks
  remarks : property remarks
  line? : property line?

namespace IsTokenwise

variable {property : ∀ {α : Type}, Scan α → Prop} (hproperty : IsTokenwise property)
include hproperty

theorem times {α : Type} {scan : Scan α} (hscan : property scan) (count : Nat) :
    property (times scan count) := by
  induction count with
  | zero => exact hproperty.pure []
  | succ count ih =>
      exact hproperty.bind hscan fun _ => hproperty.bind ih fun _ => hproperty.pure _

theorem mapM {α β : Type} {scan : α → Scan β} (hscan : ∀ value, property (scan value))
    (values : List α) : property (values.mapM scan) := by
  induction values with
  | nil => exact hproperty.pure []
  | cons value values ih =>
      rw [List.mapM_cons]
      exact hproperty.bind (hscan value) fun _ => hproperty.bind ih fun _ => hproperty.pure _

theorem number (field : Field) (limit : Nat) :
    property (word field >>= fun number => Scan.ofResult (inRange limit number)) :=
  hproperty.bind (hproperty.value _ _) fun _ => hproperty.ofResult _

theorem edge (edges : PairNumbering) : property (edge edges) :=
  hproperty.bind (hproperty.value _ _) fun _ => hproperty.bind (hproperty.value _ _) fun _ =>
    hproperty.ofResult _

theorem face (faces : FaceNumbering) : property (face faces) := by
  refine hproperty.bind (hproperty.value _ _) fun tag => ?_
  split
  · exact hproperty.ofResult _
  · exact hproperty.bind (hproperty.times (hproperty.value _ _) _) fun _ => hproperty.ofResult _

theorem member {M : Type} [Connectivity M] (mesh : M) {kind : Kind} {scan : Scan Nat}
    (hscan : member mesh kind = .ok scan) : property scan := by
  cases kind with
  | vertex =>
      obtain rfl := Except.ok.inj hscan
      exact hproperty.number _ _
  | edge =>
      rw [Scan.member] at hscan
      cases hedges : Connectivity.edges mesh with
      | error failure => exact absurd (hedges ▸ hscan) nofun
      | ok edges =>
          rw [hedges] at hscan
          exact Except.ok.inj hscan ▸ hproperty.edge edges
  | face =>
      rw [Scan.member] at hscan
      cases hfaces : Connectivity.faces mesh with
      | error failure => exact absurd (hfaces ▸ hscan) nofun
      | ok faces =>
          rw [hfaces] at hscan
          exact Except.ok.inj hscan ▸ hproperty.face faces
  | element =>
      obtain rfl := Except.ok.inj hscan
      exact hproperty.number _ _

end IsTokenwise

namespace IsComposable

variable {property : ∀ {α : Type}, Scan α → Prop} (hproperty : IsComposable property)
include hproperty

theorem namedSet (kind : Kind) {member : Scan Nat} (hmember : property member) :
    property (namedSet kind member) := by
  refine hproperty.bind hproperty.blanks fun _ => hproperty.bind hproperty.line? fun name => ?_
  cases name with
  | none => exact hproperty.fail _
  | some name =>
      exact hproperty.bind (hproperty.value _ _) fun count =>
        hproperty.bind (hproperty.times hmember count) fun _ => hproperty.pure _

theorem declared : property declared :=
  hproperty.bind hproperty.remarks fun _ => hproperty.bind (hproperty.keyword _) fun _ =>
    hproperty.value _ _

variable {M : Type} [Connectivity M] (mesh : M)

theorem block (kind : Kind) : property (block mesh kind) := by
  refine hproperty.bind hproperty.remarks fun _ => hproperty.bind (hproperty.keyword _) fun _ =>
    hproperty.bind (hproperty.value _ _) fun count => ?_
  split
  · exact hproperty.pure _
  · cases hmember : Scan.member mesh kind with
    | error failure => exact hproperty.ofResult (.error failure)
    | ok scan => exact hproperty.times (hproperty.namedSet kind (hproperty.member mesh hmember)) count

theorem blockOf (dimension : Nat) (kind : Kind) : property (blockOf mesh dimension kind) := by
  rw [Scan.blockOf]
  split
  · exact hproperty.block mesh kind
  · exact hproperty.pure _

theorem catalogSets : property (catalogSets mesh) := by
  rw [catalogSets_eq_blocks]
  refine hproperty.bind hproperty.declared fun dimension => ?_
  exact hproperty.bind (hproperty.blockOf mesh dimension .vertex) fun _ =>
    hproperty.bind (hproperty.blockOf mesh dimension .edge) fun _ =>
      hproperty.bind (hproperty.blockOf mesh dimension .face) fun _ =>
        hproperty.bind (hproperty.blockOf mesh dimension .element) fun _ => hproperty.pure _

end IsComposable

end Scan

end MeshIncidence
