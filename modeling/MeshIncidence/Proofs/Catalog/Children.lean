/-
# The children of members

In the refined mesh an edge is replaced by its two halves, a face by its four quarters, and
an element by as many elements as it has corners. `followed` are the sets of a mesh with all
members replaced; they are in range of the refined mesh.
-/

import MeshIncidence.Proofs.Catalog.Binding
import MeshIncidence.Proofs.Refinement.FaceSearch

namespace MeshIncidence

/-- The set with every member replaced by its family, first children first. -/
def NamedSet.spread (family : Nat → List Nat) (set : NamedSet Nat) : NamedSet Nat :=
  { set with members := firstChildrenFirst (set.members.map family) }

theorem haveExtra_map {family : Nat → List Nat} {extra : Nat}
    (hextra : ∀ member, (family member).length = extra + 1) (members : List Nat) :
    HaveExtra (members.map family) extra := by
  intro block hblock
  obtain ⟨member, -, rfl⟩ := List.mem_map.mp hblock
  exact hextra member

/-- Members that are replaced by numbers in range stay in range. -/
theorem forall_mem_spread {family : Nat → List Nat} {accepts : Nat → Prop}
    {old : List (NamedSet Nat)}
    (hfamily : ∀ set ∈ old, ∀ member ∈ set.members, ∀ child ∈ family member, accepts child) :
    ∀ set ∈ old.map (NamedSet.spread family), ∀ member ∈ set.members, accepts member := by
  intro set hset member hmember
  obtain ⟨before, hbefore, rfl⟩ := List.mem_map.mp hset
  obtain ⟨block, hblock, hmember⟩ := mem_firstChildrenFirst.mp hmember
  obtain ⟨parent, hparent, rfl⟩ := List.mem_map.mp hblock
  exact hfamily before hbefore parent hparent member hmember

namespace ElementMesh

variable (mesh : ElementMesh) (shape : CellShape)

/-- The numbers of the two halves of an edge in the refined mesh. -/
def halves (edge : Nat) : List Nat :=
  let ends := mesh.edgeKeys.getD edge (0, 0)
  [ends.1, ends.2].map fun vertex =>
    (mesh.refinement shape).edgeNumber vertex (mesh.middleVertex edge)

/-- The numbers of the four quarters of a face in the refined mesh. -/
def quarters (face : Nat) : List Nat :=
  (List.range 4).map fun position =>
    (mesh.refinement shape).faceNumber (mesh.quarter (mesh.faceRows.getD face []) face position)

/-- The numbers of the children of an element in the refined mesh. -/
def children (element : Nat) : List Nat :=
  (List.range shape.cornerCount).map (mesh.childNumber shape.cornerCount element)

variable {mesh shape}

theorem length_halves (edge : Nat) : (mesh.halves shape edge).length = 1 + 1 := rfl

theorem length_quarters (face : Nat) : (mesh.quarters shape face).length = 3 + 1 := rfl

theorem halves_eq {edge : Nat} {ends : Nat × Nat} (hends : mesh.edgeKeys[edge]? = some ends) :
    mesh.halves shape edge = [ends.1, ends.2].map fun vertex =>
      (mesh.refinement shape).edgeNumber vertex (mesh.middleVertex edge) := by
  rw [halves, List.getD_eq_getElem?_getD, hends, Option.getD_some]

theorem quarters_eq {face : Nat} {row : List Nat} (hrow : mesh.faceRows[face]? = some row) :
    mesh.quarters shape face = (List.range 4).map fun position =>
      (mesh.refinement shape).faceNumber (mesh.quarter row face position) := by
  rw [quarters, List.getD_eq_getElem?_getD, hrow, Option.getD_some]

theorem length_children {extra : Nat} (hextra : shape.cornerCount = extra + 1) (element : Nat) :
    (mesh.children shape element).length = extra + 1 := by
  rw [children, List.length_map, List.length_range, hextra]

/-- The first child of an element has its number, the others follow after the elements. -/
theorem children_eq {extra : Nat} (hextra : shape.cornerCount = extra + 1) (element : Nat) :
    mesh.children shape element = element :: (List.range extra).map fun place =>
      mesh.elements.length + extra * element + place := by
  rw [children, hextra, List.range_succ_eq_map, List.map_cons, List.map_map]
  congr 1
  apply List.map_congr_left
  intro place _
  rw [Function.comp_apply, childNumber, Nat.add_sub_cancel, Nat.add_assoc]

theorem half_lt (huniform : mesh.IsUniform shape) {edge child : Nat}
    (hedge : edge < mesh.edgeKeys.length) (hchild : child ∈ mesh.halves shape edge) :
    child < (mesh.refinement shape).edgeKeys.length := by
  have hends := List.getElem?_eq_getElem hedge
  simp only [halves_eq hends, List.mem_map, List.mem_cons, List.not_mem_nil, or_false] at hchild
  obtain ⟨vertex, hvertex, rfl⟩ := hchild
  exact List.idxOf_lt_length_of_mem (half_mem_edgeKeys huniform hends hvertex)

theorem quarter_lt (huniform : mesh.IsUniform shape) {face child : Nat}
    (hface : face < mesh.faceKeys.length) (hchild : child ∈ mesh.quarters shape face) :
    child < (mesh.refinement shape).faceKeys.length := by
  obtain ⟨rfl, row, hrow, -⟩ := exists_faceRow huniform hface
  rw [quarters_eq hrow] at hchild
  obtain ⟨position, hposition, rfl⟩ := List.mem_map.mp hchild
  exact List.idxOf_lt_length_of_mem
    (quarter_mem_faceKeys huniform hrow (List.mem_range.mp hposition))

theorem child_lt (huniform : mesh.IsUniform shape) {element child : Nat}
    (helement : element < mesh.elements.length) (hchild : child ∈ mesh.children shape element) :
    child < (mesh.refinement shape).elements.length := by
  obtain ⟨place, hplace, rfl⟩ := List.mem_map.mp hchild
  obtain ⟨_, hfound, -⟩ := exists_child huniform
    (List.getElem?_eq_getElem helement) (List.mem_range.mp hplace)
  exact (List.getElem?_eq_some_iff.mp hfound).1

end ElementMesh

namespace SetsByKind

variable {mesh : ElementMesh} {shape : CellShape} {sets : SetsByKind Nat}

/-- The sets of a mesh as they are after following its refinement. -/
def followed (sets : SetsByKind Nat) (mesh : ElementMesh) (shape : CellShape) :
    SetsByKind Nat where
  vertex := sets.vertex
  edge := sets.edge.map (NamedSet.spread (mesh.halves shape))
  face := sets.face.map (NamedSet.spread (mesh.quarters shape))
  element := sets.element.map (NamedSet.spread (mesh.children shape))

/-- The children of members in range are in range of the refined mesh. -/
theorem followed_inRange (huniform : mesh.IsUniform shape) (hrange : sets.InRange mesh) :
    (sets.followed mesh shape).InRange (mesh.refinement shape) := by
  intro kind
  cases kind with
  | vertex =>
      intro set hset vertex hvertex
      have hold : vertex < mesh.vertexCount := hrange .vertex set hset vertex hvertex
      show vertex < mesh.centerVertex mesh.elements.length
      rw [ElementMesh.centerVertex]
      omega
  | edge =>
      exact forall_mem_spread fun set hset edge hedge child hchild =>
        ElementMesh.half_lt huniform (hrange .edge set hset edge hedge) hchild
  | face =>
      exact forall_mem_spread fun set hset face hface child hchild =>
        ElementMesh.quarter_lt huniform (hrange .face set hset face hface) hchild
  | element =>
      exact forall_mem_spread fun set hset element helement child hchild =>
        ElementMesh.child_lt huniform (hrange .element set hset element helement) hchild

/-- A mesh of quadrilaterals has no faces, so its face sets have no members to replace. -/
theorem spread_face_eq (huniform : mesh.IsUniform .quadrilateral) (hrange : sets.InRange mesh) :
    sets.face.map (NamedSet.spread (mesh.quarters .quadrilateral)) = sets.face := by
  refine (List.map_congr_left fun set hset => ?_).trans (List.map_id _)
  obtain ⟨name, members⟩ := set
  cases members with
  | nil => rfl
  | cons face members =>
      have hface : face < mesh.faceKeys.length := hrange .face _ hset face (by simp)
      rw [ElementMesh.faceKeys_eq_nil huniform] at hface
      exact absurd hface (by simp)

end SetsByKind

end MeshIncidence
