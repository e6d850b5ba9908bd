/-
# The law of sets that follow a refinement

`FollowsRefinement` says of two meshes and the sets of each what following has to
achieve, and says it by what can be looked up in the meshes: which edge, face or
element of the fine mesh stands at which position of a set. It does not mention how the
sets were computed.

A child is named by the vertices it has in the fine mesh, so the law ties the numbering
of the sets to that of the mesh, which are made independently of each other.
-/

import MeshIncidence.Proofs.Catalog.Splitting

namespace MeshIncidence

/-- There are `size` children of each member: the first one in the member's place, the
others together after all first ones, in the order of the members. -/
structure Spreads (isChild : Nat → Nat → Nat → Prop) (size : Nat) (before after : List Nat) :
    Prop where
  length_eq : after.length = size * before.length
  first : ∀ position member : Nat, before[position]? = some member →
    ∃ child : Nat, after[position]? = some child ∧ isChild member 0 child
  other : ∀ position member place : Nat, before[position]? = some member → place + 1 < size →
    ∃ child : Nat, after[before.length + (size - 1) * position + place]? = some child ∧
      isChild member (place + 1) child

/-- The edge of the fine mesh from one end of a coarse edge to its middle. -/
def IsHalf (coarse fine : ElementMesh) (edge place child : Nat) : Prop :=
  ∃ table first second vertex numbering, coarse.derive .edgeVertex = .ok table ∧
    table.row edge = .ok [first, second] ∧ [first, second][place]? = some vertex ∧
    fine.edges = .ok numbering ∧
    numbering.find? vertex (coarse.vertexCount + edge) = some child

/-- The face of the fine mesh at one corner of a coarse face: through the corner, the
middles of the edges to the next corner and to the one before, and the center. -/
def IsQuarter (coarse fine : ElementMesh) (face place child : Nat) : Prop :=
  ∃ table corners coarseEdges fineFaces next before, coarse.derive .faceVertex = .ok table ∧
    table.row face = .ok corners ∧ corners.length = 4 ∧
    coarse.edges = .ok coarseEdges ∧ fine.faces = .ok fineFaces ∧
    coarseEdges.find? (around corners place) (around corners (place + 1)) = some next ∧
    coarseEdges.find? (around corners place) (around corners (place + 3)) = some before ∧
    fineFaces.find? [around corners place, coarse.vertexCount + next,
      coarse.vertexCount + before, coarse.vertexCount + coarse.edgeCount + face] = some child

/-- The element of the fine mesh at one corner of a coarse element, which has that corner
in the same position. -/
def IsElementChild (size : Nat) (coarse fine : ElementMesh) (element place child : Nat) : Prop :=
  child = (if place = 0 then element
    else coarse.elements.length + (size - 1) * element + (place - 1)) ∧
  ∃ old new vertex, coarse.elements[element]? = some old ∧ fine.elements[child]? = some new ∧
    old.vertices[place]? = some vertex ∧ new.vertices[place]? = some vertex

/-- The named sets are the same, each with the members it should have. -/
def SetsFollow (follows : List Nat → List Nat → Prop) (before after : List (NamedSet Nat)) : Prop :=
  List.Forall₂ (fun old new => new.name = old.name ∧ follows old.members new.members) before after

/-- The sets `before` of the coarse mesh have become the sets `after` of the fine mesh, in
which each element has become `size` elements. -/
structure FollowsRefinement (coarse fine : ElementMesh) (size : Nat)
    (before after : SetsByKind Nat) : Prop where
  vertex_eq : after.vertex = before.vertex
  edge : SetsFollow (Spreads (IsHalf coarse fine) 2) before.edge after.edge
  face : SetsFollow (Spreads (IsQuarter coarse fine) 4) before.face after.face
  element : SetsFollow (Spreads (IsElementChild size coarse fine) size) before.element after.element

section Spread

variable {family : Nat → List Nat} {isChild : Nat → Nat → Nat → Prop} {extra : Nat}

theorem spreads_firstChildrenFirst (hextra : ∀ member, (family member).length = extra + 1)
    {members : List Nat} (hchild : ∀ member ∈ members, ∀ place child : Nat,
      (family member)[place]? = some child → isChild member place child) :
    Spreads isChild (extra + 1) members (firstChildrenFirst (members.map family)) := by
  have hall := haveExtra_map hextra members
  have hfamily (position member : Nat) (hmember : members[position]? = some member) :
      (members.map family)[position]? = some (family member) := by
    rw [List.getElem?_map, hmember, Option.map_some]
  have hplace (member place : Nat) (hlt : place < extra + 1) :
      ∃ child : Nat, (family member)[place]? = some child :=
    ⟨_, List.getElem?_eq_getElem (by rw [hextra]; exact hlt)⟩
  constructor
  · rw [hall.length_firstChildrenFirst, List.length_map]
  · intro position member hmember
    obtain ⟨child, hat⟩ := hplace member 0 (Nat.succ_pos extra)
    refine ⟨child, ?_, hchild member (List.mem_of_getElem? hmember) 0 child hat⟩
    rw [hall.getElem?_first (hfamily position member hmember), hat]
  · intro position member place hmember hlt
    obtain ⟨child, hat⟩ := hplace member (place + 1) hlt
    refine ⟨child, ?_, hchild member (List.mem_of_getElem? hmember) _ child hat⟩
    have hother := hall.getElem?_other (hfamily position member hmember)
      (Nat.lt_of_succ_lt_succ hlt)
    rw [List.length_map] at hother
    rw [Nat.add_sub_cancel, Nat.add_assoc, hother, hat]

theorem setsFollow_spread (hextra : ∀ member, (family member).length = extra + 1)
    {sets : List (NamedSet Nat)} (hchild : ∀ set ∈ sets, ∀ member ∈ set.members,
      ∀ place child : Nat, (family member)[place]? = some child → isChild member place child) :
    SetsFollow (Spreads isChild (extra + 1)) sets (sets.map (NamedSet.spread family)) := by
  rw [SetsFollow, List.forall₂_map_right_iff, List.forall₂_same]
  intro set hset
  exact ⟨rfl, spreads_firstChildrenFirst hextra (hchild set hset)⟩

end Spread

section Law

variable {mesh : ElementMesh} {shape : CellShape}

/-- The halves of an edge by the keys of the refined mesh. -/
theorem isHalf_iff (hsound : mesh.Sound) (huniform : mesh.IsUniform shape)
    {edge place child : Nat} {ends : Nat × Nat} (hends : mesh.edgeKeys[edge]? = some ends) :
    IsHalf mesh (mesh.refinement shape) edge place child ↔
      ∃ vertex, [ends.1, ends.2][place]? = some vertex ∧
        (mesh.refinement shape).edgeKeys[child]? =
          some (PairNumbering.key vertex (mesh.middleVertex edge)) := by
  obtain ⟨numbering, hnumbering, hlists⟩ :=
    ElementMesh.edges_eq (ElementMesh.sound_refinement hsound huniform).fits
  constructor
  · rintro ⟨table, first, second, vertex, other, htable, hrow, hvertex, hother, hfound⟩
    obtain rfl := Except.ok.inj ((hsound.derive_eq _).symm.trans htable)
    obtain rfl := Except.ok.inj (hnumbering.symm.trans hother)
    rw [ElementMesh.row_edgeVertex hends, Except.ok.injEq] at hrow
    exact ⟨vertex, hrow ▸ hvertex, hlists.find?_eq_some_iff.mp hfound⟩
  · rintro ⟨vertex, hvertex, hchild⟩
    exact ⟨mesh.derived .edgeVertex, _, _, vertex, numbering, hsound.derive_eq _,
      ElementMesh.row_edgeVertex hends, hvertex, hnumbering, hlists.find?_eq_some_iff.mpr hchild⟩

theorem isHalf_of_getElem?_halves (hsound : mesh.Sound) (huniform : mesh.IsUniform shape)
    {edge place child : Nat} (hedge : edge < mesh.edgeKeys.length)
    (hchild : (mesh.halves shape edge)[place]? = some child) :
    IsHalf mesh (mesh.refinement shape) edge place child := by
  have hends := List.getElem?_eq_getElem hedge
  rw [ElementMesh.halves_eq hends, List.getElem?_map, Option.map_eq_some_iff] at hchild
  obtain ⟨vertex, hvertex, rfl⟩ := hchild
  have hmember : vertex = mesh.edgeKeys[edge].1 ∨ vertex = mesh.edgeKeys[edge].2 := by
    simpa using List.mem_of_getElem? hvertex
  exact (isHalf_iff hsound huniform hends).mpr ⟨vertex, hvertex,
    ElementMesh.getElem?_edgeNumber (ElementMesh.half_mem_edgeKeys huniform hends hmember)⟩

/-- The quarters of a face by the keys of the refined mesh. -/
theorem isQuarter_iff (hsound : mesh.Sound) (huniform : mesh.IsUniform .hexahedron)
    {face place child : Nat} {row : List Nat} (hrow : mesh.faceRows[face]? = some row) :
    IsQuarter mesh (mesh.refinement .hexahedron) face place child ↔
      (mesh.refinement .hexahedron).faceKeys[child]? =
        some (ascending (mesh.quarter row face place)) := by
  obtain ⟨numbering, hnumbering, hlists⟩ := ElementMesh.edges_eq hsound.fits
  have hafter := ElementMesh.find?_around huniform hlists hrow place
  have hbefore := ElementMesh.find?_around_before huniform hlists hrow place
  rw [← ElementMesh.find?_face_eq_some_iff (.inr rfl)]
  constructor
  · rintro ⟨table, corners, coarse, fine, next, before, htable, htableRow, -, hcoarse, hfine, hnext,
      hprevious, hfound⟩
    obtain rfl := Except.ok.inj ((hsound.derive_eq _).symm.trans htable)
    obtain rfl := Except.ok.inj ((ElementMesh.row_faceVertex hrow).symm.trans htableRow)
    obtain rfl := Except.ok.inj (hnumbering.symm.trans hcoarse)
    obtain rfl := Except.ok.inj ((ElementMesh.faces_eq _).symm.trans hfine)
    obtain rfl := Option.some.inj (hafter.symm.trans hnext)
    obtain rfl := Option.some.inj (hbefore.symm.trans hprevious)
    rwa [hsound.edgeCount_eq] at hfound
  · intro hfound
    refine ⟨mesh.derived .faceVertex, row, numbering, _, _, _, hsound.derive_eq _,
      ElementMesh.row_faceVertex hrow, ElementMesh.length_of_getElem?_faceRows huniform hrow,
      hnumbering, ElementMesh.faces_eq _, hafter, hbefore, ?_⟩
    rwa [hsound.edgeCount_eq]

theorem isQuarter_of_getElem?_quarters (hsound : mesh.Sound) (huniform : mesh.IsUniform .hexahedron)
    {face place child : Nat} (hface : face < mesh.faceKeys.length)
    (hchild : (mesh.quarters .hexahedron face)[place]? = some child) :
    IsQuarter mesh (mesh.refinement .hexahedron) face place child := by
  obtain ⟨-, row, hrow, -⟩ := ElementMesh.exists_faceRow huniform hface
  rw [ElementMesh.quarters_eq hrow, List.getElem?_map, Option.map_eq_some_iff] at hchild
  obtain ⟨position, hposition, rfl⟩ := hchild
  obtain ⟨hlt, hsame⟩ := List.getElem?_eq_some_iff.mp hposition
  rw [List.length_range] at hlt
  rw [List.getElem_range] at hsame
  subst hsame
  exact (isQuarter_iff hsound huniform hrow).mpr
    (ElementMesh.getElem?_faceNumber (ElementMesh.quarter_mem_faceKeys huniform hrow hlt))

theorem isElementChild_of_getElem?_children (hsound : mesh.Sound) (huniform : mesh.IsUniform shape)
    {element place child : Nat} (helement : element < mesh.elements.length)
    (hchild : (mesh.children shape element)[place]? = some child) :
    IsElementChild shape.cornerCount mesh (mesh.refinement shape) element place child := by
  have hold := List.getElem?_eq_getElem helement
  have hmember := List.mem_of_getElem? hold
  simp only [ElementMesh.children, List.getElem?_map, Option.map_eq_some_iff] at hchild
  obtain ⟨position, hposition, rfl⟩ := hchild
  obtain ⟨hlt, hsame⟩ := List.getElem?_eq_some_iff.mp hposition
  rw [List.length_range] at hlt
  rw [List.getElem_range] at hsame
  subst hsame
  obtain ⟨new, hnew, hcorner⟩ := ElementMesh.exists_child huniform hold hlt
  have hlength := (hsound.fits _ hmember).length_eq
  rw [huniform.shape_eq _ hmember] at hlength
  refine ⟨?_, _, new, _, hold, hnew, Element.getElem?_vertices (by omega), hcorner⟩
  cases place with
  | zero => rfl
  | succ place =>
      rw [ElementMesh.childNumber, if_neg (Nat.succ_ne_zero _), Nat.add_sub_cancel, Nat.add_assoc]

/-- Following does what it has to. -/
theorem followsRefinement_followed (hsound : mesh.Sound) (huniform : mesh.IsUniform shape)
    {sets : SetsByKind Nat} (hrange : sets.InRange mesh) :
    FollowsRefinement mesh (mesh.refinement shape) shape.cornerCount sets
      (sets.followed mesh shape) where
  vertex_eq := rfl
  edge := setsFollow_spread ElementMesh.length_halves fun set hset edge hedge _ _ hchild =>
    isHalf_of_getElem?_halves hsound huniform (hrange .edge set hset edge hedge) hchild
  face := by
    apply setsFollow_spread ElementMesh.length_quarters
    intro set hset face hface place child hchild
    have hlt : face < mesh.faceKeys.length := hrange .face set hset face hface
    obtain ⟨rfl, -⟩ := ElementMesh.exists_faceRow huniform hlt
    exact isQuarter_of_getElem?_quarters hsound huniform hlt hchild
  element := by
    have hcount := shape.cornerCount_eq
    have hfollow := setsFollow_spread (ElementMesh.length_children hcount)
      fun set hset element helement _ _ hchild =>
        isElementChild_of_getElem?_children hsound huniform
          (hrange .element set hset element helement) hchild
    rwa [← hcount] at hfollow

end Law

end MeshIncidence
