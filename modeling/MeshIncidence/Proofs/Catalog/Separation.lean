/-
# Sets that are kept apart

In a mesh whose elements have distinct corners, an entity of the refined mesh has become of one
entity only, and was counted for it once: the middle of an edge and the center of a face are on
no other edge or face, and the numbers of children come in blocks. `KeepsApart` says so of the
families of a kind.

What sets say about each other is then true after a refinement as it was before. A set that had
no member twice has none twice, sets without a common member have none in common, and sets that
divide the elements among them divide the new elements.
-/

import MeshIncidence.Proofs.Snapshot.Projection

namespace MeshIncidence

/-- Of the members below a limit, each has a family without repetition, and no two of them have
a child in common. -/
structure KeepsApart (family : Nat → List Nat) (limit : Nat) : Prop where
  nodup : ∀ member < limit, (family member).Nodup
  parent_eq : ∀ first < limit, ∀ second < limit, ∀ child ∈ family first, child ∈ family second →
    first = second

namespace KeepsApart

variable {family : Nat → List Nat} {limit : Nat} (hapart : KeepsApart family limit)
include hapart

theorem nodup_flatMap {members : List Nat} (hrange : ∀ member ∈ members, member < limit)
    (hnodup : members.Nodup) : (members.flatMap family).Nodup := by
  refine List.nodup_flatMap.mpr ⟨fun member hmember => hapart.nodup member (hrange member hmember), ?_⟩
  refine hnodup.imp_of_mem fun {first second} hfirst hsecond hne => ?_
  intro child hchild hother
  exact hne (hapart.parent_eq first (hrange first hfirst) second (hrange second hsecond) child
    hchild hother)

theorem disjoint_flatMap {members others : List Nat} (hrange : ∀ member ∈ members, member < limit)
    (hothers : ∀ member ∈ others, member < limit) (hdisjoint : members.Disjoint others) :
    (members.flatMap family).Disjoint (others.flatMap family) := by
  intro child hchild hother
  obtain ⟨first, hfirst, hchild⟩ := List.mem_flatMap.mp hchild
  obtain ⟨second, hsecond, hother⟩ := List.mem_flatMap.mp hother
  obtain rfl := hapart.parent_eq first (hrange first hfirst) second (hothers second hsecond) child
    hchild hother
  exact hdisjoint hfirst hsecond

end KeepsApart

/-- A set has, in some order, the families of the members it had. -/
theorem NamedSet.members_spread_perm (family : Nat → List Nat) (set : NamedSet Nat) :
    (set.spread family).members.Perm (set.members.flatMap family) := by
  rw [List.flatMap_def]
  exact firstChildrenFirst_perm _

namespace ElementMesh

variable {mesh : ElementMesh} {shape : CellShape}

/-- In a mesh with distinct corners an edge has two ends. -/
theorem ends_ne (hsound : mesh.Sound) (huniform : mesh.IsUniform shape)
    (hdistinct : mesh.HasDistinctCorners) {edge : Nat} {ends : Nat × Nat}
    (hends : mesh.edgeKeys[edge]? = some ends) : ends.1 ≠ ends.2 := by
  obtain ⟨element, index, place, corners, hindex, hplace, rfl, -⟩ :=
    exists_of_getElem?_edgeKeys huniform hends
  have hmember := List.mem_of_getElem? hindex
  have hcorners := List.mem_of_getElem? hplace
  have hne : corners.1 ≠ corners.2 := by
    have hall : ∀ edge ∈ shape.edges, edge.1 ≠ edge.2 := by cases shape <;> decide
    exact hall corners hcorners
  have hlt := shape.lt_cornerCount_of_mem_edges corners hcorners
  rw [← huniform.shape_eq element hmember, ← (hsound.fits element hmember).length_eq] at hlt
  have hvertices : element.corner corners.1 ≠ element.corner corners.2 := fun hsame =>
    hne (Element.corner_inj (hdistinct element hmember) hlt.1 hlt.2 hsame)
  simp only [PairNumbering.key]
  omega

section Halves

/-- A half joins an end of the edge and its middle. -/
theorem exists_end_of_mem_halves (huniform : mesh.IsUniform shape) {edge child : Nat}
    {ends : Nat × Nat} (hends : mesh.edgeKeys[edge]? = some ends)
    (hchild : child ∈ mesh.halves shape edge) :
    ∃ vertex, (vertex = ends.1 ∨ vertex = ends.2) ∧ (mesh.refinement shape).edgeKeys[child]? =
      some (PairNumbering.key vertex (mesh.middleVertex edge)) := by
  simp only [halves_eq hends, List.mem_map, List.mem_cons, List.not_mem_nil, or_false] at hchild
  obtain ⟨vertex, hvertex, rfl⟩ := hchild
  exact ⟨vertex, hvertex, getElem?_edgeNumber (half_mem_edgeKeys huniform hends hvertex)⟩

/-- An edge from an old vertex to a middle tells both. -/
theorem eq_of_key_middleVertex_eq {vertex other edge second : Nat} (hvertex : vertex < mesh.vertexCount)
    (hother : other < mesh.vertexCount) (hkey : PairNumbering.key vertex (mesh.middleVertex edge) =
      PairNumbering.key other (mesh.middleVertex second)) : vertex = other ∧ edge = second := by
  rw [PairNumbering.key_eq_key_iff] at hkey
  simp only [middleVertex] at hkey
  omega

theorem keepsApart_halves (hsound : mesh.Sound) (huniform : mesh.IsUniform shape)
    (hdistinct : mesh.HasDistinctCorners) :
    KeepsApart (mesh.halves shape) mesh.edgeKeys.length where
  nodup edge hedge := by
    have hends := List.getElem?_eq_getElem hedge
    have hbelow := hsound.edgeKeys_lt hends
    have hfirst := getElem?_edgeNumber (half_mem_edgeKeys huniform hends (.inl rfl))
    have hsecond := getElem?_edgeNumber (half_mem_edgeKeys huniform hends (.inr rfl))
    rw [halves_eq hends, List.map_cons, List.map_cons, List.map_nil, List.nodup_cons]
    refine ⟨fun hmember => ?_, List.nodup_singleton _⟩
    rw [List.mem_singleton.mp hmember, hsecond, Option.some.injEq] at hfirst
    exact ends_ne hsound huniform hdistinct hends
      (eq_of_key_middleVertex_eq hbelow.2 hbelow.1 hfirst).1.symm
  parent_eq first hfirst second hsecond child hchild hother := by
    have hends := List.getElem?_eq_getElem hfirst
    have hothers := List.getElem?_eq_getElem hsecond
    obtain ⟨vertex, hvertex, hkey⟩ := exists_end_of_mem_halves huniform hends hchild
    obtain ⟨other, hend, hsame⟩ := exists_end_of_mem_halves huniform hothers hother
    rw [hkey, Option.some.injEq] at hsame
    have hbelow := hsound.edgeKeys_lt hends
    have hbelowOther := hsound.edgeKeys_lt hothers
    exact (eq_of_key_middleVertex_eq (by omega) (by omega) hsame).2

end Halves

section Quarters

/-- A quarter is the face through the points of the old face at one of its corners. -/
theorem exists_position_of_mem_quarters (huniform : mesh.IsUniform .hexahedron) {face child : Nat}
    {row : List Nat} (hrow : mesh.faceRows[face]? = some row)
    (hchild : child ∈ mesh.quarters .hexahedron face) :
    ∃ position < 4, (mesh.refinement .hexahedron).faceKeys[child]? =
      some (ascending (mesh.quarter row face position)) := by
  rw [quarters_eq hrow] at hchild
  obtain ⟨position, hposition, rfl⟩ := List.mem_map.mp hchild
  have hlt := List.mem_range.mp hposition
  exact ⟨position, hlt, getElem?_faceNumber (quarter_mem_faceKeys huniform hrow hlt)⟩

/-- The vertices of a quarter are of three sorts: the corner is old, the middles come next, and
the center follows after all middles. -/
theorem quarter_bounds (hsound : mesh.Sound) (huniform : mesh.IsUniform .hexahedron) {face : Nat}
    {row : List Nat} (hrow : mesh.faceRows[face]? = some row) (position : Nat) :
    ∃ next before, mesh.quarter row face position =
        [around row position, mesh.middleVertex next, mesh.middleVertex before,
          mesh.faceVertex face] ∧
      around row position < mesh.vertexCount ∧ next < mesh.edgeKeys.length ∧
      before < mesh.edgeKeys.length := by
  have hlength := length_of_getElem?_faceRows huniform hrow
  have hbefore := getElem?_edgeNumber_around huniform hrow (position + 3)
  rw [around_before_succ] at hbefore
  exact ⟨_, _, rfl, hsound.faceRows_lt hrow _ (mem_around hlength position),
    (List.getElem?_eq_some_iff.mp (getElem?_edgeNumber_around huniform hrow position)).1,
    (List.getElem?_eq_some_iff.mp hbefore).1⟩

/-- Two quarters with the same vertices have the same center and the same corner. -/
theorem eq_of_quarter_perm (hsound : mesh.Sound) (huniform : mesh.IsUniform .hexahedron)
    {face other : Nat} {row otherRow : List Nat} (hrow : mesh.faceRows[face]? = some row)
    (hother : mesh.faceRows[other]? = some otherRow) {position place : Nat}
    (hperm : (mesh.quarter row face position).Perm (mesh.quarter otherRow other place)) :
    face = other ∧ around row position = around otherRow place := by
  obtain ⟨next, before, hquarter, hcorner, hnext, hbefore⟩ :=
    quarter_bounds hsound huniform hrow position
  obtain ⟨otherNext, otherBefore, hsecond, hotherCorner, hotherNext, hotherBefore⟩ :=
    quarter_bounds hsound huniform hother place
  rw [hquarter, hsecond] at hperm
  have hcenter : mesh.faceVertex face ∈ _ := hperm.mem_iff.mp (by simp)
  have hold : around row position ∈ _ := hperm.mem_iff.mp (by simp)
  simp only [List.mem_cons, List.not_mem_nil, or_false, faceVertex, middleVertex] at hcenter hold
  omega

theorem keepsApart_quarters (hsound : mesh.Sound) (huniform : mesh.IsUniform shape)
    (hdistinct : mesh.HasDistinctCorners) :
    KeepsApart (mesh.quarters shape) mesh.faceKeys.length where
  nodup face hface := by
    obtain ⟨rfl, row, hrow, hlength⟩ := exists_faceRow huniform hface
    have hnodup := nodup_of_getElem?_faceRows hsound huniform hdistinct hrow
    rw [quarters_eq hrow]
    refine List.nodup_range.map_on fun first hfirst second hsecond hsame => ?_
    have hkey := getElem?_faceNumber
      (quarter_mem_faceKeys huniform hrow (List.mem_range.mp hfirst))
    rw [hsame, getElem?_faceNumber
      (quarter_mem_faceKeys huniform hrow (List.mem_range.mp hsecond)), Option.some.injEq,
      ascending_eq_ascending_iff] at hkey
    have hplaces := around_inj hlength hnodup (eq_of_quarter_perm hsound huniform hrow hrow hkey).2
    simp only [List.mem_range] at hfirst hsecond
    omega
  parent_eq first hfirst second hsecond child hchild hother := by
    obtain ⟨rfl, row, hrow, -⟩ := exists_faceRow huniform hfirst
    obtain ⟨-, otherRow, hotherRow, -⟩ := exists_faceRow huniform hsecond
    obtain ⟨position, -, hkey⟩ := exists_position_of_mem_quarters huniform hrow hchild
    obtain ⟨place, -, hsame⟩ := exists_position_of_mem_quarters huniform hotherRow hother
    rw [hkey, Option.some.injEq, ascending_eq_ascending_iff] at hsame
    exact (eq_of_quarter_perm hsound huniform hrow hotherRow hsame).1

end Quarters

section Children

/-- A child has the number of its element, or one in the element's block after all elements. -/
theorem mem_children_iff {extra : Nat} (hextra : shape.cornerCount = extra + 1) {element child : Nat} :
    child ∈ mesh.children shape element ↔ child = element ∨
      ∃ place < extra, child = mesh.elements.length + extra * element + place := by
  rw [children_eq hextra, List.mem_cons, List.mem_map]
  simp only [List.mem_range, eq_comm]

theorem keepsApart_children (shape : CellShape) :
    KeepsApart (mesh.children shape) mesh.elements.length where
  nodup element helement := by
    rw [children_eq shape.cornerCount_eq, List.nodup_cons, List.mem_map]
    refine ⟨?_, List.nodup_range.map fun first second hsame => Nat.add_left_cancel hsame⟩
    rintro ⟨place, -, hsame⟩
    omega
  parent_eq first hfirst second hsecond child hchild hother := by
    obtain ⟨extra, hextra⟩ : ∃ extra, shape.cornerCount = extra + 1 := ⟨_, shape.cornerCount_eq⟩
    rw [mem_children_iff hextra] at hchild hother
    rcases hchild with rfl | ⟨place, hplace, rfl⟩ <;> rcases hother with hother | ⟨other, hlt, hother⟩
    · exact hother
    · omega
    · omega
    · -- both lie in blocks of `extra` numbers, of which the place says where
      have hblocks : extra * first + place = extra * second + other := by omega
      have hdiv := congrArg (· / extra) hblocks
      simp only [Nat.mul_add_div (Nat.zero_lt_of_lt hplace), Nat.div_eq_of_lt hplace,
        Nat.div_eq_of_lt hlt, Nat.add_zero] at hdiv
      exact hdiv

/-- Every element of the refined mesh is a child of an element, and of one only. -/
theorem flatMap_children_perm (huniform : mesh.IsUniform shape) :
    ((List.range mesh.elements.length).flatMap (mesh.children shape)).Perm
      (List.range (mesh.refinement shape).elements.length) := by
  have hrange : ∀ element ∈ List.range mesh.elements.length, element < mesh.elements.length :=
    fun _ => List.mem_range.mp
  have hnodup := (keepsApart_children shape).nodup_flatMap hrange List.nodup_range
  have hsubset : (List.range mesh.elements.length).flatMap (mesh.children shape) ⊆
      List.range (mesh.refinement shape).elements.length := by
    intro child hchild
    obtain ⟨element, helement, hchild⟩ := List.mem_flatMap.mp hchild
    exact List.mem_range.mpr (child_lt huniform (List.mem_range.mp helement) hchild)
  have hall : HaveExtra ((List.range mesh.elements.length).map (mesh.children shape)) _ :=
    haveExtra_map (length_children shape.cornerCount_eq) _
  have hlength := hall.length_firstChildrenFirst
  rw [(firstChildrenFirst_perm _).length_eq, ← List.flatMap_def, List.length_map, List.length_range,
    ← shape.cornerCount_eq, ← length_elements_refinement huniform] at hlength
  apply (List.subperm_of_subset hnodup hsubset).perm_of_length_le
  rw [hlength, List.length_range]

end Children

/-- The offspring of different entities of a kind is kept apart. -/
theorem keepsApart_offspring (hsound : mesh.Sound) (huniform : mesh.IsUniform shape)
    (hdistinct : mesh.HasDistinctCorners) (kind : Kind) :
    KeepsApart (mesh.offspring shape kind) (mesh.entityCount kind) := by
  cases kind with
  | vertex =>
      exact ⟨fun _ _ => List.nodup_singleton _, fun first _ second _ child hchild hother =>
        (List.mem_singleton.mp hchild).symm.trans (List.mem_singleton.mp hother)⟩
  | edge => exact keepsApart_halves hsound huniform hdistinct
  | face => exact keepsApart_quarters hsound huniform hdistinct
  | element => exact keepsApart_children shape

end ElementMesh

/-- Together the sets contain each number below a limit exactly once. -/
def ContainOnce (sets : List (NamedSet Nat)) (limit : Nat) : Prop :=
  ∀ number < limit, (sets.flatMap NamedSet.members).count number = 1

instance (sets : List (NamedSet Nat)) (limit : Nat) : Decidable (ContainOnce sets limit) :=
  inferInstanceAs (Decidable (∀ number < limit, _ = 1))

/-- Sets of numbers below a limit contain each of them once when their members are these
numbers, in some order. -/
theorem containOnce_iff_perm {sets : List (NamedSet Nat)} {limit : Nat}
    (hrange : ∀ set ∈ sets, ∀ member ∈ set.members, member < limit) :
    ContainOnce sets limit ↔ (sets.flatMap NamedSet.members).Perm (List.range limit) := by
  rw [List.perm_iff_count]
  constructor
  · intro honce number
    rw [List.nodup_range.count]
    by_cases hlt : number < limit
    · rw [honce number hlt, if_pos (List.mem_range.mpr hlt)]
    · rw [if_neg (mt List.mem_range.mp hlt), List.count_eq_zero]
      intro hmember
      obtain ⟨set, hset, hmember⟩ := List.mem_flatMap.mp hmember
      exact hlt (hrange set hset number hmember)
  · intro hcount number hlt
    rw [hcount number, List.nodup_range.count, if_pos (List.mem_range.mpr hlt)]

/-- The sets of a kind at some positions. -/
def SetsByKind.pick (sets : SetsByKind Nat) (kind : Kind) (positions : List Nat) :
    List (NamedSet Nat) := positions.filterMap fun position => (sets.get kind)[position]?

/-- The sets of a fine mesh keep apart what the sets of a coarse mesh at the same positions keep
apart. -/
structure StaySeparate (coarse fine : ElementMesh) (before after : SetsByKind Nat) : Prop where
  count_eq : ∀ kind, after.count kind = before.count kind
  nodup : ∀ kind position old new, before.setAt kind position = .ok old →
    after.setAt kind position = .ok new → old.members.Nodup → new.members.Nodup
  disjoint : ∀ kind first second old oldSecond new newSecond,
    before.setAt kind first = .ok old → before.setAt kind second = .ok oldSecond →
    after.setAt kind first = .ok new → after.setAt kind second = .ok newSecond →
    old.members.Disjoint oldSecond.members → new.members.Disjoint newSecond.members
  /-- Some element sets that divide the elements among them still do so. -/
  containOnce : ∀ positions, ContainOnce (before.pick .element positions) coarse.elements.length →
    ContainOnce (after.pick .element positions) fine.elements.length

section Followed

variable {mesh : ElementMesh} {shape : CellShape} {sets : SetsByKind Nat}

/-- After following, the set at a position is the old one spread. -/
theorem setAt_followed {kind : Kind} {position : Nat} {old new : NamedSet Nat}
    (hold : sets.setAt kind position = .ok old)
    (hnew : (sets.followed mesh shape).setAt kind position = .ok new) :
    old ∈ sets.get kind ∧ new.members.Perm (old.members.flatMap (mesh.offspring shape kind)) := by
  rw [SetsByKind.setAt_eq_ok_iff] at hold hnew
  rw [get_followed, List.getElem?_map, hold, Option.map_some, Option.some.injEq] at hnew
  exact ⟨List.mem_of_getElem? hold, hnew ▸ NamedSet.members_spread_perm _ old⟩

theorem pick_followed (kind : Kind) (positions : List Nat) :
    (sets.followed mesh shape).pick kind positions =
      (sets.pick kind positions).map (NamedSet.spread (mesh.offspring shape kind)) := by
  simp only [SetsByKind.pick, get_followed, List.getElem?_map, List.map_filterMap]

theorem members_pick_lt (hrange : sets.InRange mesh) {kind : Kind} {positions : List Nat} :
    ∀ set ∈ sets.pick kind positions, ∀ member ∈ set.members, member < mesh.entityCount kind := by
  intro set hset
  obtain ⟨position, -, hat⟩ := List.mem_filterMap.mp hset
  exact hrange kind set (List.mem_of_getElem? hat)

/-- Spreading the members of some sets spreads all members of them. -/
theorem flatMap_members_spread_perm (family : Nat → List Nat) (chosen : List (NamedSet Nat)) :
    ((chosen.map (NamedSet.spread family)).flatMap NamedSet.members).Perm
      ((chosen.flatMap NamedSet.members).flatMap family) := by
  rw [List.flatMap_map, List.flatMap_assoc]
  exact List.Perm.flatMap_left _ fun set _ => set.members_spread_perm family

/-- The element sets divide the children as they divide the elements. -/
theorem containOnce_followed (huniform : mesh.IsUniform shape) (hrange : sets.InRange mesh)
    (positions : List Nat) (honce : ContainOnce (sets.pick .element positions) mesh.elements.length) :
    ContainOnce ((sets.followed mesh shape).pick .element positions)
      (mesh.refinement shape).elements.length := by
  have hperm := (containOnce_iff_perm (members_pick_lt hrange)).mp honce
  refine (containOnce_iff_perm
    (members_pick_lt (SetsByKind.followed_inRange huniform hrange))).mpr ?_
  rw [pick_followed]
  exact ((flatMap_members_spread_perm _ _).trans (hperm.flatMap_right _)).trans
    (ElementMesh.flatMap_children_perm huniform)

theorem staySeparate_followed (hsound : mesh.Sound) (huniform : mesh.IsUniform shape)
    (hdistinct : mesh.HasDistinctCorners) (hrange : sets.InRange mesh) :
    StaySeparate mesh (mesh.refinement shape) sets (sets.followed mesh shape) := by
  have hapart := ElementMesh.keepsApart_offspring hsound huniform hdistinct
  constructor
  case count_eq =>
    intro kind
    rw [SetsByKind.count, get_followed, List.length_map, SetsByKind.count]
  case nodup =>
    intro kind position old new hold hnew hnodup
    obtain ⟨hset, hperm⟩ := setAt_followed hold hnew
    exact hperm.nodup_iff.mpr ((hapart kind).nodup_flatMap (hrange kind old hset) hnodup)
  case disjoint =>
    intro kind first second old oldSecond new newSecond hold holdSecond hnew hnewSecond hdisjoint
    obtain ⟨hset, hperm⟩ := setAt_followed hold hnew
    obtain ⟨hsetSecond, hpermSecond⟩ := setAt_followed holdSecond hnewSecond
    have hfamilies := (hapart kind).disjoint_flatMap (hrange kind old hset)
      (hrange kind oldSecond hsetSecond) hdisjoint
    intro child hchild hother
    exact hfamilies (hperm.mem_iff.mp hchild) (hpermSecond.mem_iff.mp hother)
  case containOnce => exact containOnce_followed huniform hrange

end Followed

namespace Bound

/-- Refining a mesh of quadrilaterals or of hexahedra with distinct corners, and letting the sets
follow it, succeeds and keeps apart what was apart. -/
theorem round_stays_separate {before : Bound ElementMesh} {shape : CellShape}
    (hmesh : before.mesh.Reachable) (huniform : before.mesh.IsUniform shape)
    (hdistinct : before.mesh.HasDistinctCorners) (hbound : before.IsBound)
    (hstorable : before.mesh.IsStorable) :
    ∃ after, Round (follow shape) before after ∧
      StaySeparate before.mesh after.mesh before.catalog.sets after.catalog.sets := by
  obtain ⟨catalog, mesh⟩ := before
  obtain ⟨hcatalog, hrange⟩ := (isBound_iff hmesh.sound).mp hbound
  have hfollow := follow_runs ⟨hmesh, huniform, fun _ => hdistinct⟩ hstorable hrange
  rw [← hcatalog] at hfollow
  exact ⟨⟨.boundTo (catalog.sets.followed mesh shape) (mesh.refinement shape),
    mesh.refinement shape⟩, ⟨ElementMesh.refine_runs hmesh.sound huniform, hfollow⟩,
    staySeparate_followed hmesh.sound huniform hdistinct hrange⟩

/-- Sets that part the stacked cubes into layers. -/
def layers : SetsByKind Nat where
  vertex := [⟨"floor", [0, 1, 2, 3]⟩]
  edge := [⟨"low", [8, 9, 10, 11]⟩, ⟨"high", [16, 17, 18, 19]⟩]
  face := [⟨"floor", [0]⟩, ⟨"between", [5]⟩]
  element := [⟨"upper", [1]⟩, ⟨"lower", [0]⟩]

theorem isBound_layers : IsBound ⟨.boundTo layers stackedCubes, stackedCubes⟩ := by
  have hrange : layers.InRange stackedCubes := by
    intro kind
    cases kind <;> decide
  exact (isBound_iff reachable_stackedCubes.sound).mpr ⟨rfl, hrange⟩

/-- The two layers part the sixteen small cubes too. -/
theorem round_stays_separate_layers :
    ∃ after, Round (follow .hexahedron) ⟨.boundTo layers stackedCubes, stackedCubes⟩ after ∧
      StaySeparate stackedCubes after.mesh layers after.catalog.sets ∧
      ContainOnce (after.catalog.sets.pick .element [0, 1]) after.mesh.elements.length := by
  obtain ⟨after, hround, hseparate⟩ := round_stays_separate reachable_stackedCubes
    ⟨.inr rfl, rfl, ElementMesh.allOfShape_iff.mp (by decide)⟩ (by decide) isBound_layers (by decide)
  exact ⟨after, hround, hseparate, hseparate.containOnce [0, 1] (by decide)⟩

end Bound

end MeshIncidence
