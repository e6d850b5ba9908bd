/-
# A snapshot projected onto the refined mesh

Sets come through a uniform refinement in two ways. They follow the mesh by numbers, or a
snapshot of them is taken before and projected afterwards, with a lineage that describes the
refinement. The first way searches children and lays them out over the whole set; the second
asks for them by vertices and keeps each family together.

Both succeed, and their results agree: the names are the same in the same order, and each
member is in a set as often. The order of the members differs.
-/

import MeshIncidence.Proofs.Catalog.Rounds
import MeshIncidence.Proofs.Snapshot.Capture
import MeshIncidence.Proofs.Snapshot.Descent

namespace MeshIncidence

section Entities

variable (mesh : ElementMesh)

/-- The slots in which a snapshot keeps an entity. -/
def ElementMesh.slots : Kind → Nat → List (Option Nat)
  | .vertex, vertex => [some vertex]
  | .edge, edge =>
    let ends := mesh.edgeKeys.getD edge (0, 0)
    [some ends.1, some ends.2]
  | .face, face => (mesh.faceRows.getD face []).map some
  | .element, element => [some element]

/-- What an entity has become by a lineage. -/
def Lineage.ofEntity (lineage : Lineage) : Kind → Nat → List Nat
  | .vertex, vertex => [vertex]
  | .edge, edge =>
    let ends := mesh.edgeKeys.getD edge (0, 0)
    lineage.edges ends.1 ends.2
  | .face, face =>
    let row := mesh.faceRows.getD face []
    lineage.faces (around row 0) (around row 1) (around row 2) (some (around row 3))
  | .element, element => lineage.elements element

/-- What an entity has become in the refined mesh. -/
def ElementMesh.offspring (shape : CellShape) : Kind → Nat → List Nat
  | .vertex, vertex => [vertex]
  | .edge, edge => mesh.halves shape edge
  | .face, face => mesh.quarters shape face
  | .element, element => mesh.children shape element

/-- The sets of a mesh with every member replaced by what it has become by a lineage. -/
def SetsByKind.descended (sets : SetsByKind Nat) (lineage : Lineage) : SetsByKind Nat :=
  let replaced (kind : Kind) := (sets.get kind).map fun set =>
    (⟨set.name, set.members.flatMap (lineage.ofEntity mesh kind)⟩ : NamedSet Nat)
  ⟨replaced .vertex, replaced .edge, replaced .face, replaced .element⟩

end Entities

variable {mesh : ElementMesh} {shape : CellShape} {lineage : Lineage} {sets : SetsByKind Nat}

/-- A face with its corners in sequence keeps their order. -/
theorem Lineage.cornerOrder_eq {row : List Nat} (hlength : row.length = 4) {next before : Nat}
    (hnext : lineage.joins (around row 0) (around row 1) = some next)
    (hbefore : lineage.joins (around row 0) (around row 3) = some before) :
    lineage.cornerOrder row = row := by
  obtain ⟨a, b, c, d, rfl⟩ := List.length_eq_four.mp hlength
  have hb : lineage.joins a b = some next := hnext
  have hd : lineage.joins a d = some before := hbefore
  simp [cornerOrder, hb, hd]

namespace Lineage.DescribesRefinement

variable (hlineage : lineage.DescribesRefinement mesh (mesh.refinement shape) shape.cornerCount)
include hlineage

/-- By the lineage an entity has become what it has become in the refined mesh. -/
theorem ofEntity_perm (hsound : mesh.Sound) (huniform : mesh.IsUniform shape) {kind : Kind}
    {member : Nat} (hmember : member < mesh.entityCount kind) :
    (lineage.ofEntity mesh kind member).Perm (mesh.offspring shape kind member) := by
  cases kind with
  | vertex => exact .refl _
  | edge =>
      have hends := List.getElem?_eq_getElem hmember
      have hhalves := hlineage.edges_perm_halves hsound huniform hends
      rwa [ofEntity, List.getD_eq_getElem?_getD, hends]
  | face =>
      obtain ⟨rfl, row, hrow, hlength⟩ := ElementMesh.exists_faceRow huniform hmember
      obtain ⟨a, b, c, d, rfl⟩ := List.length_eq_four.mp hlength
      have hquarters := hlineage.faces_perm_quarters hsound huniform hrow
      rwa [ofEntity, List.getD_eq_getElem?_getD, hrow]
  | element => exact hlineage.elements_perm_children hmember

/-- The corners of a face are kept as they are, since the lineage shows the edges around it. -/
theorem slots_eq (hsound : mesh.Sound) (huniform : mesh.IsUniform shape) {kind : Kind}
    {member : Nat} (hmember : member < mesh.entityCount kind) :
    lineage.slots mesh kind member = mesh.slots kind member := by
  cases kind with
  | vertex => rfl
  | edge => rfl
  | face =>
      obtain ⟨rfl, row, hrow, hlength⟩ := ElementMesh.exists_faceRow huniform hmember
      obtain ⟨numbering, hnumbering, hlists⟩ := ElementMesh.edges_eq hsound.fits
      have hjoins := hlineage.joins_eq
      simp only [ElementMesh.edgeBetween?_eq hnumbering] at hjoins
      have horder : lineage.cornerOrder row = row := by
        apply lineage.cornerOrder_eq hlength
        · rw [hjoins]
          exact ElementMesh.find?_around huniform hlists hrow 0
        · rw [hjoins]
          exact ElementMesh.find?_around_before huniform hlists hrow 0
      rw [slots, ElementMesh.slots, List.getD_eq_getElem?_getD, hrow, Option.getD_some, horder]
      obtain ⟨a, b, c, d, rfl⟩ := List.length_eq_four.mp hlength
      rfl
  | element => rfl

end Lineage.DescribesRefinement

namespace Snapshot

/-- From its slots an entity is replaced by what it has become. -/
theorem descendants_eq (huniform : mesh.IsUniform shape) (lineage : Lineage) {kind : Kind}
    (position entity : Nat) {member : Nat} (hmember : member < mesh.entityCount kind) :
    descendants lineage kind position entity (mesh.slots kind member) =
      .ok (lineage.ofEntity mesh kind member) := by
  cases kind with
  | vertex => rfl
  | edge => rfl
  | face =>
      obtain ⟨-, row, hrow, hlength⟩ := ElementMesh.exists_faceRow huniform hmember
      obtain ⟨a, b, c, d, rfl⟩ := List.length_eq_four.mp hlength
      rw [ElementMesh.slots, Lineage.ofEntity, List.getD_eq_getElem?_getD, hrow]
      rfl
  | element => rfl

theorem projected_eq_descended
    (hlineage : lineage.DescribesRefinement mesh (mesh.refinement shape) shape.cornerCount)
    (hsound : mesh.Sound) (huniform : mesh.IsUniform shape) (hrange : sets.InRange mesh) :
    (keeping sets (lineage.slots mesh)).projected lineage = .ok (sets.descended mesh lineage) := by
  apply projected_keeping fun kind _ _ member _ => lineage.length_slots mesh kind member
  intro kind set hset member hmember position entity
  have hlt := hrange kind set hset member hmember
  rw [hlineage.slots_eq hsound huniform hlt]
  exact descendants_eq huniform lineage position entity hlt

end Snapshot

/-- The same names in the same order, and in each set the same members as often, in whatever
order. -/
def SetsByKind.SameMembers (sets others : SetsByKind Nat) : Prop :=
  ∀ kind, List.Forall₂ (fun set other : NamedSet Nat =>
    set.name = other.name ∧ set.members.Perm other.members) (sets.get kind) (others.get kind)

/-- Two catalogs have the same counts and tables, and the same members. -/
structure SetCatalog.Agrees (catalog other : SetCatalog) : Prop where
  dimension_eq : catalog.dimension = other.dimension
  vertexCount_eq : catalog.vertexCount = other.vertexCount
  edgeCount_eq : catalog.edgeCount = other.edgeCount
  elementCount_eq : catalog.elementCount = other.elementCount
  tables_eq : catalog.tables = other.tables
  sameMembers : catalog.sets.SameMembers other.sets

namespace SetsByKind.SameMembers

variable {others : SetsByKind Nat} (hsame : sets.SameMembers others)
include hsame

theorem count_eq (kind : Kind) : sets.count kind = others.count kind :=
  (hsame kind).length_eq

theorem inRange (hrange : others.InRange mesh) : sets.InRange mesh := by
  intro kind set hset member hmember
  obtain ⟨position, hlt, rfl⟩ := List.mem_iff_getElem.mp hset
  have hother : position < (others.get kind).length := (hsame kind).length_eq ▸ hlt
  have hperm := ((hsame kind).get hlt hother).2
  exact hrange kind _ (List.getElem_mem hother) member (hperm.mem_iff.mp hmember)

/-- Sets with the same members need the same tables. -/
theorem agrees_boundTo : (SetCatalog.boundTo sets mesh).Agrees (.boundTo others mesh) where
  dimension_eq := rfl
  vertexCount_eq := rfl
  edgeCount_eq := rfl
  elementCount_eq := rfl
  tables_eq := by
    simp only [SetCatalog.boundTo, SetCatalog.neededTables, hsame.count_eq]
  sameMembers := hsame

end SetsByKind.SameMembers

/-- A member that is its own only child stays where it is. -/
theorem NamedSet.spread_self (set : NamedSet Nat) : set.spread (fun member => [member]) = set := by
  have hheads : (List.head? ∘ fun member : Nat => [member]) = some := rfl
  have htails : set.members.flatMap (fun _ => ([] : List Nat)) = [] :=
    List.flatMap_eq_nil_iff.mpr fun _ _ => rfl
  simp [spread, firstChildrenFirst, List.filterMap_map, List.flatMap_map, hheads, htails]

theorem get_followed (kind : Kind) :
    (sets.followed mesh shape).get kind =
      (sets.get kind).map (NamedSet.spread (mesh.offspring shape kind)) := by
  cases kind with
  | vertex =>
      have hsame : (sets.get .vertex).map (NamedSet.spread fun vertex => [vertex]) =
          sets.get .vertex :=
        (List.map_congr_left fun set _ => set.spread_self).trans (List.map_id' _)
      exact hsame.symm
  | edge => rfl
  | face => rfl
  | element => rfl

/-- Members replaced by their families, first children first or family by family. -/
theorem NamedSet.spread_perm {family other : Nat → List Nat} {set : NamedSet Nat}
    (hfamily : ∀ member ∈ set.members, (other member).Perm (family member)) :
    (set.members.flatMap other).Perm (set.spread family).members := by
  have hflat : (set.members.flatMap other).Perm (set.members.flatMap family) :=
    List.Perm.flatMap_left _ hfamily
  rw [List.flatMap_def (f := family)] at hflat
  exact hflat.trans (firstChildrenFirst_perm _).symm

/-- The sets that a lineage gives have the members of those that follow. -/
theorem Lineage.DescribesRefinement.sameMembers_followed
    (hlineage : lineage.DescribesRefinement mesh (mesh.refinement shape) shape.cornerCount)
    (hsound : mesh.Sound) (huniform : mesh.IsUniform shape) (hrange : sets.InRange mesh) :
    (sets.descended mesh lineage).SameMembers (sets.followed mesh shape) := by
  intro kind
  have hdescended : (sets.descended mesh lineage).get kind = (sets.get kind).map fun set =>
      ⟨set.name, set.members.flatMap (lineage.ofEntity mesh kind)⟩ := by
    cases kind <;> rfl
  rw [hdescended, get_followed, List.forall₂_map_left_iff, List.forall₂_map_right_iff,
    List.forall₂_same]
  intro set hset
  refine ⟨rfl, NamedSet.spread_perm fun member hmember => ?_⟩
  exact hlineage.ofEntity_perm hsound huniform (hrange kind set hset member hmember)

namespace Bound

/-- Taking a snapshot of sets and projecting it onto the refined mesh succeeds, and agrees
with letting the sets follow. -/
theorem project_agrees_follow {coarse fine : ElementMesh} {shape : CellShape} {catalog : SetCatalog}
    {lineage : Lineage} (hmesh : coarse.CanBeFollowed shape) (hstorable : coarse.IsStorable)
    (hbound : IsBound ⟨catalog, coarse⟩) (hfine : ElementMesh.refine.Runs coarse () fine)
    (hlineage : lineage.DescribesRefinement coarse fine shape.cornerCount) :
    ∃ snapshot projected followed,
      (Snapshot.capture catalog lineage).Runs () snapshot () ∧
      (project lineage snapshot).Runs (.ofMesh fine) () ⟨projected, fine⟩ ∧
      (follow shape).Runs ⟨catalog, fine⟩ () ⟨followed, fine⟩ ∧
      projected.Agrees followed := by
  have hsound := hmesh.reachable.sound
  have huniform := hmesh.uniform
  obtain rfl := (hfine.unique (ElementMesh.refine_runs hsound huniform)).2
  obtain ⟨hcatalog, hrange⟩ := (isBound_iff hsound).mp hbound
  have hsame := hlineage.sameMembers_followed hsound huniform hrange
  have hin := hsame.inRange (SetsByKind.followed_inRange huniform hrange)
  have hcapture : (Snapshot.capture (.boundTo catalog.sets coarse) lineage).Runs () _ () :=
    Snapshot.capture_runs hrange
  have hprojected := Snapshot.projected_eq_descended hlineage hsound huniform hrange
  have hproject := project_runs (ElementMesh.sound_refinement hsound huniform) hprojected hin
  have hfollow := follow_runs hmesh hstorable hrange
  rw [← hcatalog] at hcapture hfollow
  exact ⟨_, _, _, hcapture, hproject _, hfollow, hsame.agrees_boundTo⟩

theorem project_agrees_follow_stackedCubes :
    ∃ snapshot projected followed,
      (Snapshot.capture (.boundTo stackedSets stackedCubes)
        (.ofRefinement stackedCubes (stackedCubes.refinement .hexahedron) 8)).Runs () snapshot () ∧
      (project (.ofRefinement stackedCubes (stackedCubes.refinement .hexahedron) 8) snapshot).Runs
        (.ofMesh (stackedCubes.refinement .hexahedron)) ()
        ⟨projected, stackedCubes.refinement .hexahedron⟩ ∧
      (follow .hexahedron).Runs
        ⟨.boundTo stackedSets stackedCubes, stackedCubes.refinement .hexahedron⟩ ()
        ⟨followed, stackedCubes.refinement .hexahedron⟩ ∧
      projected.Agrees followed := by
  have hmesh := reachable_stackedCubes
  have huniform : stackedCubes.IsUniform .hexahedron :=
    ⟨.inr rfl, rfl, ElementMesh.allOfShape_iff.mp (by decide)⟩
  have hdistinct : stackedCubes.HasDistinctCorners := by decide
  exact project_agrees_follow ⟨hmesh, huniform, fun _ => hdistinct⟩ (by decide) isBound_stackedSets
    (ElementMesh.refine_runs hmesh.sound huniform) (Lineage.describesRefinement_ofRefinement _ _ _)

end Bound

end MeshIncidence
