/-
# Taking a snapshot and projecting it

A bound catalog has the tables that its sets need, so a snapshot of it can be taken whatever
the lineage says. The lineage has a say only in the order in which the corners of a
quadrilateral are kept, and `Lineage.slots` are the slots that come of it.

Projecting a snapshot replaces each member by its descendants and binds the outcome. If the
slots of every member have descendants, the whole succeeds as soon as these are in range.
-/

import MeshIncidence.Proofs.Catalog.Binding
import MeshIncidence.Proofs.Snapshot.Strips

namespace MeshIncidence

namespace Lineage

variable (lineage : Lineage)

/-- The order in which a snapshot keeps the corners of a face. -/
def cornerOrder : List Nat → List Nat
  | [a, b, c, d] =>
    if (lineage.joins a b).isNone then [a, c, b, d]
    else if (lineage.joins a d).isNone then [a, b, d, c]
    else [a, b, c, d]
  | vertices => vertices

/-- The slots in which a snapshot keeps an entity of a mesh. -/
def slots (mesh : ElementMesh) : Kind → Nat → List (Option Nat)
  | .vertex, vertex => [some vertex]
  | .edge, edge =>
    let ends := mesh.edgeKeys.getD edge (0, 0)
    [some ends.1, some ends.2]
  | .face, face =>
    let corners := lineage.cornerOrder (mesh.faceRows.getD face [])
    (List.range 4).map fun place => corners[place]?
  | .element, element => [some element]

theorem length_slots (mesh : ElementMesh) (kind : Kind) (member : Nat) :
    (lineage.slots mesh kind member).length = kind.slotCount := by
  cases kind <;> rfl

theorem cornerOrder_perm (vertices : List Nat) :
    (lineage.cornerOrder vertices).Perm vertices := by
  unfold cornerOrder
  split
  · next a b c d =>
    split_ifs
    · exact .cons a (.swap b c [d])
    · exact .cons a (.cons b (.swap c d []))
    · exact .refl _
  · exact .refl _

/-- The last slot of a triangle stays empty. -/
theorem faceSlots_eq_cornerOrder {vertices : List Nat} (hface : IsFace vertices) :
    faceSlots lineage vertices =
      .ok ((List.range 4).map fun place => (lineage.cornerOrder vertices)[place]?) := by
  rcases hface with hlength | hlength
  · obtain ⟨a, b, c, rfl⟩ := List.length_eq_three.mp hlength
    rfl
  · obtain ⟨a, b, c, d, rfl⟩ := List.length_eq_four.mp hlength
    simp only [faceSlots, cornerOrder]
    split_ifs <;> rfl

end Lineage

/-- The snapshot in which each member is kept in given slots. -/
def Snapshot.keeping (sets : SetsByKind Nat) (slots : Kind → Nat → List (Option Nat)) : Snapshot :=
  ⟨sets.mapMembers fun kind members => members.flatMap (slots kind)⟩

variable {mesh : ElementMesh} {lineage : Lineage} {sets : SetsByKind Nat}

namespace SetCatalog

/-- A bound catalog has the tables from which the members of a set get their slots. -/
theorem setStrip_boundTo (hrange : sets.InRange mesh) {kind : Kind} {set : NamedSet Nat}
    (hset : set ∈ sets.get kind) :
    (boundTo sets mesh).setStrip lineage kind set.members =
      .ok (set.members.flatMap (lineage.slots mesh kind)) := by
  have hneeded {which : DerivedTable} (hwhich : which ∈ kind.tables) :
      (boundTo sets mesh).neededTable which = .ok (mesh.derived which) := by
    rw [neededTable, tables_get_boundTo (List.length_pos_of_mem hset) hwhich]
  have hmembers := hrange kind set hset
  cases kind with
  | vertex => exact congrArg Except.ok List.map_eq_flatMap
  | edge =>
      have hslots : set.members.mapM (fun edge => do
          edgeSlots (← (mesh.derived .edgeVertex).row edge)) =
            .ok (set.members.map (lineage.slots mesh .edge)) := by
        apply Result.mapM_eq_ok
        intro edge hedge
        have hends := List.getElem?_eq_getElem (hmembers edge hedge)
        rw [ElementMesh.row_edgeVertex hends, Result.ok_bind, Lineage.slots,
          List.getD_eq_getElem?_getD, hends]
        rfl
      rw [setStrip, hneeded (by simp [Kind.tables]), Result.ok_bind, hslots, List.flatMap_def]
      rfl
  | face =>
      have hslots : set.members.mapM (fun face => do
          faceSlots lineage (← (mesh.derived .faceVertex).row face)) =
            .ok (set.members.map (lineage.slots mesh .face)) := by
        apply Result.mapM_eq_ok
        intro face hface
        have hlt : face < mesh.faceRows.length := mesh.length_faceRows ▸ hmembers face hface
        have hrow := List.getElem?_eq_getElem hlt
        rw [ElementMesh.row_faceVertex hrow, Result.ok_bind,
          lineage.faceSlots_eq_cornerOrder
            (ElementMesh.isFace_of_mem_faceRows (List.mem_of_getElem? hrow)),
          Lineage.slots, List.getD_eq_getElem?_getD, hrow]
        rfl
      rw [setStrip, hneeded (by simp [Kind.tables]), Result.ok_bind, hslots, List.flatMap_def]
      rfl
  | element => exact congrArg Except.ok List.map_eq_flatMap

theorem snapshot_boundTo (hrange : sets.InRange mesh) :
    (boundTo sets mesh).snapshot lineage = .ok (.keeping sets (lineage.slots mesh)) := by
  have hkind (kind : Kind) : (boundTo sets mesh).kindStrips lineage kind =
      .ok ((sets.get kind).map fun set =>
        ⟨set.name, set.members.flatMap (lineage.slots mesh kind)⟩) := by
    apply Result.mapM_eq_ok
    intro set hset
    rw [setStrip_boundTo hrange hset]
    rfl
  simp only [snapshot, hkind, Result.ok_bind]
  rfl

end SetCatalog

namespace Snapshot

/-- A snapshot of a bound catalog can be taken, and has the slots of every member. -/
theorem capture_runs (hrange : sets.InRange mesh) :
    (capture (.boundTo sets mesh) lineage).Runs () (keeping sets (lineage.slots mesh)) () := by
  apply (Action.runs_ofResult (SetCatalog.snapshot_boundTo hrange)).bind
  exact (Action.runs_note _).bind (Action.runs_pure _)

/-- From strips with a fixed number of slots for each member, the slots of the members come apart
again. -/
theorem slotted_keeping {slots : Kind → Nat → List (Option Nat)}
    (hsize : ∀ kind, ∀ set ∈ sets.get kind, ∀ member ∈ set.members,
      (slots kind member).length = kind.slotCount) :
    (keeping sets slots).slotted = sets.mapMembers fun kind members => members.map (slots kind) := by
  refine PerKind.ext_get fun kind => ?_
  simp only [slotted, keeping, SetsByKind.get_mapMembers, List.map_map]
  refine List.map_congr_left fun set hset => ?_
  simp only [Function.comp, List.flatMap_def]
  rw [Kind.slotLists_flatten (List.forall_mem_map.mpr (hsize kind set hset))]

/-- If the slots of every member have descendants, each set gets those of its members, one
family after the other. -/
theorem projected_keeping {slots : Kind → Nat → List (Option Nat)} {family : Kind → Nat → List Nat}
    (hsize : ∀ kind, ∀ set ∈ sets.get kind, ∀ member ∈ set.members,
      (slots kind member).length = kind.slotCount)
    (hfamily : ∀ kind, ∀ set ∈ sets.get kind, ∀ member ∈ set.members, ∀ position entity,
      descendants lineage kind position entity (slots kind member) = .ok (family kind member)) :
    (keeping sets slots).projected lineage =
      .ok (sets.mapMembers fun kind members => members.flatMap (family kind)) := by
  have hkind (kind : Kind) : (keeping sets slots).projectedSets lineage kind =
      .ok ((sets.get kind).map fun set => ⟨set.name, set.members.flatMap (family kind)⟩) := by
    rw [projectedSets_eq, slotted_keeping hsize, SetsByKind.get_mapMembers]
    apply Result.mapM_zipIdx_eq_ok
    intro set hset position
    refine Result.bind_eq_ok_iff.mpr ⟨set.members.map (family kind), ?_, ?_⟩
    · apply Result.mapM_zipIdx_eq_ok
      exact fun member hmember entity => hfamily kind set hset member hmember position entity
    · rw [List.flatMap_def]
      rfl
  simp only [projected, hkind, Result.ok_bind]
  rfl

end Snapshot

namespace Bound

/-- Projecting binds the sets that come out, whatever catalog there was before, and fails then if
one of them has a member out of range. -/
theorem project_ends (hsound : mesh.Sound) {snapshot : Snapshot}
    (hprojected : snapshot.projected lineage = .ok sets) (before : SetCatalog) :
    (project lineage snapshot).Ends ⟨before, mesh⟩
      (insist (SetCatalog.boundTo sets mesh).defect?) ⟨.boundTo sets mesh, mesh⟩ := by
  apply Action.runs_state.bind
  apply (Action.runs_ofResult hprojected).bind
  apply Action.runs_setState.bind
  exact rebind_ends hsound _

theorem project_runs (hsound : mesh.Sound) {snapshot : Snapshot}
    (hprojected : snapshot.projected lineage = .ok sets) (hrange : sets.InRange mesh)
    (before : SetCatalog) :
    (project lineage snapshot).Runs ⟨before, mesh⟩ () ⟨.boundTo sets mesh, mesh⟩ := by
  have hends := project_ends hsound hprojected before
  rwa [SetCatalog.defect?_boundTo_eq_none_iff.mpr hrange] at hends

end Bound

end MeshIncidence
