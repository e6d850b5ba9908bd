/-
# A snapshot projected onto the same mesh

A lineage is still if nothing has become of a mesh: every edge, face and element has itself
for its only descendant. Which edges such a lineage shows is left open, so the corners of a
quadrilateral may be kept in another order than that of its row. Since a face is found by its
corners in any order, no member is lost or moved, and projecting the snapshot of a bound
catalog gives back that catalog.
-/

import MeshIncidence.Proofs.Mesh.Tables
import MeshIncidence.Proofs.Snapshot.Capture
import MeshIncidence.Proofs.Snapshot.Descent

namespace MeshIncidence

namespace Lineage

/-- The lineage answers that every entity of the mesh has become just itself. -/
structure IsStill (lineage : Lineage) (mesh : ElementMesh) : Prop where
  edges_eq : ∀ first second edge, mesh.edgeBetween? first second = some edge →
    lineage.edges first second = [edge]
  /-- A triangle has no fourth vertex. -/
  faces_eq : ∀ first second third fourth face,
    mesh.faceThrough? ([first, second, third] ++ Option.toList fourth) = some face →
      lineage.faces first second third fourth = [face]
  elements_eq : ∀ element < mesh.elements.length, lineage.elements element = [element]

/-- The lineage that finds every entity in the mesh again, and shows some edges. -/
def still (mesh : ElementMesh) (joins : Nat → Nat → Option Nat) : Lineage where
  joins := joins
  edges first second := (mesh.edgeBetween? first second).toList
  faces first second third fourth :=
    (mesh.faceThrough? ([first, second, third] ++ fourth.toList)).toList
  elements element := [element]

theorem isStill_still (mesh : ElementMesh) (joins : Nat → Nat → Option Nat) :
    (still mesh joins).IsStill mesh where
  edges_eq _ _ _ hedge := congrArg Option.toList hedge
  faces_eq _ _ _ _ _ hface := congrArg Option.toList hface
  elements_eq _ _ := rfl

namespace IsStill

variable {lineage : Lineage} {mesh : ElementMesh} {sets : SetsByKind Nat}
  (hstill : lineage.IsStill mesh)
include hstill

/-- A face is found again by its corners in the order in which they are kept. -/
theorem descendants_face {face : Nat} (hface : face < mesh.faceKeys.length)
    (position entity : Nat) :
    Snapshot.descendants lineage .face position entity (lineage.slots mesh .face face) =
      .ok [face] := by
  rw [← mesh.length_faceRows] at hface
  have hrow := List.getElem?_eq_getElem hface
  have hperm := lineage.cornerOrder_perm mesh.faceRows[face]
  have hfound : mesh.faceThrough? (lineage.cornerOrder mesh.faceRows[face]) = some face := by
    rw [ElementMesh.faceThrough?_eq, FaceNumbering.find?_perm hperm, ElementMesh.find?_faceRow hrow]
  have hlength := ElementMesh.isFace_of_mem_faceRows (List.mem_of_getElem? hrow)
  rw [IsFace, ← hperm.length_eq] at hlength
  rw [slots, List.getD_eq_getElem?_getD, hrow, Option.getD_some]
  generalize lineage.cornerOrder mesh.faceRows[face] = corners at hfound hlength
  rcases hlength with hlength | hlength
  · obtain ⟨a, b, c, rfl⟩ := List.length_eq_three.mp hlength
    exact congrArg Except.ok (hstill.faces_eq a b c none face hfound)
  · obtain ⟨a, b, c, d, rfl⟩ := List.length_eq_four.mp hlength
    exact congrArg Except.ok (hstill.faces_eq a b c (some d) face hfound)

/-- Of each member the slots are kept from which it is found again. -/
theorem descendants_slots (hsound : mesh.Sound) {kind : Kind} {member : Nat}
    (hmember : member < mesh.entityCount kind) (position entity : Nat) :
    Snapshot.descendants lineage kind position entity (lineage.slots mesh kind member) =
      .ok [member] := by
  cases kind with
  | vertex => rfl
  | edge =>
      obtain ⟨numbering, hnumbering, hlists⟩ := ElementMesh.edges_eq hsound.fits
      have hends := List.getElem?_eq_getElem hmember
      have hfound : mesh.edgeBetween? mesh.edgeKeys[member].1 mesh.edgeKeys[member].2 =
          some member := by
        rw [ElementMesh.edgeBetween?_eq hnumbering, hlists.find?_eq_some_iff,
          ElementMesh.key_of_getElem?_edgeKeys hends, hends]
      rw [slots, List.getD_eq_getElem?_getD, hends]
      exact congrArg Except.ok (hstill.edges_eq _ _ member hfound)
  | face => exact hstill.descendants_face hmember position entity
  | element => exact congrArg Except.ok (hstill.elements_eq member hmember)

theorem projected_eq (hsound : mesh.Sound) (hrange : sets.InRange mesh) :
    (Snapshot.keeping sets (lineage.slots mesh)).projected lineage = .ok sets := by
  have hfamilies : (Snapshot.keeping sets (lineage.slots mesh)).projected lineage =
      .ok (sets.mapMembers fun _ members => members.flatMap fun member => [member]) :=
    Snapshot.projected_keeping (fun kind _ _ member _ => lineage.length_slots mesh kind member)
      fun kind set hset member hmember =>
        hstill.descendants_slots hsound (hrange kind set hset member hmember)
  simpa using hfamilies

end IsStill

end Lineage

namespace Bound

/-- Of a bound catalog a snapshot can be taken, and projecting it onto the same mesh gives
back the catalog: its sets with their members in order, its tables and its counts. -/
theorem project_capture {mesh : ElementMesh} {catalog : SetCatalog} {lineage : Lineage}
    (hmesh : mesh.Reachable) (hbound : IsBound ⟨catalog, mesh⟩) (hstill : lineage.IsStill mesh) :
    ∃ snapshot, (Snapshot.capture catalog lineage).Runs () snapshot () ∧
      ∀ before, (project lineage snapshot).Runs ⟨before, mesh⟩ () ⟨catalog, mesh⟩ := by
  obtain ⟨hcatalog, hrange⟩ := (isBound_iff hmesh.sound).mp hbound
  have hprojected := hstill.projected_eq hmesh.sound hrange
  have hproject := project_runs hmesh.sound hprojected hrange
  rw [← hcatalog] at hproject
  refine ⟨.keeping catalog.sets (lineage.slots mesh), ?_, hproject⟩
  have hcapture : (Snapshot.capture (.boundTo catalog.sets mesh) lineage).Runs () _ () :=
    Snapshot.capture_runs hrange
  rwa [← hcatalog] at hcapture

/-- Sets of a mesh of several shapes. Among the members are an edge from a vertex to itself, a
triangle, and a quadrilateral that has a vertex twice. -/
def mixedSets : SetsByKind Nat where
  vertex := [⟨"corner", [8, 0, 8]⟩]
  edge := [⟨"side", [15, 6, 15]⟩, ⟨"side", []⟩]
  face := [⟨"skin", [8, 3, 4, 8]⟩, ⟨"", [5]⟩]
  element := [⟨"all", [1, 0]⟩]

/-- A lineage that shows no edges keeps the corners of each quadrilateral out of sequence. -/
theorem project_capture_shrunkHexahedron :
    let lineage := Lineage.still ElementMesh.shrunkHexahedron fun _ _ => none
    ∃ snapshot,
      (Snapshot.capture (.boundTo mixedSets ElementMesh.shrunkHexahedron) lineage).Runs ()
        snapshot () ∧
      ∀ before, (project lineage snapshot).Runs ⟨before, ElementMesh.shrunkHexahedron⟩ ()
        ⟨.boundTo mixedSets ElementMesh.shrunkHexahedron, ElementMesh.shrunkHexahedron⟩ := by
  have hmesh := ElementMesh.reachable_shrunkHexahedron
  have hrange : mixedSets.InRange ElementMesh.shrunkHexahedron := by
    intro kind
    cases kind <;> decide
  exact project_capture hmesh ((isBound_iff hmesh.sound).mpr ⟨rfl, hrange⟩)
    (Lineage.isStill_still _ _)

end Bound

end MeshIncidence
