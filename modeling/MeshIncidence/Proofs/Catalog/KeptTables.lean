/-
# Kept tables do not show

A mesh may keep its derived tables, hand them over, be refined, and serve as the mesh of any
sets in between. Whatever has been done to it, a table that it keeps is the one that building it
anew gives: refining drops the tables of the old elements, and the tasks that work on sets leave
the mesh alone.

So two meshes with the same elements cannot be told apart by the tables they keep. They hand
over the same tables, and a task ends on both in the same way and with the same catalog.
-/

import MeshIncidence.Proofs.Catalog.Tasks

namespace MeshIncidence

namespace ElementMesh

/-- The meshes that come about when they are also worked with as the meshes of some sets. -/
inductive Worked : ElementMesh → Prop
  | ofElements {dimension vertexCount : Nat} {elements : List Element} {mesh : ElementMesh}
      (hmade : ofElements dimension vertexCount elements = .ok mesh) : Worked mesh
  | keepTables {mesh keeping : ElementMesh} (hmesh : Worked mesh)
      (hkept : mesh.keepTables = .ok keeping) : Worked keeping
  | handOver {mesh left : ElementMesh} {which : DerivedTable} {table : IncidenceTable}
      (hmesh : Worked mesh) (hleft : mesh.handOver which = .ok (table, left)) : Worked left
  | refine {mesh : ElementMesh} (hmesh : Worked mesh) : Worked (refine.perform mesh).2.state
  | task {mesh : ElementMesh} (hmesh : Worked mesh) (task : SetTask) (catalog : SetCatalog) :
      Worked (task.action.perform ⟨catalog, mesh⟩).2.state.mesh

variable {mesh other : ElementMesh}

/-- Work on the sets adds no meshes to those that come about without it. -/
theorem Worked.reachable (hmesh : mesh.Worked) : mesh.Reachable := by
  induction hmesh with
  | ofElements hmade => exact .ofElements hmade
  | keepTables _ hkept ih => exact .keepTables ih hkept
  | handOver _ hleft ih => exact .handOver ih hleft
  | refine _ ih => exact ih.refine_perform
  | task _ task catalog ih =>
      obtain ⟨outcome, after, notes, hperform, -⟩ := task.perform_eq catalog ih.sound
      rw [hperform]
      exact ih

/-- Sound meshes with the same elements differ in the tables they keep at most. -/
theorem Sound.eq_keeping (hsound : mesh.Sound) (hother : other.Sound)
    (hdimension : mesh.dimension = other.dimension)
    (hvertexCount : mesh.vertexCount = other.vertexCount)
    (helements : mesh.elements = other.elements) : other = mesh.keeping other.tables := by
  have hedgeCount := hsound.edgeCount_eq
  have hfaceCount := hsound.faceCount_eq
  rw [edgeKeys, localEdges, helements] at hedgeCount
  rw [faceKeys, localFaces, helements] at hfaceCount
  rw [keeping, hdimension, hvertexCount, helements, hedgeCount.trans hother.edgeCount_eq.symm,
    hfaceCount.trans hother.faceCount_eq.symm]

/-- Nothing tells two meshes apart that differ in the tables they keep. -/
structure Indistinguishable (mesh other : ElementMesh) : Prop where
  /-- A table that the mesh keeps is as good as new. -/
  derive_eq : ∀ which table, mesh.tables.get which = some table → mesh.derive which = .ok table
  /-- Both meshes hand over the table that building it anew gives. -/
  handOver_eq : ∀ which, ∃ table left rest, mesh.derive which = .ok table ∧
    mesh.handOver which = .ok (table, left) ∧ other.handOver which = .ok (table, rest)
  /-- A task leaves both meshes as they are, with the tables they keep, has the same outcome
  for both and gives the same catalog. -/
  perform_eq : ∀ (task : SetTask) catalog, ∃ outcome after notes others,
    task.action.perform ⟨catalog, mesh⟩ = (outcome, ⟨⟨after, mesh⟩, notes⟩) ∧
      task.action.perform ⟨catalog, other⟩ = (outcome, ⟨⟨after, other⟩, others⟩)

/-- Meshes with the same elements are indistinguishable, whatever has been done to each. -/
theorem Worked.indistinguishable (hmesh : mesh.Worked) (hother : other.Worked)
    (hdimension : mesh.dimension = other.dimension)
    (hvertexCount : mesh.vertexCount = other.vertexCount)
    (helements : mesh.elements = other.elements) : Indistinguishable mesh other := by
  have hsound := hmesh.reachable.sound
  have hothers := hother.reachable.sound
  have hsame := hsound.eq_keeping hothers hdimension hvertexCount helements
  have hkeeping : (mesh.keeping other.tables).Sound := hsame ▸ hothers
  refine ⟨fun which table hkept => ?_, fun which => ?_, fun task catalog => ?_⟩
  · rw [hsound.tables_eq which table hkept]
    exact hsound.derive_eq which
  · have hderived : other.derived which = mesh.derived which := by
      rw [hsame]
      rfl
    have hrest := hothers.handOver_eq which
    rw [hderived] at hrest
    exact ⟨_, _, _, hsound.derive_eq which, hsound.handOver_eq which, hrest⟩
  · obtain ⟨outcome, after, -, hends⟩ := task.endsAlike catalog mesh
    obtain ⟨notes, hperform⟩ := (hends mesh.tables hsound).perform
    obtain ⟨others, hperforms⟩ := (hends other.tables hkeeping).perform
    rw [hsame]
    exact ⟨outcome, after, notes, others, hperform, hperforms⟩

/-- The folded squares with the table of their edges. -/
def keepingFoldedSquares : ElementMesh :=
  Bound.foldedSquares.keeping ⟨some (Bound.foldedSquares.derived .edgeVertex), none, none⟩

theorem Worked.indistinguishable_foldedSquares :
    Indistinguishable Bound.foldedSquares keepingFoldedSquares := by
  have hmade : ElementMesh.ofElements 2 5 Bound.foldedSquares.elements =
      .ok Bound.foldedSquares := by rfl
  have hkept : Bound.foldedSquares.keepTables = .ok keepingFoldedSquares := by rfl
  exact (Worked.ofElements hmade).indistinguishable (.keepTables (.ofElements hmade) hkept) rfl rfl
    rfl

end ElementMesh

end MeshIncidence
