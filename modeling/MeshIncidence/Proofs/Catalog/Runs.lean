/-
# Sets through whole runs

In a run the mesh is refined, keeps tables and hands them over, sets are added, changed and
removed, and the tasks that end with binding are done, in any order and with any outcome. The
catalog may then be out of step with the mesh in any way: with the tables of coarser elements,
with counts that are no longer true, or with members out of range.

A run keeps one thing only, that the mesh is sound, and this is all that binding needs. So
after each task that succeeds the catalog is in step with the mesh again, whatever came before.
-/

import MeshIncidence.Proofs.Catalog.Tasks

namespace MeshIncidence

/-- How many entities of a kind a mesh says that it has. -/
def ElementMesh.countOf (mesh : ElementMesh) : Kind → Nat
  | .vertex => mesh.vertexCount
  | .edge => mesh.edgeCount
  | .face => mesh.faceCount
  | .element => mesh.elements.length

theorem ElementMesh.Sound.countOf_eq {mesh : ElementMesh} (hsound : mesh.Sound) (kind : Kind) :
    mesh.countOf kind = mesh.entityCount kind := by
  cases kind with
  | edge => exact hsound.edgeCount_eq
  | face => exact hsound.faceCount_eq
  | _ => rfl

namespace Bound

/-- One operation on a mesh or on its sets. An operation that does not succeed counts with what
it leaves. -/
inductive Step : Bound ElementMesh → Bound ElementMesh → Prop
  | refine (bound : Bound ElementMesh) :
      Step bound ⟨bound.catalog, (ElementMesh.refine.perform bound.mesh).2.state⟩
  | keepTables {bound : Bound ElementMesh} {keeping : ElementMesh}
      (hkept : bound.mesh.keepTables = .ok keeping) : Step bound ⟨bound.catalog, keeping⟩
  | handOver {bound : Bound ElementMesh} {which : DerivedTable} {table : IncidenceTable}
      {left : ElementMesh} (hleft : bound.mesh.handOver which = .ok (table, left)) :
      Step bound ⟨bound.catalog, left⟩
  | add (bound : Bound ElementMesh) (kind : Kind) (name : String) (members : List Nat) :
      Step bound ⟨{ bound.catalog with sets := (bound.catalog.sets.add kind name members).2 },
        bound.mesh⟩
  | modifyAt {bound : Bound ElementMesh} {kind : Kind} {position : Nat}
      {change : List Nat → List Nat} {sets : SetsByKind Nat}
      (hsets : bound.catalog.sets.modifyAt kind position change = .ok sets) :
      Step bound ⟨{ bound.catalog with sets := sets }, bound.mesh⟩
  | clear (bound : Bound ElementMesh) : Step bound ⟨bound.catalog.clear, bound.mesh⟩
  | task (bound : Bound ElementMesh) (task : SetTask) :
      Step bound (task.action.perform bound).2.state

/-- A mesh stays one that can come about. -/
theorem Step.reachable {before after : Bound ElementMesh} (hstep : Step before after)
    (hmesh : before.mesh.Reachable) : after.mesh.Reachable := by
  cases hstep with
  | refine => exact hmesh.refine_perform
  | keepTables hkept => exact .keepTables hmesh hkept
  | handOver hleft => exact .handOver hmesh hleft
  | add => exact hmesh
  | modifyAt => exact hmesh
  | clear => exact hmesh
  | task task =>
      obtain ⟨outcome, after, notes, hperform, -⟩ :=
        task.perform_eq before.catalog hmesh.sound
      rw [hperform]
      exact hmesh

theorem reachable_of_run {before after : Bound ElementMesh} (hmesh : before.mesh.Reachable)
    (hrun : Relation.ReflTransGen Step before after) : after.mesh.Reachable := by
  induction hrun with
  | refl => exact hmesh
  | tail _ hstep ih => exact hstep.reachable ih

/-- The catalog is in step with the mesh: it has the tables that its sets need, as the mesh
would build them now, and the counts of the mesh, and its sets have members of the mesh only. -/
structure InStep (bound : Bound ElementMesh) : Prop where
  /-- There are tables of a kind exactly if there are sets of the kind. -/
  isSome_tables : ∀ (kind : Kind), ∀ which ∈ kind.tables,
    ((bound.catalog.tables.get which).isSome ↔ 0 < bound.catalog.sets.count kind)
  derive_eq : ∀ which table, bound.catalog.tables.get which = some table →
    bound.mesh.derive which = .ok table
  dimension_eq : bound.catalog.dimension = bound.mesh.dimension
  vertexCount_eq : bound.catalog.vertexCount = bound.mesh.vertexCount
  edgeCount_eq : bound.catalog.edgeCount = bound.mesh.edgeCount
  elementCount_eq : bound.catalog.elementCount = bound.mesh.elements.length
  member_lt : ∀ kind, ∀ set ∈ bound.catalog.sets.get kind, ∀ member ∈ set.members,
    member < bound.mesh.countOf kind
  defect?_eq_none : bound.catalog.defect? = none

/-- A catalog that is bound to a sound mesh is in step with it. -/
theorem IsBoundTo.inStep {mesh : ElementMesh} {catalog : SetCatalog} (hsound : mesh.Sound)
    (hbound : IsBoundTo mesh catalog) : InStep ⟨catalog, mesh⟩ := by
  obtain ⟨hcatalog, hrange⟩ := hbound
  have htables {kind : Kind} {which : DerivedTable} (hwhich : which ∈ kind.tables) :
      catalog.tables.get which =
        if 0 < catalog.sets.count kind then some (mesh.derived which) else none := by
    rw [hcatalog]
    exact SetCatalog.tables_get_boundTo_eq hwhich
  exact {
    isSome_tables := fun kind which hwhich => by
      rw [htables hwhich]
      by_cases hcount : 0 < catalog.sets.count kind <;> simp [hcount]
    derive_eq := fun which table htable => by
      obtain ⟨kind, hwhich⟩ := Kind.exists_mem_tables which
      rw [htables hwhich, Option.ite_none_right_eq_some, Option.some.injEq] at htable
      rw [← htable.2]
      exact hsound.derive_eq which
    dimension_eq := congrArg SetCatalog.dimension hcatalog
    vertexCount_eq := congrArg SetCatalog.vertexCount hcatalog
    edgeCount_eq := congrArg SetCatalog.edgeCount hcatalog
    elementCount_eq := congrArg SetCatalog.elementCount hcatalog
    member_lt := fun kind => by
      rw [hsound.countOf_eq]
      exact hrange kind
    defect?_eq_none := by
      rw [hcatalog]
      exact SetCatalog.defect?_boundTo_eq_none_iff.mpr hrange }

/-- After any run, a task that succeeds and binds the sets leaves them in step with the mesh. -/
theorem inStep_of_run {mesh : ElementMesh} {before after : Bound ElementMesh}
    {notes : List Note} (hmesh : mesh.Reachable)
    (hrun : Relation.ReflTransGen Step (ofMesh mesh) before) (task : SetTask)
    (hbinds : task.Binds)
    (hdone : task.action.perform before = (.ok (), ⟨after, notes⟩)) : InStep after := by
  have hsound := (reachable_of_run hmesh hrun).sound
  obtain ⟨outcome, catalog, others, hperform, hbound⟩ := task.perform_eq before.catalog hsound
  have hends := hperform.symm.trans hdone
  simp only [Prod.mk.injEq, Logged.mk.injEq] at hends
  obtain ⟨houtcome, rfl, -⟩ := hends
  exact (hbound houtcome hbinds).inStep hsound

theorem Step.of_task_runs (task : SetTask) {before after : Bound ElementMesh}
    (hruns : task.action.Runs before () after) : Step before after := by
  obtain ⟨notes, hperform⟩ := hruns.perform
  have hstep := Step.task before task
  rwa [hperform] at hstep

theorem Step.of_refine_runs {catalog : SetCatalog} {mesh fine : ElementMesh}
    (hruns : ElementMesh.refine.Runs mesh () fine) : Step ⟨catalog, mesh⟩ ⟨catalog, fine⟩ := by
  obtain ⟨notes, hperform⟩ := hruns.perform
  have hstep := Step.refine ⟨catalog, mesh⟩
  rwa [hperform] at hstep

/-- A set of two edges of the folded squares. -/
def sideSets : SetsByKind Nat := (SetsByKind.none.add .edge "side" [4, 1]).2

theorem inStep_of_run_foldedSquares : ∃ after notes,
    followQuadrilaterals.perform
        ⟨.boundTo sideSets foldedSquares, foldedSquares.refinement .quadrilateral⟩ =
      (.ok (), ⟨after, notes⟩) ∧ InStep after := by
  have hmade : ElementMesh.ofElements 2 5 foldedSquares.elements = .ok foldedSquares := by rfl
  have hmesh : foldedSquares.Reachable := .ofElements hmade
  have huniform : foldedSquares.IsUniform .quadrilateral :=
    ⟨.inl rfl, rfl, ElementMesh.allOfShape_iff.mp (by decide)⟩
  have hrange : sideSets.InRange foldedSquares := by
    intro kind
    cases kind <;> decide
  have hadd : Step (ofMesh foldedSquares)
      ⟨{ SetCatalog.ofMesh foldedSquares with sets := sideSets }, foldedSquares⟩ :=
    .add _ .edge "side" [4, 1]
  have hrebind := rebind_runs hmesh.sound { SetCatalog.ofMesh foldedSquares with sets := sideSets }
    hrange
  have hrefine := ElementMesh.refine_runs hmesh.sound huniform
  have hrun := ((Relation.ReflTransGen.single hadd).tail
    (.of_task_runs .rebind hrebind)).tail (.of_refine_runs hrefine)
  have hfollow := follow_runs ⟨hmesh, huniform, fun hother => absurd hother (by decide)⟩
    (by decide) hrange
  obtain ⟨notes, hperform⟩ := hfollow.perform
  exact ⟨_, notes, hperform, inStep_of_run hmesh hrun .followQuadrilaterals trivial hperform⟩

end Bound

end MeshIncidence
