/-
# Catalogs bound to a mesh

Binding runs step by step and may find the mesh with or without its tables. For a
sound mesh none of this shows in the result: the catalog holds the tables that its
sets need, as the elements give them, and the mesh is as before. `boundTo` is that
catalog, and binding succeeds exactly when no member is out of range.
-/

import MeshIncidence.SetCatalog.Basic
import MeshIncidence.Proofs.Mesh.Soundness

namespace MeshIncidence

@[simp]
theorem DerivedTables.set_get (tables : DerivedTables) (which : DerivedTable) :
    tables.set which (tables.get which) = tables := by
  cases which <;> rfl

theorem ElementMesh.Sound.handOver_eq {mesh : ElementMesh} (hsound : mesh.Sound)
    (which : DerivedTable) :
    mesh.handOver which =
      .ok (mesh.derived which, { mesh with tables := mesh.tables.set which none }) := by
  cases htable : mesh.tables.get which with
  | some table => simp only [handOver, htable, hsound.tables_eq which table htable]
  | none =>
      have hunchanged : mesh.tables.set which none = mesh.tables := by
        rw [← htable, DerivedTables.set_get]
      simp only [handOver, htable, hsound.derive_eq which, Result.ok_bind, Result.pure_eq_ok,
        hunchanged]

theorem insist_eq_ok_iff {defect : Option Error} : insist defect = .ok () ↔ defect = none := by
  cases defect <;> simp [insist]

/-- How many entities of a kind a mesh has. -/
def ElementMesh.entityCount (mesh : ElementMesh) : Kind → Nat
  | .vertex => mesh.vertexCount
  | .edge => mesh.edgeKeys.length
  | .face => mesh.faceKeys.length
  | .element => mesh.elements.length

/-- Every member of every set is an entity of the mesh. -/
def SetsByKind.InRange (sets : SetsByKind Nat) (mesh : ElementMesh) : Prop :=
  ∀ kind, ∀ set ∈ sets.get kind, ∀ member ∈ set.members, member < mesh.entityCount kind

/-- The derived tables that sets of a kind need. -/
def Kind.tables : Kind → List DerivedTable
  | .edge => [.edgeVertex]
  | .face => [.faceVertex, .faceEdge]
  | _ => []

theorem Kind.exists_mem_tables (which : DerivedTable) : ∃ kind : Kind, which ∈ kind.tables := by
  cases which with
  | edgeVertex => exact ⟨.edge, by decide⟩
  | faceVertex => exact ⟨.face, by decide⟩
  | faceEdge => exact ⟨.face, by decide⟩

namespace SetCatalog

/-- Of the derived tables of a mesh, those that some sets need. -/
def neededTables (sets : SetsByKind Nat) (mesh : ElementMesh) : DerivedTables where
  edgeVertex := if 0 < sets.count .edge then some (mesh.derived .edgeVertex) else none
  faceVertex := if 0 < sets.count .face then some (mesh.derived .faceVertex) else none
  faceEdge := if 0 < sets.count .face then some (mesh.derived .faceEdge) else none

/-- The catalog of some sets that is bound to a mesh. -/
def boundTo (sets : SetsByKind Nat) (mesh : ElementMesh) : SetCatalog :=
  { ofMesh mesh with sets := sets, tables := neededTables sets mesh }

variable {sets : SetsByKind Nat} {mesh : ElementMesh}

/-- A bound catalog has the tables that its sets need, and no others. -/
theorem tables_get_boundTo_eq {kind : Kind} {which : DerivedTable} (hwhich : which ∈ kind.tables) :
    (boundTo sets mesh).tables.get which =
      if 0 < sets.count kind then some (mesh.derived which) else none := by
  cases kind <;> simp only [Kind.tables, List.mem_cons, List.not_mem_nil, or_false] at hwhich
  · subst hwhich
    rfl
  · rcases hwhich with rfl | rfl <;> rfl

theorem tables_get_boundTo {kind : Kind} (hcount : 0 < sets.count kind) {which : DerivedTable}
    (hwhich : which ∈ kind.tables) :
    (boundTo sets mesh).tables.get which = some (mesh.derived which) :=
  (tables_get_boundTo_eq hwhich).trans (if_pos hcount)

theorem memberDefect?_eq_none_iff (catalog : SetCatalog) (kind : Kind) :
    catalog.memberDefect? kind = none ↔ ∀ limit, catalog.limit? kind = some limit →
      ∀ set ∈ catalog.sets.get kind, ∀ member ∈ set.members, member < limit := by
  unfold memberDefect?
  split
  · simp_all
  · simp_all [List.findSome?_eq_none_iff]

theorem tableDefect?_boundTo (which : DerivedTable) :
    (boundTo sets mesh).tableDefect? which = none := by
  have hderived : (mesh.derived which).defect? = none := by
    cases which <;> exact IncidenceTable.defect?_ofRows _
  cases which <;> unfold tableDefect? <;> split <;>
    simp_all [boundTo, neededTables, DerivedTables.get]

/-- The limits of a bound catalog are the mesh's, for the kinds that have sets. -/
theorem limit?_boundTo {kind : Kind} {set : NamedSet Nat} (hset : set ∈ sets.get kind) :
    (boundTo sets mesh).limit? kind = some (mesh.entityCount kind) := by
  have hcount : 0 < sets.count kind := List.length_pos_of_mem hset
  cases kind with
  | vertex => rfl
  | edge =>
      simp [limit?, boundTo, neededTables, hcount, ElementMesh.derived, ElementMesh.edgeRows,
        ElementMesh.entityCount]
  | face =>
      simp [limit?, boundTo, neededTables, hcount, ElementMesh.derived,
        ElementMesh.length_faceRows, ElementMesh.entityCount]
  | element => rfl

/-- A bound catalog has no defect exactly when its members are in range. -/
theorem defect?_boundTo_eq_none_iff :
    (boundTo sets mesh).defect? = none ↔ sets.InRange mesh := by
  have hkinds : (boundTo sets mesh).defect? = none ↔
      ∀ kind, (boundTo sets mesh).memberDefect? kind = none := by
    simp only [defect?, Option.or_eq_none_iff, List.findSome?_eq_none_iff, tableDefect?_boundTo]
    constructor
    · rintro ⟨hmembers, -⟩ kind
      exact hmembers kind (by cases kind <;> decide)
    · exact fun hmembers => ⟨fun kind _ => hmembers kind, fun _ _ => trivial⟩
  rw [hkinds]
  apply forall_congr'
  intro kind
  rw [memberDefect?_eq_none_iff]
  constructor
  · intro hlimits set hset
    exact hlimits _ (limit?_boundTo hset) set hset
  · intro hrange limit hlimit set hset
    exact Option.some.inj ((limit?_boundTo hset).symm.trans hlimit) ▸ hrange set hset

end SetCatalog

namespace Bound

/-- Binding some catalog to the mesh has given this catalog. -/
def IsBound (bound : Bound ElementMesh) : Prop :=
  ∃ before, rebind.Runs ⟨before, bound.mesh⟩ () bound

variable {mesh : ElementMesh}

theorem obtain_runs (hsound : mesh.Sound) (catalog : SetCatalog) (which : DerivedTable) :
    (obtain which).Runs ⟨catalog, mesh⟩ (mesh.derived which) ⟨catalog, mesh⟩ := by
  apply Action.runs_state.bind
  cases htable : mesh.tables.get which with
  | some table =>
      rw [hsound.tables_eq which table htable]
      exact Action.runs_pure _
  | none =>
      have hhanded : Connectivity.handOver which mesh = .ok (mesh.derived which, mesh) := by
        have hunchanged : mesh.tables.set which none = mesh.tables := by
          rw [← htable, DerivedTables.set_get]
        exact (hsound.handOver_eq which).trans (by rw [hunchanged])
      exact (Action.runs_note _).bind <| (Action.runs_ofResult hhanded).bind <|
        Action.runs_setState.bind (Action.runs_pure _)

theorem setTable_runs (catalog : SetCatalog) (which : DerivedTable)
    (table : Option IncidenceTable) :
    (setTable which table).Runs ⟨catalog, mesh⟩ ()
      ⟨{ catalog with tables := catalog.tables.set which table }, mesh⟩ :=
  Action.runs_state.bind Action.runs_setState

/-- Renewing a table sets it to the mesh's or drops it. -/
theorem renewTable_runs (hsound : mesh.Sound) (catalog : SetCatalog) (needed : Bool)
    (which : DerivedTable) :
    (renewTable needed which).Runs ⟨catalog, mesh⟩ ()
      ⟨{ catalog with
          tables := catalog.tables.set which (if needed then some (mesh.derived which) else none) },
        mesh⟩ := by
  cases needed with
  | false => exact setTable_runs catalog which none
  | true => exact (obtain_runs hsound catalog which).bind (setTable_runs catalog which _)

/-- Binding gives the bound catalog, and fails then if a member is out of range. -/
theorem rebind_ends (hsound : mesh.Sound) (catalog : SetCatalog) :
    rebind.Ends ⟨catalog, mesh⟩ (insist (SetCatalog.boundTo catalog.sets mesh).defect?)
      ⟨.boundTo catalog.sets mesh, mesh⟩ := by
  apply Action.runs_state.bind
  apply (renewTable_runs hsound _ _ _).bind
  apply (renewTable_runs hsound _ _ _).bind
  apply (renewTable_runs hsound _ _ _).bind
  apply Action.runs_state.bind
  apply Action.runs_setState.bind
  simp only [SetCatalog.boundTo, SetCatalog.neededTables, DerivedTables.set, decide_eq_true_eq]
  exact Action.ends_ofResult _

theorem rebind_runs (hsound : mesh.Sound) (catalog : SetCatalog)
    (hrange : catalog.sets.InRange mesh) :
    rebind.Runs ⟨catalog, mesh⟩ () ⟨.boundTo catalog.sets mesh, mesh⟩ := by
  have hends := rebind_ends hsound catalog
  rwa [SetCatalog.defect?_boundTo_eq_none_iff.mpr hrange] at hends

/-- A catalog is bound to a sound mesh exactly when it is the bound catalog of its
sets and these are in range. -/
theorem isBound_iff {catalog : SetCatalog} (hsound : mesh.Sound) :
    IsBound ⟨catalog, mesh⟩ ↔
      catalog = .boundTo catalog.sets mesh ∧ catalog.sets.InRange mesh := by
  constructor
  · rintro ⟨before, hruns⟩
    obtain ⟨hinsist, hcatalog⟩ := (rebind_ends hsound before).unique hruns
    have hsame : SetCatalog.boundTo before.sets mesh = catalog := congrArg Bound.catalog hcatalog
    subst hsame
    exact ⟨rfl, SetCatalog.defect?_boundTo_eq_none_iff.mp (insist_eq_ok_iff.mp hinsist)⟩
  · rintro ⟨hcatalog, hrange⟩
    refine ⟨catalog, ?_⟩
    have hruns := rebind_runs hsound catalog hrange
    rwa [← hcatalog] at hruns

end Bound

end MeshIncidence
