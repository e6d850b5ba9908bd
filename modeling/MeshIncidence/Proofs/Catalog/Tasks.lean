/-
# What is done to the sets of a mesh

Sets are loaded from a file, projected from a snapshot, bound anew, or made to follow a
refinement of the mesh. `SetTask` lists these tasks, so that something can be said of all of
them.

Each task reads of the mesh only what its elements decide. `Bound.EndsAlike` says so for meshes
that differ in nothing but the tables they keep, and it is put together as actions are. What
holds of the catalog after a success is carried along, since every task ends with binding.
-/

import MeshIncidence.Proofs.SetFile.Loading
import MeshIncidence.Proofs.Catalog.Rounds
import MeshIncidence.Snapshot

namespace MeshIncidence

/-- The mesh with other tables. -/
def ElementMesh.keeping (mesh : ElementMesh) (tables : DerivedTables) : ElementMesh :=
  { mesh with tables := tables }

/-- The tasks that end with binding the sets to the mesh. -/
inductive SetTask
  | load (bytes : ByteArray)
  | project (lineage : Lineage) (snapshot : Snapshot)
  | rebind
  | followQuadrilaterals
  | followHexahedra

namespace Bound

variable {α β : Type}

/-- Whatever sound tables the mesh keeps, the actions leave it as it is. All of them have the
same outcome and give the same catalog, of which `post` holds if they succeed. -/
def EndsAlike (run : DerivedTables → Action (Bound ElementMesh) α) (catalog : SetCatalog)
    (mesh : ElementMesh) (post : SetCatalog → Prop) : Prop :=
  ∃ outcome after, (∀ value, outcome = .ok value → post after) ∧
    ∀ tables, (mesh.keeping tables).Sound →
      (run tables).Ends ⟨catalog, mesh.keeping tables⟩ outcome ⟨after, mesh.keeping tables⟩

namespace EndsAlike

variable {catalog : SetCatalog} {mesh : ElementMesh} {post : SetCatalog → Prop}

theorem mono {wider : SetCatalog → Prop} {run : DerivedTables → Action (Bound ElementMesh) α}
    (halike : EndsAlike run catalog mesh post) (hwider : ∀ after, post after → wider after) :
    EndsAlike run catalog mesh wider := by
  obtain ⟨outcome, after, hpost, hends⟩ := halike
  exact ⟨outcome, after, fun value hok => hwider after (hpost value hok), hends⟩

theorem pure (value : α) : EndsAlike (fun _ => pure value) catalog mesh fun _ => True :=
  ⟨_, _, fun _ _ => trivial, fun _ _ => Action.runs_pure value⟩

theorem throw (failure : Failure) :
    EndsAlike (fun _ => (throw failure : Action (Bound ElementMesh) α)) catalog mesh post :=
  ⟨.error failure, catalog, fun _ hok => absurd hok (by simp),
    fun _ _ => Action.ends_ofResult (.error failure)⟩

/-- The first action decides with which catalog the second one starts. -/
theorem bind {first : DerivedTables → Action (Bound ElementMesh) α}
    {next : DerivedTables → α → Action (Bound ElementMesh) β} {middle : SetCatalog → Prop}
    (hfirst : EndsAlike first catalog mesh middle)
    (hnext : ∀ value current, middle current →
      EndsAlike (fun tables => next tables value) current mesh post) :
    EndsAlike (fun tables => first tables >>= next tables) catalog mesh post := by
  obtain ⟨outcome, current, hmiddle, hends⟩ := hfirst
  cases outcome with
  | error failure =>
      exact ⟨.error failure, current, fun _ hok => absurd hok (by simp),
        fun tables hsound => (hends tables hsound).bind_error⟩
  | ok value =>
      obtain ⟨last, after, hpost, hlast⟩ := hnext value current (hmiddle value rfl)
      exact ⟨last, after, hpost, fun tables hsound =>
        Action.Runs.bind (hends tables hsound) (hlast tables hsound)⟩

/-- An outcome that depends on no state is the same for all. -/
theorem ofResult_bind (outcome : Result α)
    {next : DerivedTables → α → Action (Bound ElementMesh) β}
    (hnext : ∀ value, outcome = .ok value →
      EndsAlike (fun tables => next tables value) catalog mesh post) :
    EndsAlike (fun tables => Action.ofResult outcome >>= next tables) catalog mesh post := by
  cases outcome with
  | error failure => exact (throw failure).bind fun _ _ hnever => False.elim hnever
  | ok value =>
      obtain ⟨last, after, hpost, hlast⟩ := hnext value rfl
      exact ⟨last, after, hpost, fun tables hsound =>
        (Action.runs_ofResult rfl).bind (hlast tables hsound)⟩

/-- The state that is read has the catalog and the mesh as they are. -/
theorem state_bind {next : DerivedTables → Bound ElementMesh → Action (Bound ElementMesh) α}
    (hnext : EndsAlike (fun tables => next tables ⟨catalog, mesh.keeping tables⟩) catalog mesh
      post) :
    EndsAlike (fun tables => Action.state >>= next tables) catalog mesh post := by
  obtain ⟨outcome, after, hpost, hends⟩ := hnext
  exact ⟨outcome, after, hpost, fun tables hsound =>
    Action.runs_state.bind (hends tables hsound)⟩

theorem setCatalog (after : SetCatalog) :
    EndsAlike (fun tables => Action.setState ⟨after, mesh.keeping tables⟩) catalog mesh
      fun _ => True :=
  ⟨.ok (), after, fun _ _ => trivial, fun _ _ => Action.runs_setState⟩

theorem note (message : Note) :
    EndsAlike (fun _ => Action.note message) catalog mesh fun _ => True :=
  ⟨.ok (), catalog, fun _ _ => trivial, fun _ _ => Action.runs_note message⟩

theorem forM_note (messages : List Note) :
    EndsAlike (fun _ => messages.forM Action.note) catalog mesh fun _ => True :=
  ⟨.ok (), catalog, fun _ _ => trivial, fun _ _ => Action.runs_forM_note messages⟩

end EndsAlike

/-- The catalog is the one that binding its sets to the mesh gives, and they are in range. -/
def IsBoundTo (mesh : ElementMesh) (catalog : SetCatalog) : Prop :=
  catalog = .boundTo catalog.sets mesh ∧ catalog.sets.InRange mesh

variable (catalog : SetCatalog) (mesh : ElementMesh)

theorem endsAlike_rebind : EndsAlike (fun _ => rebind) catalog mesh (IsBoundTo mesh) := by
  refine ⟨insist (SetCatalog.boundTo catalog.sets mesh).defect?, .boundTo catalog.sets mesh,
    fun _ hok => ⟨rfl, ?_⟩, fun _ hsound => rebind_ends hsound catalog⟩
  exact SetCatalog.defect?_boundTo_eq_none_iff.mp (insist_eq_ok_iff.mp hok)

theorem endsAlike_load (bytes : ByteArray) :
    EndsAlike (fun _ => load bytes) catalog mesh fun after =>
      (∃ text, decodeText bytes = .ok text ∧ IsSetFile text) → IsBoundTo mesh after := by
  apply EndsAlike.state_bind
  refine EndsAlike.ofResult_bind (decodeText bytes) fun text hbytes => ?_
  dsimp only
  split_ifs with htitle
  · apply (EndsAlike.note _).mono
    rintro after - ⟨other, hother, hfile⟩
    have hsame : other = text := Except.ok.inj (hother.symm.trans hbytes)
    exact absurd (isSetFile_iff.mp (hsame ▸ hfile)) htitle
  · refine EndsAlike.ofResult_bind ((Scan.catalogSets mesh).run (titleLine text).2)
      fun read _ => ?_
    refine (EndsAlike.setCatalog { catalog with sets := read.1 }).bind fun _ current _ => ?_
    refine (EndsAlike.note (.loaded read.1.counts)).bind fun _ current _ => ?_
    exact (endsAlike_rebind current mesh).mono fun _ hbound _ => hbound

theorem endsAlike_project (lineage : Lineage) (snapshot : Snapshot) :
    EndsAlike (fun _ => project lineage snapshot) catalog mesh (IsBoundTo mesh) := by
  apply EndsAlike.state_bind
  refine EndsAlike.ofResult_bind (snapshot.projected lineage) fun sets _ => ?_
  refine (EndsAlike.setCatalog { SetCatalog.ofMesh mesh with sets := sets }).bind
    fun _ current _ => ?_
  exact endsAlike_rebind current mesh

theorem endsAlike_applySplit (kind : Kind)
    (split : List (NamedSet Nat) × List Note × Option Failure) :
    EndsAlike (fun _ => applySplit kind split) catalog mesh fun _ => True := by
  obtain ⟨sets, notes, failure⟩ := split
  apply EndsAlike.state_bind
  refine (EndsAlike.forM_note notes).bind fun _ current _ => ?_
  refine (EndsAlike.setCatalog { catalog with sets := catalog.sets.set kind sets }).bind
    fun _ current _ => ?_
  cases failure with
  | some failure => exact .throw failure
  | none => exact .pure ()

theorem endsAlike_splitEdgeSets :
    EndsAlike (fun _ => splitEdgeSets) catalog mesh fun _ => True := by
  apply EndsAlike.state_bind
  dsimp only
  split_ifs
  · refine EndsAlike.ofResult_bind (Connectivity.edges mesh) fun edges _ => ?_
    cases catalog.tables.edgeVertex with
    | none => exact .throw _
    | some edgeVertex => exact endsAlike_applySplit _ mesh .edge _
  · exact .pure ()

theorem endsAlike_splitFaceSets :
    EndsAlike (fun _ => splitFaceSets) catalog mesh fun _ => True := by
  apply EndsAlike.state_bind
  dsimp only
  split_ifs
  · refine EndsAlike.ofResult_bind (Connectivity.faces mesh) fun faces _ => ?_
    refine EndsAlike.ofResult_bind (addWords catalog.vertexCount catalog.edgeCount)
      fun firstCenter _ => ?_
    cases catalog.tables.faceVertex with
    | none => exact .throw _
    | some faceVertex =>
        cases catalog.tables.faceEdge with
        | none => exact .throw _
        | some faceEdge => exact endsAlike_applySplit _ mesh .face _
  · exact .pure ()

theorem endsAlike_splitElementSets (size : Nat) :
    EndsAlike (fun _ => splitElementSets size) catalog mesh fun _ => True := by
  apply EndsAlike.state_bind
  refine (EndsAlike.note (.splitElements size catalog.elementCount)).bind fun _ current _ => ?_
  refine EndsAlike.ofResult_bind (catalog.splitElementSets size) fun sets _ => ?_
  exact .setCatalog { catalog with sets := catalog.sets.set .element sets }

theorem endsAlike_followQuadrilaterals :
    EndsAlike (fun _ => followQuadrilaterals) catalog mesh (IsBoundTo mesh) := by
  refine (endsAlike_splitEdgeSets catalog mesh).bind fun _ current _ => ?_
  refine (endsAlike_splitElementSets current mesh 4).bind fun _ current _ => ?_
  exact endsAlike_rebind current mesh

theorem endsAlike_followHexahedra :
    EndsAlike (fun _ => followHexahedra) catalog mesh (IsBoundTo mesh) := by
  refine (endsAlike_splitEdgeSets catalog mesh).bind fun _ current _ => ?_
  refine (endsAlike_splitFaceSets current mesh).bind fun _ current _ => ?_
  refine (endsAlike_splitElementSets current mesh 8).bind fun _ current _ => ?_
  exact endsAlike_rebind current mesh

end Bound

namespace SetTask

/-- What a task does. -/
def action : SetTask → Action (Bound ElementMesh) Unit
  | .load bytes => Bound.load bytes
  | .project lineage snapshot => Bound.project lineage snapshot
  | .rebind => Bound.rebind
  | .followQuadrilaterals => Bound.followQuadrilaterals
  | .followHexahedra => Bound.followHexahedra

/-- The task binds the sets if it succeeds. Loading passes over what is no set file. -/
def Binds : SetTask → Prop
  | .load bytes => ∃ text, decodeText bytes = .ok text ∧ IsSetFile text
  | _ => True

theorem endsAlike (task : SetTask) (catalog : SetCatalog) (mesh : ElementMesh) :
    Bound.EndsAlike (fun _ => task.action) catalog mesh fun after =>
      task.Binds → Bound.IsBoundTo mesh after := by
  cases task with
  | load bytes => exact Bound.endsAlike_load catalog mesh bytes
  | project lineage snapshot =>
      exact (Bound.endsAlike_project catalog mesh lineage snapshot).mono fun _ hbound _ => hbound
  | rebind => exact (Bound.endsAlike_rebind catalog mesh).mono fun _ hbound _ => hbound
  | followQuadrilaterals =>
      exact (Bound.endsAlike_followQuadrilaterals catalog mesh).mono fun _ hbound _ => hbound
  | followHexahedra =>
      exact (Bound.endsAlike_followHexahedra catalog mesh).mono fun _ hbound _ => hbound

variable {mesh : ElementMesh}

/-- A task leaves a sound mesh as it is, and if it binds the sets they are bound after it. -/
theorem perform_eq (task : SetTask) (catalog : SetCatalog) (hsound : mesh.Sound) :
    ∃ outcome after notes,
      task.action.perform ⟨catalog, mesh⟩ = (outcome, ⟨⟨after, mesh⟩, notes⟩) ∧
        (outcome = .ok () → task.Binds → Bound.IsBoundTo mesh after) := by
  obtain ⟨outcome, after, hpost, hends⟩ := task.endsAlike catalog mesh
  obtain ⟨notes, hperform⟩ := (hends mesh.tables hsound).perform
  exact ⟨outcome, after, notes, hperform, hpost ()⟩

end SetTask

end MeshIncidence
