/-
# Looking sets up after any operations

In a run catalogs and snapshots are made, copied and changed, each by itself, for meshes of any type
and with any outcome. `SetKeeping` says what a representation of catalogs and snapshots has to
offer for this, and `SetKeeping.run` is a run of them. There are two: lists of named sets, and
registers.

One step keeps the two in agreement, and the registers in step. So after any operations a name is
found in the index where the lists have it last, every position has a name and members, and a name
that no set has is refused.
-/

import MeshIncidence.Proofs.Catalog.RegisterActions

namespace MeshIncidence

/-- Operations on the sets of a mesh that end with binding them. -/
inductive BindingTask
  | load (bytes : ByteArray)
  | rebind
  | followQuadrilaterals
  | followHexahedra

namespace BindingTask

variable {M : Type} [Connectivity M]

/-- The task on lists of named sets. -/
def action : BindingTask → Action (Bound M) Unit
  | .load bytes => Bound.load bytes
  | .rebind => Bound.rebind
  | .followQuadrilaterals => Bound.followQuadrilaterals
  | .followHexahedra => Bound.followHexahedra

/-- The task on registers. -/
def registeredAction : BindingTask → Action (Registered M) Unit
  | .load bytes => Registered.load bytes
  | .rebind => Registered.throughMembers Bound.rebind
  | .followQuadrilaterals => Registered.throughMembers Bound.followQuadrilaterals
  | .followHexahedra => Registered.throughMembers Bound.followHexahedra

theorem mirrors (task : BindingTask) {before : Registered M} (hstep : before.InStep) :
    before.Mirrors task.registeredAction task.action := by
  cases task with
  | load bytes => exact Registered.mirrors_load hstep bytes
  | rebind => exact Registered.mirrors_throughMembers hstep Bound.keepsNames_rebind
  | followQuadrilaterals =>
      exact Registered.mirrors_throughMembers hstep Bound.keepsNames_followQuadrilaterals
  | followHexahedra =>
      exact Registered.mirrors_throughMembers hstep Bound.keepsNames_followHexahedra

end BindingTask

/-- A mesh of some type. -/
structure AnyMesh : Type 1 where
  M : Type
  connectivity : Connectivity M
  mesh : M

attribute [instance] AnyMesh.connectivity

/-- What can be done to a catalog. -/
inductive CatalogChange : Type 1
  | add (kind : Kind) (name : String) (members : List Nat)
  | modifyAt (kind : Kind) (position : Nat) (change : List Nat → List Nat)
  | clear
  | task (any : AnyMesh) (task : BindingTask)

/-- The catalog after a change, whatever its outcome. -/
def SetCatalog.changed (catalog : SetCatalog) : CatalogChange → SetCatalog
  | .add kind name members => { catalog with sets := (catalog.sets.add kind name members).2 }
  | .modifyAt kind position change =>
    match catalog.sets.modifyAt kind position change with
    | .ok sets => { catalog with sets := sets }
    | .error _ => catalog
  | .clear => catalog.clear
  | .task any task => (task.action.perform ⟨catalog, any.mesh⟩).2.state.catalog

/-- The catalog after a change, whatever its outcome. -/
def RegisteredCatalog.changed (catalog : RegisteredCatalog) : CatalogChange → RegisteredCatalog
  | .add kind name members =>
    { catalog with registers := (catalog.registers.add kind name members).2 }
  | .modifyAt kind position change =>
    match catalog.registers.modifyAt kind position change with
    | .ok registers => { catalog with registers := registers }
    | .error _ => catalog
  | .clear => catalog.clear
  | .task any task => (task.registeredAction.perform ⟨catalog, any.mesh⟩).2.state.catalog

/-- Catalogs and snapshots in some representation, with the operations on them. -/
structure SetKeeping (C S : Type) : Type 1 where
  /-- The catalog of a mesh without sets. -/
  ofMesh : AnyMesh → C
  changed : C → CatalogChange → C
  /-- A new catalog with the descendants of the members of a snapshot. -/
  project : AnyMesh → Lineage → S → Result C
  /-- The snapshot without sets. -/
  empty : S
  capture : C → Lineage → Result S

/-- Catalogs and snapshots as lists of named sets. -/
def listKeeping : SetKeeping SetCatalog Snapshot where
  ofMesh any := .ofMesh any.mesh
  changed := SetCatalog.changed
  project any lineage snapshot :=
    let (outcome, logged) := (Bound.project lineage snapshot).perform (.ofMesh any.mesh)
    outcome.map fun _ => logged.state.catalog
  empty := .empty
  capture catalog lineage := ((Snapshot.capture catalog lineage).perform ()).1

/-- Catalogs and snapshots with registers. -/
def registerKeeping : SetKeeping RegisteredCatalog RegisteredSnapshot where
  ofMesh any := .ofMesh any.mesh
  changed := RegisteredCatalog.changed
  project any lineage snapshot :=
    let (outcome, logged) :=
      (Registered.project lineage snapshot).perform ⟨.ofMesh any.mesh, any.mesh⟩
    outcome.map fun _ => logged.state.catalog
  empty := .empty
  capture := RegisteredSnapshot.capture

/-- Catalogs and snapshots that there are. -/
structure SetStore (C S : Type) where
  catalogs : List C
  snapshots : List S

/-- Operations on the catalogs and snapshots that there are, which are told by their positions. What
is made comes last. -/
inductive StoreOperation : Type 1
  | newCatalog (any : AnyMesh)
  | copyCatalog (source : Nat)
  | change (target : Nat) (change : CatalogChange)
  | project (any : AnyMesh) (lineage : Lineage) (source : Nat)
  | newSnapshot
  | copySnapshot (source : Nat)
  | capture (lineage : Lineage) (source : Nat)

namespace SetKeeping

variable {C S D T : Type}

/-- Carry out an operation. Where it fails to make something, nothing is added. -/
def run (keeping : SetKeeping C S) (store : SetStore C S) : StoreOperation → SetStore C S
  | .newCatalog any => { store with catalogs := store.catalogs ++ [keeping.ofMesh any] }
  | .copyCatalog source =>
    { store with catalogs := store.catalogs ++ store.catalogs[source]?.toList }
  | .change target change =>
    { store with catalogs := store.catalogs.modify target (keeping.changed · change) }
  | .project any lineage source =>
    let made := store.snapshots[source]?.toList.filterMap fun snapshot =>
      (keeping.project any lineage snapshot).toOption
    { store with catalogs := store.catalogs ++ made }
  | .newSnapshot => { store with snapshots := store.snapshots ++ [keeping.empty] }
  | .copySnapshot source =>
    { store with snapshots := store.snapshots ++ store.snapshots[source]?.toList }
  | .capture lineage source =>
    let made := store.catalogs[source]?.toList.filterMap fun catalog =>
      (keeping.capture catalog lineage).toOption
    { store with snapshots := store.snapshots ++ made }

/-- Carry out operations one after the other, beginning with nothing. -/
def runAll (keeping : SetKeeping C S) (operations : List StoreOperation) : SetStore C S :=
  operations.foldl keeping.run ⟨[], []⟩

end SetKeeping

section Related

variable {α β : Type} {related : α → β → Prop} {first : List α} {second : List β}

/-- Where one of two related lists has an entry, the other has a related one. -/
theorem forall₂_toList_getElem? (hlists : List.Forall₂ related first second) (position : Nat) :
    List.Forall₂ related first[position]?.toList second[position]?.toList := by
  induction hlists generalizing position with
  | nil => exact .nil
  | cons hhead _ ih =>
      cases position with
      | zero => exact .cons hhead .nil
      | succ position => exact ih position

theorem forall₂_modify (hlists : List.Forall₂ related first second) {change : α → α}
    {changeOther : β → β}
    (hchange : ∀ item partner, related item partner → related (change item) (changeOther partner))
    (position : Nat) :
    List.Forall₂ related (first.modify position change) (second.modify position changeOther) := by
  induction hlists generalizing position with
  | nil => simp
  | cons hhead htail ih =>
      cases position with
      | zero => exact .cons (hchange _ _ hhead) htail
      | succ position => exact .cons hhead (ih position)

end Related

namespace SetKeeping

variable {C S D T : Type}

/-- Two representations agree: what they make of related things is related again. -/
structure Agrees (keeping : SetKeeping C S) (other : SetKeeping D T) (catalogs : C → D → Prop)
    (snapshots : S → T → Prop) : Prop where
  ofMesh : ∀ any, catalogs (keeping.ofMesh any) (other.ofMesh any)
  changed : ∀ first second, catalogs first second → ∀ change,
    catalogs (keeping.changed first change) (other.changed second change)
  project : ∀ first second, snapshots first second → ∀ any lineage,
    Option.Rel catalogs (keeping.project any lineage first).toOption
      (other.project any lineage second).toOption
  empty : snapshots keeping.empty other.empty
  capture : ∀ first second, catalogs first second → ∀ lineage,
    Option.Rel snapshots (keeping.capture first lineage).toOption
      (other.capture second lineage).toOption

namespace Agrees

variable {keeping : SetKeeping C S} {other : SetKeeping D T} {catalogs : C → D → Prop}
  {snapshots : S → T → Prop}

/-- An operation on related stores leaves related stores. -/
theorem run (hagrees : keeping.Agrees other catalogs snapshots) {store : SetStore C S}
    {partner : SetStore D T} (hcatalogs : List.Forall₂ catalogs store.catalogs partner.catalogs)
    (hsnapshots : List.Forall₂ snapshots store.snapshots partner.snapshots)
    (operation : StoreOperation) :
    List.Forall₂ catalogs (keeping.run store operation).catalogs
        (other.run partner operation).catalogs ∧
      List.Forall₂ snapshots (keeping.run store operation).snapshots
        (other.run partner operation).snapshots := by
  cases operation with
  | newCatalog any =>
      exact ⟨List.rel_append hcatalogs (.cons (hagrees.ofMesh any) .nil), hsnapshots⟩
  | copyCatalog source =>
      exact ⟨List.rel_append hcatalogs (forall₂_toList_getElem? hcatalogs source), hsnapshots⟩
  | change target change =>
      exact ⟨forall₂_modify hcatalogs
        (fun first second hsame => hagrees.changed first second hsame change) target, hsnapshots⟩
  | project any lineage source =>
      have hmade := List.rel_filterMap
        (fun first second hsame => hagrees.project first second hsame any lineage)
        (forall₂_toList_getElem? hsnapshots source)
      exact ⟨List.rel_append hcatalogs hmade, hsnapshots⟩
  | newSnapshot => exact ⟨hcatalogs, List.rel_append hsnapshots (.cons hagrees.empty .nil)⟩
  | copySnapshot source =>
      exact ⟨hcatalogs, List.rel_append hsnapshots (forall₂_toList_getElem? hsnapshots source)⟩
  | capture lineage source =>
      have hmade := List.rel_filterMap
        (fun first second hsame => hagrees.capture first second hsame lineage)
        (forall₂_toList_getElem? hcatalogs source)
      exact ⟨hcatalogs, List.rel_append hsnapshots hmade⟩

theorem runAll (hagrees : keeping.Agrees other catalogs snapshots)
    (operations : List StoreOperation) :
    List.Forall₂ catalogs (keeping.runAll operations).catalogs
        (other.runAll operations).catalogs ∧
      List.Forall₂ snapshots (keeping.runAll operations).snapshots
        (other.runAll operations).snapshots := by
  induction operations using List.reverseRecOn with
  | nil => exact ⟨.nil, .nil⟩
  | append_singleton operations operation ih =>
      rw [SetKeeping.runAll, SetKeeping.runAll, List.foldl_concat, List.foldl_concat]
      exact hagrees.run ih.1 ih.2 operation

end Agrees

end SetKeeping

/-- The registers are in step and show the catalog. -/
def RegisteredCatalog.Shows (registered : RegisteredCatalog) (catalog : SetCatalog) : Prop :=
  registered.InStep ∧ registered.toCatalog = catalog

/-- The registers are in step and show the snapshot. -/
def RegisteredSnapshot.Shows (registered : RegisteredSnapshot) (snapshot : Snapshot) : Prop :=
  registered.InStep ∧ registered.toSnapshot = snapshot

/-- A change of the registers is shown as the change of the catalog. -/
theorem RegisteredCatalog.shows_changed {registered : RegisteredCatalog}
    (hstep : registered.InStep) (change : CatalogChange) :
    (registered.changed change).Shows (registered.toCatalog.changed change) := by
  cases change with
  | add kind name members =>
      obtain ⟨hkept, -, hsets⟩ := RegistersByKind.InStep.add hstep kind name members
      exact ⟨hkept, by rw [changed, SetCatalog.changed, toCatalog, hsets]; rfl⟩
  | modifyAt kind position change =>
      obtain ⟨hstop, hsets⟩ | ⟨after, hafter, hchanged, hsets⟩ :=
        RegistersByKind.InStep.modifyAt_cases hstep kind position change
      · refine ⟨?_, ?_⟩ <;> simp only [changed, SetCatalog.changed, toCatalog, hstop, hsets, stop]
        exact hstep
      · refine ⟨?_, ?_⟩ <;> simp only [changed, SetCatalog.changed, toCatalog, hchanged, hsets]
        exact hafter
  | clear => exact ⟨RegistersByKind.inStep_none, rfl⟩
  | task any task =>
      have hbefore : Registered.InStep ⟨registered, any.mesh⟩ := hstep
      obtain ⟨outcome, after, notes, hafter, hrun, hshown⟩ := (task.mirrors hbefore).perform
      have hchanged : registered.changed (.task any task) = after.catalog := by
        rw [changed, hrun]
      have hcatalog : registered.toCatalog.changed (.task any task) = after.catalog.toCatalog :=
        congrArg (fun performed => performed.2.state.catalog) hshown
      rw [hchanged, hcatalog]
      exact ⟨hafter, rfl⟩

/-- The outcome of taking a snapshot does not depend on the note that tells of it. -/
theorem Snapshot.perform_capture (catalog : SetCatalog) (lineage : Lineage) :
    ((Snapshot.capture catalog lineage).perform ()).1 = catalog.snapshot lineage := by
  rw [Snapshot.capture]
  cases catalog.snapshot lineage <;> rfl

theorem RegisteredSnapshot.shows_ofSets (snapshot : Snapshot) :
    Shows ⟨PerKind.map Register.ofSets snapshot.sets⟩ snapshot :=
  ⟨RegistersByKind.inStep_ofSets snapshot.sets, by
    rw [toSnapshot, RegistersByKind.toSets_ofSets]⟩

/-- What is made of registers in step is in step, and shows what is made of the lists. -/
theorem agrees_registerKeeping : registerKeeping.Agrees listKeeping RegisteredCatalog.Shows
    RegisteredSnapshot.Shows where
  ofMesh any := ⟨RegistersByKind.inStep_none, rfl⟩
  changed := by
    rintro registered _ ⟨hstep, rfl⟩ change
    exact RegisteredCatalog.shows_changed hstep change
  project := by
    rintro registered _ ⟨hstep, rfl⟩ any lineage
    have hbefore : Registered.InStep ⟨.ofMesh any.mesh, any.mesh⟩ := RegistersByKind.inStep_none
    obtain ⟨outcome, after, notes, hafter, hrun, hshown⟩ :=
      (Registered.mirrors_project hbefore lineage hstep).perform
    have hmade : registerKeeping.project any lineage registered =
        outcome.map fun _ => after.catalog :=
      congrArg (fun performed => performed.1.map fun _ => performed.2.state.catalog) hrun
    have hlisted : listKeeping.project any lineage registered.toSnapshot =
        outcome.map fun _ => after.catalog.toCatalog :=
      congrArg (fun performed => performed.1.map fun _ => performed.2.state.catalog) hshown
    rw [hmade, hlisted]
    cases outcome with
    | error failure => exact .none
    | ok _ => exact .some ⟨hafter, rfl⟩
  empty := ⟨RegistersByKind.inStep_none, rfl⟩
  capture := by
    rintro registered _ ⟨-, rfl⟩ lineage
    have hmade : registerKeeping.capture registered lineage = _ :=
      RegisteredSnapshot.capture_eq registered lineage
    have hlisted : listKeeping.capture registered.toCatalog lineage = _ :=
      Snapshot.perform_capture registered.toCatalog lineage
    rw [hmade, hlisted]
    cases registered.toCatalog.snapshot lineage with
    | error failure => exact .none
    | ok snapshot => exact .some (RegisteredSnapshot.shows_ofSets snapshot)

/-- What the two representations give after some operations. -/
structure LooksUpAlike (operations : List StoreOperation) : Prop where
  /-- As many catalogs, which show the same and look sets up alike. -/
  catalogs : List.Forall₂ (fun registered catalog => registered.toCatalog = catalog ∧
      registered.registers.LooksUp catalog.sets)
    (registerKeeping.runAll operations).catalogs (listKeeping.runAll operations).catalogs
  snapshots : List.Forall₂ (fun registered snapshot => registered.toSnapshot = snapshot ∧
      registered.registers.LooksUp snapshot.sets)
    (registerKeeping.runAll operations).snapshots (listKeeping.runAll operations).snapshots

/-- **Looking up.** After any operations, whatever their outcomes, the names, the members and the
index of every catalog and every snapshot are in step: a name is found at the last position that has
it, and refused if there is none. -/
theorem looksUpAlike (operations : List StoreOperation) : LooksUpAlike operations := by
  obtain ⟨hcatalogs, hsnapshots⟩ := agrees_registerKeeping.runAll operations
  constructor
  · refine hcatalogs.imp ?_
    rintro registered _ ⟨hstep, rfl⟩
    exact ⟨rfl, RegistersByKind.InStep.looksUp hstep⟩
  · refine hsnapshots.imp ?_
    rintro registered _ ⟨hstep, rfl⟩
    exact ⟨rfl, RegistersByKind.InStep.looksUp hstep⟩

/-- A name that is given twice stands for the later set. -/
example :
    let inlet := (SetsByKind.none.add .vertex "inlet" [1, 2]).2
    let outlet := (inlet.add .vertex "outlet" [3]).2
    let again := outlet.add .vertex "inlet" [4]
    again.1 = 2 ∧ again.2.positionOf .vertex "inlet" = .ok 2 ∧
      again.2.setAt .vertex 0 = .ok ⟨"inlet", [1, 2]⟩ ∧
      again.2.positionOf .vertex "wall" = refuse (.unknownSetName .vertex "wall") :=
  ⟨rfl, rfl, rfl, rfl⟩

end MeshIncidence
