/-
# Operations on registers

The operations on the sets of a mesh, carried out on registers. Loading a set file, projecting a
snapshot and taking one begin new registers and add the sets to them one after the other. Binding
the sets and letting them follow a refinement go through the members: what they make of the sets is
written back to the lists of members, and names and index are not touched.

Each of them mirrors the operation on lists of named sets. The lists that a register shows are then
always those that the operations on lists make.
-/

import MeshIncidence.Proofs.Catalog.KeptNames
import MeshIncidence.Proofs.Catalog.Registers
import MeshIncidence.SetCatalog.Reader

namespace MeshIncidence

section Collecting

variable {m : Type → Type} [Monad m] {α β ι : Type}

/-- A value for each kind, one after the other. -/
def PerKind.makeM (make : Kind → m α) : m (PerKind α) := do
  let vertex ← make .vertex
  let edge ← make .edge
  let face ← make .face
  let element ← make .element
  return ⟨vertex, edge, face, element⟩

/-- Sets that are made one after the other are added to a new register. -/
def Register.collect (make : ι → m (NamedSet α)) (items : List ι) : m (Register α) :=
  items.foldlM (fun register item => return register.pushSet (← make item)) .empty

variable [LawfulMonad m]

theorem PerKind.makeM_map (change : α → β) (make : Kind → m α) :
    PerKind.makeM (fun kind => change <$> make kind) =
      PerKind.map change <$> PerKind.makeM make := by
  simp [PerKind.makeM, PerKind.map]

theorem Register.collect_eq (make : ι → m (NamedSet α)) (items : List ι) :
    Register.collect make items = Register.ofSets <$> items.mapM make := by
  suffices hfold : ∀ register : Register α,
      items.foldlM (fun register item => return register.pushSet (← make item)) register =
        (fun sets => sets.foldl Register.pushSet register) <$> items.mapM make from hfold .empty
  induction items with
  | nil => simp
  | cons item items ih =>
      intro register
      rw [List.foldlM_cons, List.mapM_cons, bind_assoc, map_bind]
      refine bind_congr fun set => ?_
      rw [pure_bind, ih, map_bind, map_eq_pure_bind]
      exact bind_congr fun sets => by rw [map_pure, List.foldl_cons]

end Collecting

namespace Scan

theorem times_eq_mapM {α : Type} (scan : Scan α) (count : Nat) :
    times scan count = (List.range count).mapM fun _ => scan := by
  induction count with
  | zero => rfl
  | succ count ih =>
      rw [times, ih, List.range_succ_eq_map, List.mapM_cons, List.mapM_map]
      rfl

variable {M : Type} [Connectivity M]

/-- Read the block of a kind into a register. -/
def registerBlock (mesh : M) (kind : Kind) : Scan (Register Nat) := do
  remarks
  keyword kind.header
  let count ← word .setCount
  if count = 0 then return .empty
  else
    let member ← ofResult (member mesh kind)
    Register.collect (fun _ => namedSet kind member) (List.range count)

/-- Read the register of a kind if a file of the given dimension has a block for it. -/
def registerOf (mesh : M) (dimension : Nat) (kind : Kind) : Scan (Register Nat) :=
  if kind.hasBlock dimension then registerBlock mesh kind else return .empty

/-- Read all that follows the title of a set file into registers. -/
def registers (mesh : M) : Scan (RegistersByKind Nat) := do
  remarks
  keyword dimensionKeyword
  let dimension ← word .dimension
  PerKind.makeM (registerOf mesh dimension)

theorem registerBlock_eq (mesh : M) (kind : Kind) :
    registerBlock mesh kind = Register.ofSets <$> block mesh kind := by
  simp only [registerBlock, block, map_bind]
  refine bind_congr fun _ => bind_congr fun _ => bind_congr fun count => ?_
  split_ifs
  · rw [map_pure]
    rfl
  · rw [map_bind]
    exact bind_congr fun member => by rw [times_eq_mapM, Register.collect_eq]

theorem registers_eq (mesh : M) :
    registers mesh = PerKind.map Register.ofSets <$> catalogSets mesh := by
  have hregister (dimension : Nat) :
      registerOf mesh dimension = fun kind => Register.ofSets <$> blockOf mesh dimension kind := by
    funext kind
    rw [registerOf, blockOf, registerBlock_eq]
    split_ifs
    · rfl
    · rw [map_pure]
      rfl
  simp only [registers, hregister, PerKind.makeM_map]
  simp only [catalogSets, PerKind.makeM, map_bind]

end Scan

/-- A catalog with registers in place of lists of named sets. -/
structure RegisteredCatalog where
  dimension : Nat
  vertexCount : Nat
  edgeCount : Nat
  elementCount : Nat
  registers : RegistersByKind Nat
  tables : DerivedTables

namespace RegisteredCatalog

/-- The catalog of a mesh without sets. -/
def ofMesh {M : Type} [Connectivity M] (mesh : M) : RegisteredCatalog where
  dimension := Connectivity.dimension mesh
  vertexCount := Connectivity.vertexCount mesh
  edgeCount := Connectivity.edgeCount mesh
  elementCount := Connectivity.elementCount mesh
  registers := .none
  tables := .none

variable (catalog : RegisteredCatalog)

/-- The catalog that is shown. -/
def toCatalog : SetCatalog where
  dimension := catalog.dimension
  vertexCount := catalog.vertexCount
  edgeCount := catalog.edgeCount
  elementCount := catalog.elementCount
  sets := catalog.registers.toSets
  tables := catalog.tables

/-- The registers are in step. -/
def InStep : Prop := catalog.registers.InStep

/-- Remove all sets. -/
def clear : RegisteredCatalog := { catalog with registers := .none }

end RegisteredCatalog

/-- A snapshot with registers in place of lists of named sets. -/
structure RegisteredSnapshot where
  registers : RegistersByKind (Option Nat)

namespace RegisteredSnapshot

/-- The snapshot that is shown. -/
def toSnapshot (snapshot : RegisteredSnapshot) : Snapshot := ⟨snapshot.registers.toSets⟩

/-- The registers are in step. -/
def InStep (snapshot : RegisteredSnapshot) : Prop := snapshot.registers.InStep

/-- The snapshot without sets. -/
def empty : RegisteredSnapshot := ⟨.none⟩

/-- Take the snapshot of a catalog. -/
def capture (catalog : RegisteredCatalog) (lineage : Lineage) : Result RegisteredSnapshot := do
  let registers ← PerKind.makeM fun kind =>
    Register.collect (fun set => do
      return ⟨set.name, ← catalog.toCatalog.setStrip lineage kind set.members⟩)
      (catalog.registers.get kind).sets
  return ⟨registers⟩

/-- The sets of a kind with every member replaced by its descendants, position by position. -/
def projectedRegister (snapshot : RegisteredSnapshot) (lineage : Lineage) (kind : Kind) :
    Result (Register Nat) :=
  let register := snapshot.registers.get kind
  Register.collect (fun position => do
    let strip ← register.membersAt position
    let descendants ← Snapshot.stripDescendants lineage kind position strip
    return ⟨← register.nameAt position, descendants⟩) (List.range register.count)

/-- All sets with every member replaced by its descendants. -/
def projected (snapshot : RegisteredSnapshot) (lineage : Lineage) : Result (RegistersByKind Nat) :=
  PerKind.makeM (snapshot.projectedRegister lineage)

theorem capture_eq (catalog : RegisteredCatalog) (lineage : Lineage) :
    capture catalog lineage = (fun captured : Snapshot => ⟨captured.sets.map Register.ofSets⟩) <$>
      catalog.toCatalog.snapshot lineage := by
  have hkind (kind : Kind) :
      Register.collect (fun set => do
        return ⟨set.name, ← catalog.toCatalog.setStrip lineage kind set.members⟩)
        (catalog.registers.get kind).sets =
          Register.ofSets <$> catalog.toCatalog.kindStrips lineage kind := by
    rw [Register.collect_eq, SetCatalog.kindStrips, RegisteredCatalog.toCatalog,
      RegistersByKind.toSets, PerKind.get_map]
  simp only [capture, hkind, PerKind.makeM_map]
  simp only [SetCatalog.snapshot, PerKind.makeM, map_bind, bind_assoc, pure_bind, map_pure]

theorem projected_eq {snapshot : RegisteredSnapshot} (hstep : snapshot.InStep) (lineage : Lineage) :
    snapshot.projected lineage =
      PerKind.map Register.ofSets <$> snapshot.toSnapshot.projected lineage := by
  have hkind : snapshot.projectedRegister lineage = fun kind =>
      Register.ofSets <$> snapshot.toSnapshot.projectedSets lineage kind := by
    funext kind
    rw [projectedRegister, Register.collect_eq, ← (hstep kind).length_sets,
      Snapshot.projectedSets, toSnapshot, RegistersByKind.toSets, PerKind.get_map]
    refine congrArg (Register.ofSets <$> ·) ?_
    refine Result.mapM_range_eq_mapM_zipIdx fun position set hset => ?_
    obtain ⟨hname, hmembers⟩ := (hstep kind).getElem?_sets_eq_some_iff.mp hset
    rw [hmembers, hname]
    rfl
  rw [projected, hkind, PerKind.makeM_map]
  rfl

end RegisteredSnapshot

/-- Lists of members written back to the registers, the names left alone. -/
def RegistersByKind.withMembersOf {α : Type} (registers : RegistersByKind α)
    (sets : SetsByKind α) : RegistersByKind α :=
  let written (kind : Kind) :=
    (registers.get kind).withMembers ((sets.get kind).map NamedSet.members)
  ⟨written .vertex, written .edge, written .face, written .element⟩

namespace RegistersByKind

variable {α : Type} {registers : RegistersByKind α} {sets : SetsByKind α}

theorem map_count_ofSets (sets : SetsByKind α) :
    PerKind.map Register.count (PerKind.map Register.ofSets sets) = SetsByKind.counts sets := by
  refine PerKind.ext_get fun kind => ?_
  have hcount := (inStep_ofSets sets).count_eq kind
  rw [toSets_ofSets] at hcount
  rw [PerKind.get_map, hcount]
  cases kind <;> rfl

theorem get_withMembersOf (kind : Kind) : (registers.withMembersOf sets).get kind =
    (registers.get kind).withMembers ((sets.get kind).map NamedSet.members) := by
  cases kind <;> rfl

/-- Sets that still have their names are shown after they have been written back. -/
theorem InStep.withMembersOf (hstep : registers.InStep)
    (hnames : sets.HasNames fun kind => (registers.get kind).names) :
    InStep (registers.withMembersOf sets) ∧ toSets (registers.withMembersOf sets) = sets := by
  constructor
  · intro kind
    rw [get_withMembersOf]
    refine (hstep kind).withMembers ?_
    have hlength := congrArg List.length (hnames kind)
    rw [List.length_map, (hstep kind).length_names] at hlength
    rw [List.length_map, hlength]
  · refine PerKind.ext_get fun kind => ?_
    rw [toSets, PerKind.get_map, get_withMembersOf, Register.sets_withMembers (hnames kind)]

end RegistersByKind

/-- A catalog with registers and the mesh it is for. -/
structure Registered (M : Type) where
  catalog : RegisteredCatalog
  mesh : M

namespace Registered

variable {M α : Type}

/-- The catalog that is shown, and the mesh. -/
def toBound (registered : Registered M) : Bound M :=
  ⟨registered.catalog.toCatalog, registered.mesh⟩

/-- The registers are in step. -/
def InStep (registered : Registered M) : Prop := registered.catalog.InStep

/-- The members, the tables and the counts of a catalog, the names left alone. -/
def withMembersOf (registered : Registered M) (bound : Bound M) : Registered M where
  catalog := {
    dimension := bound.catalog.dimension
    vertexCount := bound.catalog.vertexCount
    edgeCount := bound.catalog.edgeCount
    elementCount := bound.catalog.elementCount
    registers := registered.catalog.registers.withMembersOf bound.catalog.sets
    tables := bound.catalog.tables }
  mesh := bound.mesh

/-- Do an action on what is shown, and write the members back. -/
def throughMembers (action : Action (Bound M) α) : Action (Registered M) α :=
  .onPart toBound withMembersOf action

/-- From registers in step, the action goes the same way as the one on what they show. -/
abbrev Mirrors (before : Registered M) (action : Action (Registered M) α)
    (model : Action (Bound M) α) : Prop :=
  Action.Mirrors toBound InStep before action model

variable {before : Registered M}

/-- An action that keeps the names can be done through the members. -/
theorem mirrors_throughMembers (hstep : before.InStep) {action : Action (Bound M) α}
    (hkeeps : Bound.KeepsNames action) : before.Mirrors (throughMembers action) action := by
  -- The names that are shown are those of the registers, and the action leaves them as they are.
  have hnames : Bound.HasNames (fun kind => (before.catalog.registers.get kind).names)
      before.toBound := fun kind => by
    rw [toBound, RegisteredCatalog.toCatalog, RegistersByKind.toSets, PerKind.get_map,
      (hstep kind).map_name_sets]
  intro notes
  obtain ⟨outcome, after, written, hafter, hrun, -⟩ := hkeeps _ _ hnames notes
  obtain ⟨hkept, hsets⟩ := RegistersByKind.InStep.withMembersOf hstep hafter
  have hshown : (before.withMembersOf after).toBound = after := by
    rw [toBound, withMembersOf, RegisteredCatalog.toCatalog, hsets]
  exact ⟨outcome, before.withMembersOf after, written, hkept, Action.run_onPart hrun,
    hshown.symm ▸ hrun⟩

/-- New registers are in step and show the sets that were added to them. -/
theorem mirrors_setSets (sets : SetsByKind Nat) (catalog : RegisteredCatalog) (mesh : M) :
    before.Mirrors
      (Action.setState ⟨{ catalog with registers := PerKind.map Register.ofSets sets }, mesh⟩)
      (Action.setState ⟨{ catalog.toCatalog with sets := sets }, mesh⟩) := by
  have hshown : (⟨{ catalog.toCatalog with sets := sets }, mesh⟩ : Bound M) =
      toBound ⟨{ catalog with registers := PerKind.map Register.ofSets sets }, mesh⟩ := by
    simp [toBound, RegisteredCatalog.toCatalog]
  rw [hshown]
  exact .setState (RegistersByKind.inStep_ofSets sets)

variable [Connectivity M]

/-- Replace the sets by those of a set file, and bind them. -/
def load (bytes : ByteArray) : Action (Registered M) Unit := do
  let registered ← Action.state
  let text ← Action.ofResult (decodeText bytes)
  let (title, rest) := titleLine text
  if String.ofList title ≠ setFileTitle then
    Action.note (.notSetFile (String.ofList title))
  else
    let (registers, _) ← Action.ofResult ((Scan.registers registered.mesh).run rest)
    Action.setState { registered with
      catalog := { registered.catalog with registers := registers } }
    Action.note (.loaded (registers.map Register.count))
    throughMembers Bound.rebind

/-- Give the mesh a new catalog with the descendants of a snapshot's members, and bind it. -/
def project (lineage : Lineage) (snapshot : RegisteredSnapshot) : Action (Registered M) Unit := do
  let registered ← Action.state
  let registers ← Action.ofResult (snapshot.projected lineage)
  Action.setState { registered with
    catalog := { RegisteredCatalog.ofMesh registered.mesh with registers := registers } }
  throughMembers Bound.rebind

theorem mirrors_load (hstep : before.InStep) (bytes : ByteArray) :
    before.Mirrors (load bytes) (Bound.load bytes) := by
  refine .state_bind (.ofResult_bind hstep _ fun text _ => ?_)
  dsimp only
  split_ifs
  · exact .note hstep _
  · rw [Scan.registers_eq, StateT.run_map]
    refine .ofResult_map_bind hstep _ _ fun (sets, _) => ?_
    refine (mirrors_setSets sets before.catalog before.mesh).bind fun _ after hafter => ?_
    rw [RegistersByKind.map_count_ofSets]
    refine (Action.Mirrors.note hafter _).bind fun _ last hlast => ?_
    exact mirrors_throughMembers hlast Bound.keepsNames_rebind

theorem mirrors_project (hstep : before.InStep) (lineage : Lineage)
    {snapshot : RegisteredSnapshot} (hsnapshot : snapshot.InStep) :
    before.Mirrors (project lineage snapshot) (Bound.project lineage snapshot.toSnapshot) := by
  refine .state_bind ?_
  rw [RegisteredSnapshot.projected_eq hsnapshot]
  refine .ofResult_map_bind hstep _ _ fun sets => ?_
  refine (mirrors_setSets sets (.ofMesh before.mesh) before.mesh).bind fun _ after hafter => ?_
  exact mirrors_throughMembers hafter Bound.keepsNames_rebind

end Registered

end MeshIncidence
