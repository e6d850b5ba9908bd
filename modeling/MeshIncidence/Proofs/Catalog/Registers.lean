/-
# Sets with an index of their names

A register keeps the sets of one kind in three parts: the names in order, the lists of members in
order, and an index that tells for each name where it was given last. Only adding a set changes all
three. Other operations change lists of members, or begin a new register and add sets to it.

A register is in step if it has as many lists as names and if the index finds the last position of
every name. It then shows a list of named sets, and looking a name up finds what
`NamedSet.lastPosition?` finds in this list.
-/

import Std.Data.HashMap.Lemmas
import MeshIncidence.Proofs.Snapshot.Capture

namespace MeshIncidence

/-- A name stands at a position, and at no later one. -/
def IsLastAt (names : List String) (name : String) (position : Nat) : Prop :=
  names[position]? = some name ∧ ∀ later, names[later]? = some name → later ≤ position

section IsLastAt

variable {names : List String} {name added : String} {position : Nat}

/-- The name added last stands at the end, and elsewhere nothing changes. -/
theorem isLastAt_concat_iff : IsLastAt (names ++ [added]) name position ↔
    if added = name then position = names.length else IsLastAt names name position := by
  split_ifs with hname
  · subst hname
    have hend : (names ++ [added])[names.length]? = some added := List.getElem?_concat_length
    constructor
    · rintro ⟨hat, hlast⟩
      have hlt := (List.getElem?_eq_some_iff.mp hat).1
      rw [List.length_append, List.length_singleton] at hlt
      exact Nat.le_antisymm (Nat.le_of_lt_succ hlt) (hlast _ hend)
    · rintro rfl
      refine ⟨hend, fun later hlater => ?_⟩
      have hlt := (List.getElem?_eq_some_iff.mp hlater).1
      rw [List.length_append, List.length_singleton] at hlt
      exact Nat.le_of_lt_succ hlt
  · have hsame (place : Nat) :
        (names ++ [added])[place]? = some name ↔ names[place]? = some name := by
      rw [List.getElem?_append]
      split_ifs with hlt
      · rfl
      · rw [List.getElem?_eq_none (Nat.le_of_not_lt hlt)]
        simp [List.getElem?_singleton, hname]
    simp only [IsLastAt, hsame]

theorem exists_isLastAt_iff : (∃ position, IsLastAt names name position) ↔ name ∈ names := by
  induction names using List.reverseRecOn with
  | nil => simp [IsLastAt]
  | append_singleton names added ih =>
      simp only [isLastAt_concat_iff, List.mem_append, List.mem_singleton]
      split_ifs with hname
      · exact ⟨fun _ => .inr hname.symm, fun _ => ⟨_, rfl⟩⟩
      · rw [ih]
        exact ⟨.inl, fun hmember => hmember.resolve_right (Ne.symm hname)⟩

end IsLastAt

namespace NamedSet

variable {α : Type} {sets : List (NamedSet α)} {name : String}

/-- A set with another name does not change what a name stands for. -/
theorem lastPosition?_concat_of_ne {added : String} (hne : added ≠ name) (members : List α)
    (sets : List (NamedSet α)) :
    lastPosition? name (sets ++ [⟨added, members⟩]) = lastPosition? name sets := by
  induction sets with
  | nil => simp [lastPosition?, hne]
  | cons set sets ih => simp [lastPosition?, ih]

theorem lastPosition?_eq_some_iff {position : Nat} :
    lastPosition? name sets = some position ↔ IsLastAt (sets.map NamedSet.name) name position := by
  -- The search begins with the first set, but sets are added at the end.
  induction sets using List.reverseRecOn with
  | nil => simp [lastPosition?, IsLastAt]
  | append_singleton sets set ih =>
      rw [List.map_append, List.map_singleton, isLastAt_concat_iff, List.length_map]
      split_ifs with hname
      · subst hname
        rw [lastPosition?_concat, Option.some.injEq]
        exact eq_comm
      · rw [lastPosition?_concat_of_ne hname, ih]

theorem lastPosition?_eq_none_iff :
    lastPosition? name sets = none ↔ name ∉ sets.map NamedSet.name := by
  rw [← exists_isLastAt_iff, Option.eq_none_iff_forall_ne_some]
  simp only [ne_eq, lastPosition?_eq_some_iff, not_exists]

end NamedSet

/-- The sets of a kind: their names, their members, and where each name was given last. -/
structure Register (α : Type) where
  names : List String
  members : List (List α)
  places : Std.HashMap String Nat

namespace Register

variable {α : Type}

/-- No sets. -/
def empty : Register α := ⟨[], [], ∅⟩

variable (register : Register α)

/-- Number of sets. -/
def count : Nat := register.members.length

/-- The name of the set at a position. -/
def nameAt (position : Nat) : Result String :=
  match register.names[position]? with
  | some name => .ok name
  | none => stop .outOfRange

/-- The members of the set at a position. -/
def membersAt (position : Nat) : Result (List α) :=
  match register.members[position]? with
  | some members => .ok members
  | none => stop .outOfRange

/-- Where a name was given last. -/
def place? (name : String) : Option Nat := register.places[name]?

/-- Add a set at the end; the answer is its position. -/
def push (name : String) (members : List α) : Nat × Register α :=
  (register.count, {
    names := register.names ++ [name]
    members := register.members ++ [members]
    places := register.places.insert name register.count })

/-- Add a set at the end. -/
def pushSet (set : NamedSet α) : Register α := (register.push set.name set.members).2

/-- Other members under the same names. -/
def withMembers (members : List (List α)) : Register α := { register with members := members }

/-- Change the members of the set at a position. -/
def modifyAt (position : Nat) (change : List α → List α) : Result (Register α) := do
  let members ← register.membersAt position
  return register.withMembers (register.members.set position (change members))

/-- The sets with name and members, in order. -/
def sets : List (NamedSet α) :=
  (register.names.zip register.members).map fun (name, members) => ⟨name, members⟩

/-- A new register to which sets are added one after the other. -/
def ofSets (sets : List (NamedSet α)) : Register α := sets.foldl pushSet empty

/-- There are as many names as lists of members, and names are found where they were given last. -/
structure InStep (register : Register α) : Prop where
  length_names : register.names.length = register.members.length
  place?_eq_some_iff : ∀ name position,
    register.place? name = some position ↔ IsLastAt register.names name position

theorem inStep_empty : (empty : Register α).InStep where
  length_names := rfl
  place?_eq_some_iff name position := by simp [place?, empty, IsLastAt]

theorem place?_pushSet (register : Register α) (set : NamedSet α) (name : String) :
    (register.pushSet set).place? name =
      if set.name = name then some register.count else register.place? name := by
  rw [place?, pushSet, push, Std.HashMap.getElem?_insert]
  simp only [beq_iff_eq]
  rfl

theorem nameAt_eq_ok_iff {register : Register α} {position : Nat} {name : String} :
    register.nameAt position = .ok name ↔ register.names[position]? = some name := by
  rw [nameAt]
  cases register.names[position]? <;> simp [stop]

theorem membersAt_eq_ok_iff {register : Register α} {position : Nat} {members : List α} :
    register.membersAt position = .ok members ↔ register.members[position]? = some members := by
  rw [membersAt]
  cases register.members[position]? <;> simp [stop]

namespace InStep

variable {register : Register α} (hstep : register.InStep)
include hstep

theorem map_name_sets : register.sets.map NamedSet.name = register.names := by
  rw [sets, List.map_map]
  exact List.map_fst_zip (Nat.le_of_eq hstep.length_names)

theorem map_members_sets : register.sets.map NamedSet.members = register.members := by
  rw [sets, List.map_map]
  exact List.map_snd_zip (Nat.le_of_eq hstep.length_names.symm)

theorem length_sets : register.sets.length = register.count := by
  rw [← List.length_map (f := NamedSet.members), hstep.map_members_sets, count]

/-- The set at a position is the name and the members there. -/
theorem getElem?_sets_eq_some_iff {position : Nat} {set : NamedSet α} :
    register.sets[position]? = some set ↔
      register.nameAt position = .ok set.name ∧ register.membersAt position = .ok set.members := by
  rw [nameAt_eq_ok_iff, membersAt_eq_ok_iff, ← hstep.map_name_sets, ← hstep.map_members_sets,
    List.getElem?_map, List.getElem?_map]
  obtain ⟨name, members⟩ := set
  cases register.sets[position]? with
  | none => simp
  | some other =>
      obtain ⟨otherName, otherMembers⟩ := other
      simp

/-- Below the number of sets there is a name and a list of members everywhere. -/
theorem exists_set {position : Nat} (hposition : position < register.count) :
    ∃ set, register.sets[position]? = some set ∧ register.nameAt position = .ok set.name ∧
      register.membersAt position = .ok set.members := by
  rw [← hstep.length_sets] at hposition
  have hset := List.getElem?_eq_getElem hposition
  exact ⟨_, hset, hstep.getElem?_sets_eq_some_iff.mp hset⟩

/-- To stand at a position for the last time is said by looking at positions only. -/
theorem isLastAt_iff {name : String} {position : Nat} : IsLastAt register.names name position ↔
    position < register.count ∧ register.nameAt position = .ok name ∧
      ∀ later < register.count, register.nameAt later = .ok name → later ≤ position := by
  have hbound {place : Nat} (hat : register.names[place]? = some name) : place < register.count :=
    Nat.lt_of_lt_of_eq (List.getElem?_eq_some_iff.mp hat).1 hstep.length_names
  simp only [nameAt_eq_ok_iff]
  exact ⟨fun ⟨hat, hlast⟩ => ⟨hbound hat, hat, fun later _ => hlast later⟩,
    fun ⟨_, hat, hlast⟩ => ⟨hat, fun later hlater => hlast later (hbound hlater) hlater⟩⟩

/-- The index finds what a search through the sets would find. -/
theorem place?_eq (name : String) :
    register.place? name = NamedSet.lastPosition? name register.sets := by
  refine Option.ext fun position => ?_
  rw [hstep.place?_eq_some_iff, NamedSet.lastPosition?_eq_some_iff, hstep.map_name_sets]

/-- The index has no place for a name exactly if no position has it. -/
theorem place?_eq_none_iff {name : String} : register.place? name = none ↔
    ∀ position < register.count, register.nameAt position ≠ .ok name := by
  rw [hstep.place?_eq, NamedSet.lastPosition?_eq_none_iff, hstep.map_name_sets,
    List.mem_iff_getElem?, not_exists]
  simp only [ne_eq, nameAt_eq_ok_iff]
  refine ⟨fun hnone position _ => hnone position, fun hnone position hat => hnone position ?_ hat⟩
  exact Nat.lt_of_lt_of_eq (List.getElem?_eq_some_iff.mp hat).1 hstep.length_names

/-- A set that is added comes after all others and takes over its name. -/
theorem pushSet (set : NamedSet α) : (register.pushSet set).InStep where
  length_names := by simp [Register.pushSet, push, hstep.length_names]
  place?_eq_some_iff name position := by
    have hcount : register.count = register.names.length := hstep.length_names.symm
    have hnames : (register.pushSet set).names = register.names ++ [set.name] := rfl
    rw [place?_pushSet, hnames, isLastAt_concat_iff, hcount]
    split_ifs
    · rw [Option.some.injEq]
      exact eq_comm
    · exact hstep.place?_eq_some_iff name position

theorem sets_pushSet (set : NamedSet α) :
    (register.pushSet set).sets = register.sets ++ [set] := by
  simp [Register.pushSet, push, sets, List.zip_append hstep.length_names]

/-- The index does not depend on the members. -/
theorem withMembers {members : List (List α)} (hlength : members.length = register.members.length) :
    (register.withMembers members).InStep where
  length_names := hstep.length_names.trans hlength.symm
  place?_eq_some_iff := hstep.place?_eq_some_iff

end InStep

/-- Sets with the names that there are can be written back by their members. -/
theorem sets_withMembers {register : Register α} {sets : List (NamedSet α)}
    (hnames : sets.map NamedSet.name = register.names) :
    (register.withMembers (sets.map NamedSet.members)).sets = sets := by
  rw [Register.sets, Register.withMembers, ← hnames, List.zip_map', List.map_map]
  exact List.map_id sets

theorem inStep_foldl_pushSet {register : Register α} (hstep : register.InStep)
    (sets : List (NamedSet α)) : (sets.foldl pushSet register).InStep ∧
      (sets.foldl pushSet register).sets = register.sets ++ sets := by
  induction sets generalizing register with
  | nil => exact ⟨hstep, (List.append_nil _).symm⟩
  | cons set sets ih =>
      obtain ⟨hkept, hsets⟩ := ih (hstep.pushSet set)
      refine ⟨hkept, ?_⟩
      rw [List.foldl_cons, hsets, hstep.sets_pushSet, List.append_assoc, List.singleton_append]

theorem inStep_ofSets (sets : List (NamedSet α)) : (ofSets sets).InStep :=
  (inStep_foldl_pushSet inStep_empty sets).1

@[simp]
theorem sets_ofSets (sets : List (NamedSet α)) : (ofSets sets).sets = sets :=
  (inStep_foldl_pushSet inStep_empty sets).2

/-- Changing the members at a position changes the set there, or there is no set. -/
theorem InStep.modifyAt_cases {register : Register α} (hstep : register.InStep) (position : Nat)
    (change : List α → List α) :
    (register.sets[position]? = none ∧ register.modifyAt position change = stop .outOfRange) ∨
      ∃ set after, register.sets[position]? = some set ∧
        register.modifyAt position change = .ok after ∧ after.InStep ∧
        after.sets = register.sets.set position { set with members := change set.members } := by
  obtain hlt | hover := Nat.lt_or_ge position register.count
  · obtain ⟨set, hset, hname, hmembers⟩ := hstep.exists_set hlt
    have hnames : (register.sets.set position { set with members := change set.members }).map
        NamedSet.name = register.names := by
      obtain ⟨hat, hsame⟩ := List.getElem?_eq_some_iff.mp (nameAt_eq_ok_iff.mp hname)
      rw [List.map_set, hstep.map_name_sets, ← hsame, List.set_getElem_self]
    have hafter : (register.sets.set position { set with members := change set.members }).map
        NamedSet.members = register.members.set position (change set.members) := by
      rw [List.map_set, hstep.map_members_sets]
    refine .inr ⟨set, register.withMembers (register.members.set position (change set.members)),
      hset, ?_, hstep.withMembers List.length_set, ?_⟩
    · rw [modifyAt, hmembers]
      rfl
    · rw [← hafter, sets_withMembers hnames]
  · refine .inl ⟨List.getElem?_eq_none (hstep.length_sets ▸ hover), ?_⟩
    rw [modifyAt, membersAt, List.getElem?_eq_none hover]
    rfl

end Register

/-- A value for each kind that comes from the one there. -/
def PerKind.map {α β : Type} (change : α → β) (values : PerKind α) : PerKind β :=
  ⟨change values.vertex, change values.edge, change values.face, change values.element⟩

namespace PerKind

variable {α β : Type} (change : α → β) (values : PerKind α)

@[simp]
theorem get_map (kind : Kind) : (values.map change).get kind = change (values.get kind) := by
  cases kind <;> rfl

theorem map_set (kind : Kind) (value : α) :
    (values.set kind value).map change = (values.map change).set kind (change value) := by
  cases kind <;> rfl

end PerKind

/-- Registers for the kinds. -/
abbrev RegistersByKind (α : Type) := PerKind (Register α)

namespace RegistersByKind

variable {α : Type} (registers : RegistersByKind α)

/-- No sets of any kind. -/
def none : RegistersByKind α := .constant .empty

/-- The sets that the registers show. -/
def toSets : SetsByKind α := registers.map Register.sets

/-- Add a set at the end; the answer is its position. -/
def add (kind : Kind) (name : String) (members : List α) : Nat × RegistersByKind α :=
  let (position, register) := (registers.get kind).push name members
  (position, registers.set kind register)

/-- Change the members of the set at a position. -/
def modifyAt (kind : Kind) (position : Nat) (change : List α → List α) :
    Result (RegistersByKind α) := do
  return registers.set kind (← (registers.get kind).modifyAt position change)

/-- The position a name stands for. -/
def positionOf (kind : Kind) (name : String) : Result Nat :=
  match (registers.get kind).place? name with
  | some position => .ok position
  | Option.none => refuse (.unknownSetName kind name)

/-- The registers of all kinds are in step. -/
def InStep : Prop := ∀ kind, (registers.get kind).InStep

variable {registers}

theorem inStep_none : (none : RegistersByKind α).InStep := fun kind => by
  rw [none, PerKind.get_constant]
  exact Register.inStep_empty

theorem inStep_ofSets (sets : SetsByKind α) :
    InStep (PerKind.map Register.ofSets sets : RegistersByKind α) := fun kind => by
  rw [PerKind.get_map]
  exact Register.inStep_ofSets _

@[simp]
theorem toSets_ofSets (sets : SetsByKind α) :
    toSets (PerKind.map Register.ofSets sets : RegistersByKind α) = sets := by
  simp [toSets, PerKind.map]

theorem InStep.set (hstep : registers.InStep) {kind : Kind} {register : Register α}
    (hregister : register.InStep) : InStep (registers.set kind register) := by
  intro other
  by_cases hother : other = kind
  · subst hother
    rw [PerKind.get_set_self]
    exact hregister
  · rw [PerKind.get_set_of_ne _ _ hother]
    exact hstep other

namespace InStep

variable (hstep : registers.InStep)
include hstep

theorem count_eq (kind : Kind) : (registers.get kind).count = registers.toSets.count kind := by
  rw [SetsByKind.count, toSets, PerKind.get_map, (hstep kind).length_sets]

theorem positionOf_eq (kind : Kind) (name : String) :
    registers.positionOf kind name = registers.toSets.positionOf kind name := by
  have hplace : NamedSet.lastPosition? name (registers.toSets.get kind) =
      (registers.get kind).place? name := by
    rw [toSets, PerKind.get_map, (hstep kind).place?_eq]
  cases hfound : (registers.get kind).place? name with
  | none => rw [positionOf, SetsByKind.positionOf, hplace, hfound]
  | some position => rw [positionOf, SetsByKind.positionOf, hplace, hfound]

/-- Adding to the registers adds to the sets that they show. -/
theorem add (kind : Kind) (name : String) (members : List α) :
    InStep (registers.add kind name members).2 ∧
      (registers.add kind name members).1 = (registers.toSets.add kind name members).1 ∧
      toSets (registers.add kind name members).2 = (registers.toSets.add kind name members).2 := by
  refine ⟨hstep.set ((hstep kind).pushSet ⟨name, members⟩), hstep.count_eq kind, ?_⟩
  rw [toSets, RegistersByKind.add, PerKind.map_set]
  refine congrArg (PerKind.set _ kind) ?_
  rw [toSets, PerKind.get_map]
  exact (hstep kind).sets_pushSet ⟨name, members⟩

/-- Changing members succeeds for the registers if it does for the sets that they show. -/
theorem modifyAt_cases (kind : Kind) (position : Nat) (change : List α → List α) :
    (registers.modifyAt kind position change = stop .outOfRange ∧
      registers.toSets.modifyAt kind position change = stop .outOfRange) ∨
      ∃ after, InStep after ∧ registers.modifyAt kind position change = .ok after ∧
        registers.toSets.modifyAt kind position change = .ok after.toSets := by
  rw [RegistersByKind.modifyAt, SetsByKind.modifyAt, SetsByKind.setAt, toSets, PerKind.get_map]
  obtain ⟨hnone, hstop⟩ | ⟨set, after, hset, hafter, hkept, hsets⟩ :=
    (hstep kind).modifyAt_cases position change
  · rw [hnone, hstop]
    exact .inl ⟨rfl, rfl⟩
  · rw [hset, hafter]
    refine .inr ⟨registers.set kind after, hstep.set hkept, rfl, ?_⟩
    rw [toSets, PerKind.map_set, hsets]
    rfl

end InStep

/-- What adding a set leaves and what it gives. -/
structure Adds (registers : RegistersByKind α) (kind : Kind) (name : String)
    (members : List α) (position : Nat) (after : RegistersByKind α) : Prop where
  position_eq : position = (registers.get kind).count
  count_eq : (after.get kind).count = (registers.get kind).count + 1
  nameAt_eq : (after.get kind).nameAt position = .ok name
  membersAt_eq : (after.get kind).membersAt position = .ok members
  /-- Earlier sets keep their names and members. -/
  nameAt_earlier : ∀ earlier < position,
    (after.get kind).nameAt earlier = (registers.get kind).nameAt earlier
  membersAt_earlier : ∀ earlier < position,
    (after.get kind).membersAt earlier = (registers.get kind).membersAt earlier
  /-- The name stands for the new set, and the other names for what they stood for. -/
  positionOf_eq : ∀ other, after.positionOf kind other =
    if name = other then .ok position else registers.positionOf kind other
  get_of_ne : ∀ other ≠ kind, after.get other = registers.get other

theorem InStep.adds (hstep : registers.InStep) (kind : Kind) (name : String) (members : List α) :
    Adds registers kind name members (registers.add kind name members).1
      (registers.add kind name members).2 := by
  have hcount : (registers.get kind).count = (registers.get kind).names.length :=
    (hstep kind).length_names.symm
  have hget : (registers.add kind name members).2.get kind =
      (registers.get kind).pushSet ⟨name, members⟩ := PerKind.get_set_self _ _ _
  refine ⟨rfl, ?_, ?_, ?_, fun earlier hearlier => ?_, fun earlier hearlier => ?_, fun other => ?_,
    fun other hother => PerKind.get_set_of_ne _ _ hother⟩
  · rw [hget]
    exact List.length_append
  · have hlast : ((registers.get kind).names ++ [name])[(registers.get kind).names.length]? =
        some name := List.getElem?_concat_length
    rw [hget, Register.nameAt_eq_ok_iff]
    rwa [← hcount] at hlast
  · rw [hget, Register.membersAt_eq_ok_iff]
    exact List.getElem?_concat_length
  · have hsame : ((registers.get kind).names ++ [name])[earlier]? =
        (registers.get kind).names[earlier]? := List.getElem?_append_left (hcount ▸ hearlier)
    rw [hget, Register.nameAt, Register.nameAt, ← hsame]
    rfl
  · have hsame : ((registers.get kind).members ++ [members])[earlier]? =
        (registers.get kind).members[earlier]? := List.getElem?_append_left hearlier
    rw [hget, Register.membersAt, Register.membersAt, ← hsame]
    rfl
  · rw [positionOf, hget, Register.place?_pushSet]
    split_ifs <;> rfl

/-- What looking sets up by name and by position gives, in registers and in the sets that they
show. -/
structure LooksUp (registers : RegistersByKind α) (sets : SetsByKind α) : Prop where
  count_eq : ∀ kind, (registers.get kind).count = sets.count kind
  /-- At every position below the number of sets there are a name and a list of members. -/
  exists_set : ∀ kind position, position < sets.count kind → ∃ name members,
    (registers.get kind).nameAt position = .ok name ∧
      (registers.get kind).membersAt position = .ok members ∧
      sets.setAt kind position = .ok ⟨name, members⟩
  positionOf_eq : ∀ kind name, registers.positionOf kind name = sets.positionOf kind name
  /-- A name stands for the last position that has it. -/
  positionOf_eq_ok_iff : ∀ kind name position, registers.positionOf kind name = .ok position ↔
    position < sets.count kind ∧ (registers.get kind).nameAt position = .ok name ∧
      ∀ later < sets.count kind, (registers.get kind).nameAt later = .ok name → later ≤ position
  /-- A name is refused exactly if no position has it. -/
  positionOf_eq_refuse_iff : ∀ kind name,
    registers.positionOf kind name = refuse (.unknownSetName kind name) ↔
      ∀ position < sets.count kind, (registers.get kind).nameAt position ≠ .ok name
  adds : ∀ kind name members, Adds registers kind name members
    (registers.add kind name members).1 (registers.add kind name members).2
  toSets_add : ∀ kind name members,
    (registers.add kind name members).1 = (sets.add kind name members).1 ∧
      toSets (registers.add kind name members).2 = (sets.add kind name members).2

theorem InStep.looksUp (hstep : registers.InStep) : LooksUp registers registers.toSets where
  count_eq := hstep.count_eq
  exists_set kind position hposition := by
    rw [← hstep.count_eq] at hposition
    obtain ⟨⟨name, members⟩, hset, hname, hmembers⟩ := (hstep kind).exists_set hposition
    refine ⟨name, members, hname, hmembers, SetsByKind.setAt_eq_ok_iff.mpr ?_⟩
    rw [toSets, PerKind.get_map, hset]
  positionOf_eq := hstep.positionOf_eq
  positionOf_eq_ok_iff kind name position := by
    rw [← hstep.count_eq, ← (hstep kind).isLastAt_iff, ← (hstep kind).place?_eq_some_iff,
      positionOf]
    cases (registers.get kind).place? name <;> simp [refuse]
  positionOf_eq_refuse_iff kind name := by
    rw [← hstep.count_eq, ← (hstep kind).place?_eq_none_iff, positionOf]
    cases (registers.get kind).place? name <;> simp [refuse]
  adds := hstep.adds
  toSets_add kind name members := (hstep.add kind name members).2

end RegistersByKind

end MeshIncidence
