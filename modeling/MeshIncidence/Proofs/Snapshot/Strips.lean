/-
# Strips of slots

A snapshot keeps its members in strips, without a mark between them. `Kind.slotLists` cuts a strip
into the slots of its members again, and `Snapshot.slotted` does so with all sets of a snapshot.

Whatever is read from a strip is read from these lists: the number of members, the slots of one of
them, and the descendants of all. Since every member of a kind takes as many slots as the others,
cutting up the strip of some members gives back just these.
-/

import MeshIncidence.Snapshot
import MeshIncidence.Proofs.Outcome

namespace MeshIncidence

/-- Sets with other members under the same names. -/
def SetsByKind.mapMembers {α β : Type} (sets : SetsByKind α) (change : Kind → List α → List β) :
    SetsByKind β :=
  let changed (kind : Kind) := (sets.get kind).map fun set =>
    (⟨set.name, change kind set.members⟩ : NamedSet β)
  ⟨changed .vertex, changed .edge, changed .face, changed .element⟩

namespace SetsByKind

variable {α β : Type} (sets : SetsByKind α)

@[simp]
theorem get_mapMembers (change : Kind → List α → List β) (kind : Kind) :
    (sets.mapMembers change).get kind =
      (sets.get kind).map fun set => ⟨set.name, change kind set.members⟩ := by
  cases kind <;> rfl

@[simp]
theorem mapMembers_id : sets.mapMembers (fun _ members => members) = sets := by
  simp [mapMembers, PerKind.get]

theorem setAt_mapMembers (change : Kind → List α → List β) (kind : Kind) (position : Nat) :
    (sets.mapMembers change).setAt kind position =
      (sets.setAt kind position).map fun set => ⟨set.name, change kind set.members⟩ := by
  rw [setAt, setAt, get_mapMembers, List.getElem?_map]
  cases (sets.get kind)[position]? <;> rfl

/-- A member is where the one is that it came from. -/
theorem memberAt_mapMembers (image : Kind → α → β) (kind : Kind) (position index : Nat) :
    (sets.mapMembers fun kind members => members.map (image kind)).memberAt kind position index =
      (sets.memberAt kind position index).map (image kind) := by
  rw [memberAt, memberAt, setAt_mapMembers]
  cases sets.setAt kind position with
  | error failure => rfl
  | ok set =>
      simp only [Except.map, Result.ok_bind, List.getElem?_map]
      cases set.members[index]? <;> rfl

variable {sets}

theorem setAt_eq_ok_iff {kind : Kind} {position : Nat} {set : NamedSet α} :
    sets.setAt kind position = .ok set ↔ (sets.get kind)[position]? = some set := by
  rw [setAt]
  cases (sets.get kind)[position]? <;> simp [stop]

theorem memberAt_eq_ok_iff {kind : Kind} {position index : Nat} {member : α} :
    sets.memberAt kind position index = .ok member ↔
      ∃ set, sets.setAt kind position = .ok set ∧ set.members[index]? = some member := by
  rw [memberAt, Result.bind_eq_ok_iff]
  refine exists_congr fun set => and_congr_right fun _ => ?_
  cases set.members[index]? <;> simp [stop]

end SetsByKind

section Flatten

theorem length_flatten_of_size {α : Type} {members : List (List α)} {size : Nat}
    (hsize : ∀ member ∈ members, member.length = size) :
    members.flatten.length = members.length * size := by
  rw [List.length_flatten, List.map_congr_left hsize, List.map_const', List.sum_replicate_nat]

/-- From members with a number of slots each, every member can be cut out again. -/
theorem slice_flatten {α : Type} {members : List (List α)} {size : Nat}
    (hsize : ∀ member ∈ members, member.length = size) {index : Nat} {member : List α}
    (hmember : members[index]? = some member) :
    (members.flatten.drop (index * size)).take size = member := by
  induction members generalizing index with
  | nil => simp at hmember
  | cons first rest ih =>
      have hfirst := hsize first List.mem_cons_self
      cases index with
      | zero =>
          obtain rfl := Option.some.inj hmember
          rw [Nat.zero_mul, List.drop_zero, List.flatten_cons, ← hfirst, List.take_left]
      | succ index =>
          have hrest := ih (fun member hlater => hsize member (List.mem_cons_of_mem _ hlater)) hmember
          rw [List.flatten_cons, Nat.succ_mul, Nat.add_comm, ← List.drop_drop, ← hfirst,
            List.drop_left, hfirst, hrest]

end Flatten

namespace Kind

variable (kind : Kind)

theorem slotCount_pos : 0 < kind.slotCount := by
  cases kind <;> decide

/-- A strip cut into the slots of its members. -/
def slotLists (strip : List (Option Nat)) : List (List (Option Nat)) :=
  (List.range (kind.membersIn strip)).map fun index =>
    (strip.drop (index * kind.slotCount)).take kind.slotCount

variable {kind} {strip : List (Option Nat)}

@[simp]
theorem length_slotLists : (kind.slotLists strip).length = kind.membersIn strip := by
  simp [slotLists]

/-- The slots of a member are those cut out for it, and past the last member there are none. -/
theorem slotsIn_eq (index : Nat) : kind.slotsIn strip index =
    match (kind.slotLists strip)[index]? with
    | some slots => .ok slots
    | none => stop .outOfRange := by
  have hroom : (index + 1) * kind.slotCount ≤ strip.length ↔ index < kind.membersIn strip :=
    (Nat.le_div_iff_mul_le kind.slotCount_pos).symm
  rw [slotsIn, slotLists, List.getElem?_map]
  by_cases hindex : index < kind.membersIn strip
  · rw [if_pos (hroom.mpr hindex), List.getElem?_range hindex]
    rfl
  · rw [if_neg (mt hroom.mp hindex), List.getElem?_eq_none (by simpa using hindex)]
    rfl

/-- The strip of some members is cut into just these. -/
theorem slotLists_flatten {members : List (List (Option Nat))}
    (hsize : ∀ slots ∈ members, slots.length = kind.slotCount) :
    kind.slotLists members.flatten = members := by
  have hcount : kind.membersIn members.flatten = members.length := by
    rw [membersIn, length_flatten_of_size hsize, Nat.mul_div_cancel _ kind.slotCount_pos]
  refine List.ext_getElem (by rw [length_slotLists, hcount]) fun index _ hindex => ?_
  simp only [slotLists, List.getElem_map, List.getElem_range]
  exact slice_flatten hsize (List.getElem?_eq_getElem hindex)

end Kind

namespace Snapshot

variable (snapshot : Snapshot) {kind : Kind}

/-- The sets with each member by the list of its slots. -/
def slotted : SetsByKind (List (Option Nat)) := snapshot.sets.mapMembers Kind.slotLists

variable {snapshot}

/-- The members are counted by the strip as by their lists of slots. -/
theorem memberCount_eq (position : Nat) : snapshot.memberCount kind position =
    (snapshot.slotted.setAt kind position).map fun set => set.members.length := by
  rw [memberCount, slotted, SetsByKind.setAt_mapMembers]
  cases snapshot.sets.setAt kind position with
  | error failure => rfl
  | ok set => exact congrArg Except.ok Kind.length_slotLists.symm

/-- A member is found in the strip as in the list of slots. -/
theorem slotsAt_eq (position index : Nat) :
    snapshot.slotsAt kind position index = snapshot.slotted.memberAt kind position index := by
  rw [slotsAt, SetsByKind.memberAt, slotted, SetsByKind.setAt_mapMembers]
  cases snapshot.sets.setAt kind position with
  | error failure => rfl
  | ok set =>
      simp only [Except.map, Result.ok_bind, Kind.slotsIn_eq]
      cases (kind.slotLists set.members)[index]? <;> rfl

theorem stripDescendants_eq (lineage : Lineage) (set : Nat) (strip : List (Option Nat)) :
    stripDescendants lineage kind set strip = do
      let families ← (kind.slotLists strip).zipIdx.mapM fun (slots, entity) =>
        descendants lineage kind set entity slots
      return families.flatten := by
  rw [stripDescendants, ← Kind.length_slotLists]
  refine congrArg (· >>= _) (Result.mapM_range_eq_mapM_zipIdx fun entity slots hslots => ?_)
  rw [Kind.slotsIn_eq, hslots]
  rfl

/-- Projecting strips is projecting the lists of slots. -/
theorem projectedSets_eq (lineage : Lineage) :
    snapshot.projectedSets lineage kind =
      (snapshot.slotted.get kind).zipIdx.mapM fun (set, position) => do
        let families ← set.members.zipIdx.mapM fun (slots, entity) =>
          descendants lineage kind position entity slots
        return ⟨set.name, families.flatten⟩ := by
  rw [slotted, SetsByKind.get_mapMembers, List.zipIdx_map, List.mapM_map]
  refine congrArg (List.mapM · _) (funext fun (set, position) => ?_)
  dsimp only [Function.comp, Prod.map]
  rw [stripDescendants_eq, bind_assoc]
  rfl

end Snapshot

end MeshIncidence
