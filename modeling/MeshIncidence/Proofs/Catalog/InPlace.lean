/-
# Sets split where they are stored

The members of a set are kept in one array. To split the set the array is made longer, with zeros,
and then gone through from the front: each member is read, and its children are written one after
the other, the first in the place of the member and the others behind all old members. A child that
is not found ends this, and the array stays as it is then.

`spreadOver` is the array at any moment, told by the children written so far. A write puts one more
child into it, in either part. So every loop leads to the members that `splitSets` gives, with the
same notes and the same failure, and the steps of the sets are the steps in place.
-/

import MeshIncidence.Proofs.Catalog.Splitting
import MeshIncidence.Proofs.Changes

namespace MeshIncidence

open MeshIncidence.Action

/-- The place of a child among the children of `count` members, of which each has `extra` besides
the first. -/
def childPlace (count extra index child : Nat) : Nat :=
  if child = 0 then index else count + extra * index + (child - 1)

/-- Write the child of a member into its place, if there is one. -/
def putChild (count extra index : Nat) (child : Result Nat × Nat) : Action (Array Nat) Unit := do
  let value ← ofResult child.1
  change (replaceAt · (childPlace count extra index child.2) value)

/-- Read a member and write its children. -/
def putFamily (count extra : Nat) (children : Nat → List (Result Nat)) (index : Nat) :
    Action (Array Nat) Unit := do
  let member ← ofResult (entryAt (← state) index)
  (children member).zipIdx.forM (putChild count extra index)

/-- Read a member and write its children but the first, which is the member itself. -/
def putOthers (count extra : Nat) (others : Nat → List (Result Nat)) (index : Nat) :
    Action (Array Nat) Unit := do
  let member ← ofResult (entryAt (← state) index)
  ((others member).zipIdx 1).forM (putChild count extra index)

/-- Make room behind the members of a set and go through them. -/
def splitMembers (extra : Nat) (step : Nat → Nat → Action (Array Nat) Unit) :
    Action (Array Nat) Unit := do
  let count := (← state).size
  change fun members => .ok (members ++ Array.replicate (extra * count) 0)
  (List.range count).forM (step count)

/-- The members of the set at a position. -/
def membersAt (position : Nat) (sets : List (NamedSet Nat)) : Array Nat :=
  ((sets[position]?.map NamedSet.members).getD []).toArray

/-- The sets with other members at a position. -/
def withMembersAt (position : Nat) (sets : List (NamedSet Nat)) (members : Array Nat) :
    List (NamedSet Nat) :=
  sets.modify position fun set => { set with members := members.toList }

/-- Work on the members of one set after the other. -/
def onEachSet (action : Action (Array Nat) Unit) : Action (List (NamedSet Nat)) Unit := do
  let sets ← state
  (List.range sets.length).forM fun position =>
    onPart (membersAt position) (withMembersAt position) action

/-- Split one set after the other, with a note on each. -/
def splitInPlace (extra : Nat) (children : Nat → List (Result Nat)) (noteOf : Nat → Note) :
    Action (List (NamedSet Nat)) Unit :=
  onEachSet do
    note (noteOf (← state).size)
    splitMembers extra fun count => putFamily count extra children

/-- A value, or a failure if there is one. -/
def finishWith {α : Type} (value : α) : Option Failure → Result α
  | none => .ok value
  | some failure => .error failure

/-- The members of a set after some children have been written: first children over the members, and
others over the zeros behind them. -/
def spreadOver (extra : Nat) (members firsts others : List Nat) : List Nat :=
  firsts ++ members.drop firsts.length ++ others ++
    List.replicate (extra * members.length - others.length) 0

theorem spreadFamilies_eq_spreadOver (extra : Nat) (members : List Nat)
    (families : List (List Nat)) : spreadFamilies (extra + 1) members families =
      spreadOver extra members (families.filterMap List.head?) (families.flatMap List.tail) := rfl

section SpreadOver

variable {extra : Nat} {members firsts others : List Nat}

theorem length_spreadOver (hfirsts : firsts.length ≤ members.length)
    (hothers : others.length ≤ extra * members.length) :
    (spreadOver extra members firsts others).length = members.length + extra * members.length := by
  simp only [spreadOver, List.length_append, List.length_drop, List.length_replicate]
  omega

/-- A member is there until its first child is written. -/
theorem getElem?_spreadOver {index : Nat} (hfirsts : firsts.length ≤ index)
    (hindex : index < members.length) :
    (spreadOver extra members firsts others)[index]? = members[index]? := by
  have hdrop : index - firsts.length < (members.drop firsts.length).length := by
    rw [List.length_drop]
    omega
  rw [spreadOver, List.append_assoc, List.append_assoc, List.getElem?_append_right hfirsts,
    List.getElem?_append_left hdrop, List.getElem?_drop, Nat.add_sub_cancel' hfirsts]

theorem set_spreadOver_first (hroom : firsts.length < members.length) (value : Nat) :
    (spreadOver extra members firsts others).set firsts.length value =
      spreadOver extra members (firsts ++ [value]) others := by
  rw [spreadOver, List.drop_eq_getElem_cons hroom, List.append_assoc, List.append_assoc,
    List.set_append_right _ _ (Nat.le_refl _), Nat.sub_self, List.cons_append, List.set_cons_zero,
    spreadOver]
  simp

theorem set_spreadOver_other (hfirsts : firsts.length ≤ members.length)
    (hroom : others.length < extra * members.length) (value : Nat) :
    (spreadOver extra members firsts others).set (members.length + others.length) value =
      spreadOver extra members firsts (others ++ [value]) := by
  obtain ⟨free, hfree⟩ := Nat.exists_eq_add_of_lt hroom
  have hzeros : extra * members.length - others.length = free + 1 := by omega
  have hfewer : extra * members.length - (others ++ [value]).length = free := by
    simp only [List.length_append, List.length_cons, List.length_nil]
    omega
  have hlength : (firsts ++ members.drop firsts.length ++ others).length =
      members.length + others.length := by
    simp only [List.length_append, List.length_drop]
    omega
  rw [spreadOver, hzeros, List.replicate_succ, ← hlength, List.set_append_right _ _ (Nat.le_refl _),
    Nat.sub_self, List.set_cons_zero, spreadOver, hfewer]
  simp

end SpreadOver

theorem replaceAt_toArray {values : List Nat} {position : Nat}
    (hposition : position < values.length) (value : Nat) : replaceAt values.toArray position value =
      .ok (values.set position value).toArray := by
  rw [replaceAt, if_pos (by simpa using hposition), List.setIfInBounds_toArray]

/-- The children of a member fill the room there is for them, unless one of them is not found. -/
structure FitsRoom (extra : Nat) (children : List (Result Nat)) : Prop where
  length_le : (upToFailure children).1.length ≤ extra + 1
  length_eq : (upToFailure children).2 = none → (upToFailure children).1.length = extra + 1

namespace FitsRoom

/-- As many children as there is room for fit, found or not. -/
theorem of_length {extra : Nat} {children : List (Result Nat)}
    (hlength : children.length = extra + 1) : FitsRoom extra children := by
  suffices hvalues : ∀ outcomes : List (Result Nat),
      (upToFailure outcomes).1.length ≤ outcomes.length ∧
        ((upToFailure outcomes).2 = none →
          (upToFailure outcomes).1.length = outcomes.length) by
    obtain ⟨hle, hall⟩ := hvalues children
    exact ⟨hlength ▸ hle, fun hnone => (hall hnone).trans hlength⟩
  intro outcomes
  induction outcomes with
  | nil => exact ⟨Nat.le_refl _, fun _ => rfl⟩
  | cons outcome outcomes ih =>
      cases outcome with
      | error failure => exact ⟨Nat.zero_le _, nofun⟩
      | ok value => exact ⟨Nat.succ_le_succ ih.1, fun hnone => congrArg Nat.succ (ih.2 hnone)⟩

theorem of_error (extra : Nat) (failure : Failure) : FitsRoom extra [.error failure] :=
  ⟨Nat.zero_le _, nofun⟩

end FitsRoom

theorem filterMap_head?_cons {α : Type} (family : List α) (families : List (List α)) :
    (family :: families).filterMap List.head? =
      family.head?.toList ++ families.filterMap List.head? := by
  cases family <;> rfl

section Loops

variable {extra index : Nat} {members firsts others : List Nat}

theorem putChild_writes_error (count : Nat) {position : Nat} {failure : Failure}
    {before : Array Nat} :
    (putChild count extra index (.error failure, position)).Writes before (.error failure) before
      [] :=
  (writes_throw failure).bind_error

/-- The first child takes the place of its member. -/
theorem putChild_writes_first (value : Nat) (hfirsts : firsts.length = index)
    (hindex : index < members.length) (hothers : others.length ≤ extra * members.length) :
    (putChild members.length extra index (.ok value, 0)).Writes
      (spreadOver extra members firsts others).toArray (.ok ())
      (spreadOver extra members (firsts ++ [value]) others).toArray [] := by
  subst hfirsts
  have hlength := length_spreadOver (Nat.le_of_lt hindex) hothers
  rw [putChild, ofResult_ok_bind]
  refine writes_change ?_
  rw [childPlace, if_pos rfl, replaceAt_toArray (by omega), set_spreadOver_first hindex]

/-- Another child is put behind the children that are there. -/
theorem putChild_writes_other {position : Nat} (value : Nat)
    (hfirsts : firsts.length ≤ members.length)
    (hothers : others.length = extra * index + position)
    (hroom : others.length < extra * members.length) :
    (putChild members.length extra index (.ok value, position + 1)).Writes
      (spreadOver extra members firsts others).toArray (.ok ())
      (spreadOver extra members firsts (others ++ [value])).toArray [] := by
  have hlength := length_spreadOver hfirsts (Nat.le_of_lt hroom)
  have hplace : childPlace members.length extra index (position + 1) =
      members.length + others.length := by
    rw [childPlace, if_neg (Nat.succ_ne_zero position), hothers, Nat.add_sub_cancel, Nat.add_assoc]
  rw [putChild, ofResult_ok_bind]
  refine writes_change ?_
  rw [hplace, replaceAt_toArray (by omega), set_spreadOver_other hfirsts hroom]

/-- The children after the first are written up to one that is not found. -/
theorem putChildren_writes (hfirsts : firsts.length ≤ members.length)
    (hindex : index < members.length) (children : List (Result Nat)) (position : Nat)
    (hothers : others.length = extra * index + position)
    (hroom : position + (upToFailure children).1.length ≤ extra) :
    ((children.zipIdx (position + 1)).forM (putChild members.length extra index)).Writes
      (spreadOver extra members firsts others).toArray (finishWith () (upToFailure children).2)
      (spreadOver extra members firsts (others ++ (upToFailure children).1)).toArray [] := by
  induction children generalizing position others with
  | nil =>
      rw [upToFailure, List.append_nil]
      exact writes_pure ()
  | cons child children ih =>
      rw [List.zipIdx_cons]
      cases child with
      | error failure =>
          rw [upToFailure, List.append_nil]
          exact (putChild_writes_error _).bind_error
      | ok value =>
          rw [upToFailure, List.length_cons] at hroom
          have hrows : extra * (index + 1) ≤ extra * members.length :=
            Nat.mul_le_mul_left extra hindex
          rw [Nat.mul_add, Nat.mul_one] at hrows
          have hput := putChild_writes_other value hfirsts hothers (by omega)
          have hmore : (others ++ [value]).length = extra * index + (position + 1) := by
            rw [List.length_append, hothers]
            rfl
          have hrest := ih (position + 1) hmore (by omega)
          rw [upToFailure, List.append_cons]
          exact hput.bind hrest

/-- One step of the loop over the members: their children are written behind those of the members
before. -/
theorem putFamily_writes {children : Nat → List (Result Nat)} {member : Nat}
    (hfirsts : firsts.length = index) (hothers : others.length = extra * index)
    (hmember : members[index]? = some member) (hfits : FitsRoom extra (children member)) :
    (putFamily members.length extra children index).Writes
      (spreadOver extra members firsts others).toArray
      (finishWith () (upToFailure (children member)).2)
      (spreadOver extra members (firsts ++ (upToFailure (children member)).1.head?.toList)
        (others ++ (upToFailure (children member)).1.tail)).toArray [] := by
  obtain ⟨hindex, -⟩ := List.getElem?_eq_some_iff.mp hmember
  have hread : entryAt (spreadOver extra members firsts others).toArray index = .ok member := by
    rw [entryAt_eq_ok_iff, List.getElem?_toArray,
      getElem?_spreadOver (Nat.le_of_eq hfirsts) hindex, hmember]
  rw [putFamily]
  refine .state_bind ?_
  rw [hread, ofResult_ok_bind]
  have hlength := hfits.length_le
  cases hchildren : children member with
  | nil =>
      simp only [upToFailure, List.head?_nil, Option.toList_none, List.tail_nil, List.append_nil]
      exact writes_pure ()
  | cons child rest =>
      rw [List.zipIdx_cons]
      cases child with
      | error failure =>
          simp only [upToFailure, List.head?_nil, Option.toList_none, List.tail_nil,
            List.append_nil]
          exact (putChild_writes_error _).bind_error
      | ok value =>
          rw [hchildren, upToFailure, List.length_cons] at hlength
          have hrows : extra * index ≤ extra * members.length :=
            Nat.mul_le_mul_left extra (Nat.le_of_lt hindex)
          have hput := putChild_writes_first value hfirsts hindex
            (Nat.le_trans (Nat.le_of_eq hothers) hrows)
          have hlater : (firsts ++ [value]).length ≤ members.length := by
            rw [List.length_append, hfirsts]
            exact hindex
          have hrest := putChildren_writes hlater hindex rest 0 hothers (by omega)
          exact hput.bind hrest

/-- The loop over the members that are left. The children so far tell where it is. -/
theorem putFamilies_writes {children : Nat → List (Result Nat)} {rest : List Nat}
    (hrest : members.drop index = rest) (hfits : ∀ member ∈ rest, FitsRoom extra (children member))
    (hfirsts : firsts.length = index) (hothers : others.length = extra * index) :
    ((List.range' index rest.length).forM (putFamily members.length extra children)).Writes
      (spreadOver extra members firsts others).toArray
      (finishWith () (familiesUpToFailure children rest).2)
      (spreadOver extra members
        (firsts ++ (familiesUpToFailure children rest).1.filterMap List.head?)
        (others ++ (familiesUpToFailure children rest).1.flatMap List.tail)).toArray [] := by
  induction rest generalizing index firsts others with
  | nil =>
      simp only [familiesUpToFailure, List.filterMap_nil, List.flatMap_nil, List.append_nil]
      exact writes_pure ()
  | cons member rest ih =>
      have hmember : members[index]? = some member := by
        rw [← List.head?_drop, hrest, List.head?_cons]
      have hnext : members.drop (index + 1) = rest := by
        rw [← List.tail_drop, hrest, List.tail_cons]
      have hfamily := hfits member List.mem_cons_self
      have hput := putFamily_writes hfirsts hothers hmember hfamily
      have hlength := hfamily.length_eq
      rw [familiesUpToFailure]
      cases hfound : upToFailure (children member) with
      | mk family failure =>
          rw [hfound] at hput hlength
          cases failure with
          | some failure =>
              rw [filterMap_head?_cons, List.flatMap_cons, List.filterMap_nil, List.flatMap_nil,
                List.append_nil, List.append_nil]
              exact hput.bind_error
          | none =>
              have hcomplete : family.length = extra + 1 := hlength rfl
              have hhead : family.head?.toList.length = 1 := by
                obtain ⟨first, others, rfl⟩ := List.exists_cons_of_length_eq_add_one hcomplete
                rfl
              have hfirsts : (firsts ++ family.head?.toList).length = index + 1 := by
                rw [List.length_append, hfirsts, hhead]
              have hothers : (others ++ family.tail).length = extra * (index + 1) := by
                rw [List.length_append, List.length_tail, hcomplete, hothers]
                rfl
              have hlater := ih hnext
                (fun other hother => hfits other (List.mem_cons_of_mem _ hother)) hfirsts hothers
              rw [filterMap_head?_cons, List.flatMap_cons, ← List.append_assoc,
                ← List.append_assoc]
              exact hput.bind hlater

end Loops

/-- Splitting the members of a set leads to the children as far as they are found. -/
theorem splitMembers_writes {extra : Nat} {children : Nat → List (Result Nat)} {members : List Nat}
    (hfits : ∀ member ∈ members, FitsRoom extra (children member)) :
    (splitMembers extra fun count => putFamily count extra children).Writes members.toArray
      (finishWith () (familiesUpToFailure children members).2)
      (spreadFamilies (extra + 1) members (familiesUpToFailure children members).1).toArray [] := by
  have hgrown : members.toArray ++ Array.replicate (extra * members.length) 0 =
      (spreadOver extra members [] []).toArray := by
    simp [spreadOver]
  have hloop : ((List.range' 0 members.length).forM
    (putFamily members.length extra children)).Writes
      (spreadOver extra members [] []).toArray _ _ [] :=
    putFamilies_writes List.drop_zero hfits rfl rfl
  rw [← List.range_eq_range'] at hloop
  rw [splitMembers]
  refine .state_bind ?_
  rw [List.size_toArray]
  refine writes_change_ok.bind ?_
  rw [hgrown, spreadFamilies_eq_spreadOver]
  exact hloop

section Sets

/-- What becomes of some sets, of which one after the other is worked on up to a failure. -/
def eachUpToFailure (result : List Nat → List Nat × List Note × Option Failure) :
    List (NamedSet Nat) → List (NamedSet Nat) × List Note × Option Failure
  | [] => ([], [], none)
  | set :: sets =>
    match result set.members with
    | (members, notes, some failure) =>
      ({ set with members := members } :: sets, notes, some failure)
    | (members, notes, none) =>
      let (rest, later, failure) := eachUpToFailure result sets
      ({ set with members := members } :: rest, notes ++ later, failure)

/-- What becomes of the members of a set: children as far as they are found, and some notes. -/
def spreadUpToFailure (extra : Nat) (children : Nat → List (Result Nat))
    (notesOf : Nat → List Note) (members : List Nat) : List Nat × List Note × Option Failure :=
  (spreadFamilies (extra + 1) members (familiesUpToFailure children members).1,
    notesOf members.length, (familiesUpToFailure children members).2)

theorem membersAt_append (done rest : List (NamedSet Nat)) (set : NamedSet Nat) :
    membersAt done.length (done ++ set :: rest) = set.members.toArray := by
  simp [membersAt]

/-- The sets before and behind it stay as they are. -/
theorem withMembersAt_append (done rest : List (NamedSet Nat)) (set : NamedSet Nat)
    (members : List Nat) : withMembersAt done.length (done ++ set :: rest) members.toArray =
      done ++ { set with members := members } :: rest := by
  induction done with
  | nil => rfl
  | cons first done ih => exact congrArg (first :: ·) ih

/-- What is done to each set alone is done to all of them up to a failure. -/
theorem onEachSet_writes {action : Action (Array Nat) Unit}
    {result : List Nat → List Nat × List Note × Option Failure} {sets : List (NamedSet Nat)}
    (hwrites : ∀ set ∈ sets, action.Writes set.members.toArray
      (finishWith () (result set.members).2.2) (result set.members).1.toArray
      (result set.members).2.1) :
    (onEachSet action).Writes sets (finishWith () (eachUpToFailure result sets).2.2)
      (eachUpToFailure result sets).1 (eachUpToFailure result sets).2.1 := by
  suffices hloop : ∀ done rest : List (NamedSet Nat), (∀ set ∈ rest, set ∈ sets) →
      ((List.range' done.length rest.length).forM fun position =>
        onPart (membersAt position) (withMembersAt position) action).Writes (done ++ rest)
          (finishWith () (eachUpToFailure result rest).2.2)
          (done ++ (eachUpToFailure result rest).1) (eachUpToFailure result rest).2.1 by
    rw [onEachSet]
    refine .state_bind ?_
    rw [List.range_eq_range']
    exact hloop [] sets fun _ hset => hset
  intro done rest hrest
  induction rest generalizing done with
  | nil => exact writes_pure ()
  | cons set rest ih =>
      have hset := hwrites set (hrest set List.mem_cons_self)
      rw [← membersAt_append done rest] at hset
      replace hset := hset.onPart (withMembersAt done.length)
      rw [withMembersAt_append] at hset
      rw [eachUpToFailure]
      cases hfound : result set.members with
      | mk members outcome =>
          obtain ⟨notes, failure⟩ := outcome
          rw [hfound] at hset
          cases failure with
          | some failure => exact hset.bind_error
          | none =>
              have hlater := ih (done ++ [{ set with members := members }])
                fun other hother => hrest other (List.mem_cons_of_mem _ hother)
              rw [List.length_append, List.append_assoc, List.append_assoc] at hlater
              exact hset.bind hlater

variable {extra : Nat} {children : Nat → List (Result Nat)}

theorem splitSets_eq_eachUpToFailure (noteOf : Nat → Note) (sets : List (NamedSet Nat)) :
    splitSets (extra + 1) children noteOf sets =
      eachUpToFailure (spreadUpToFailure extra children fun count => [noteOf count]) sets := by
  induction sets with
  | nil => rfl
  | cons set sets ih =>
      rw [splitSets, eachUpToFailure, spreadUpToFailure, ih]
      cases familiesUpToFailure children set.members with
      | mk families failure => cases failure <;> rfl

/-- Splitting one set after the other leads to what `splitSets` gives, with its notes, and fails
where it does. -/
theorem splitInPlace_writes {sets : List (NamedSet Nat)}
    (hfits : ∀ set ∈ sets, ∀ member ∈ set.members, FitsRoom extra (children member))
    (noteOf : Nat → Note) :
    (splitInPlace extra children noteOf).Writes sets
      (finishWith () (splitSets (extra + 1) children noteOf sets).2.2)
      (splitSets (extra + 1) children noteOf sets).1
      (splitSets (extra + 1) children noteOf sets).2.1 := by
  rw [splitSets_eq_eachUpToFailure]
  refine onEachSet_writes fun set hset => .state_bind ?_
  rw [List.size_toArray]
  exact (writes_note _).bind (splitMembers_writes (hfits set hset))

end Sets

/-- If no child is missing the room is filled, as the families lie one after the other. -/
theorem spreadFamilies_eq_of_familiesUpToFailure {extra : Nat}
    {children : Nat → List (Result Nat)} {members : List Nat} {families : List (List Nat)}
    (hfits : ∀ member ∈ members, FitsRoom extra (children member))
    (hfound : familiesUpToFailure children members = (families, none)) :
    spreadFamilies (extra + 1) members families = firstChildrenFirst families := by
  suffices hcomplete : families.length = members.length ∧ HaveExtra families extra from
    spreadFamilies_eq hcomplete.2 hcomplete.1
  induction members generalizing families with
  | nil =>
      obtain rfl := (Prod.mk.inj hfound).1
      exact ⟨rfl, fun _ hfamily => absurd hfamily List.not_mem_nil⟩
  | cons member members ih =>
      have hlength := (hfits member List.mem_cons_self).length_eq
      rw [familiesUpToFailure] at hfound
      cases hfirst : upToFailure (children member) with
      | mk family failure =>
          rw [hfirst] at hfound hlength
          cases failure with
          | some failure => cases hfound
          | none =>
              cases hlater : familiesUpToFailure children members with
              | mk later failure =>
                  rw [hlater] at hfound
                  obtain ⟨rfl, rfl⟩ := Prod.mk.inj hfound
                  obtain ⟨hcount, hextra⟩ := ih
                    (fun other hother => hfits other (List.mem_cons_of_mem _ hother)) hlater
                  exact ⟨congrArg Nat.succ hcount, List.forall_mem_cons.mpr ⟨hlength rfl, hextra⟩⟩

section Elements

/-- The children of an element besides the first, which has its number. -/
def SetCatalog.elementOthers (catalog : SetCatalog) (extra element : Nat) : List (Result Nat) :=
  match mulWords extra element >>= addWords catalog.elementCount with
  | .error failure => [.error failure]
  | .ok first => (List.range extra).map (addWords first)

/-- Writing a member over itself changes nothing. -/
theorem putChild_writes_self (count extra : Nat) {index member : Nat} {members : Array Nat}
    (hmember : members[index]? = some member) :
    (putChild count extra index (.ok member, 0)).Writes members (.ok ()) members [] := by
  obtain ⟨hlt, rfl⟩ := Array.getElem?_eq_some_iff.mp hmember
  rw [putChild, ofResult_ok_bind]
  refine writes_change ?_
  rw [childPlace, if_pos rfl, replaceAt, if_pos hlt, Array.setIfInBounds_def, dif_pos hlt,
    Array.set_getElem_self]

/-- It makes no difference that the first child, which is the member, is not written. -/
theorem putOthers_eq_putFamily (count extra : Nat) (others : Nat → List (Result Nat)) :
    putOthers count extra others =
      putFamily count extra fun member => .ok member :: others member := by
  funext index ⟨members, notes⟩
  show (ofResult (entryAt members index) >>= fun member =>
      ((others member).zipIdx 1).forM (putChild count extra index)).run ⟨members, notes⟩ =
    (ofResult (entryAt members index) >>= fun member =>
      (Except.ok member :: others member).zipIdx.forM (putChild count extra index)).run
        ⟨members, notes⟩
  cases hread : entryAt members index with
  | error failure => rfl
  | ok member =>
      rw [ofResult_ok_bind, ofResult_ok_bind, List.zipIdx_cons]
      have hself := putChild_writes_self count extra (entryAt_eq_ok_iff.mp hread)
      have hwhole := hself.run_bind (fun _ => ((others member).zipIdx 1).forM
        (putChild count extra index)) notes
      rw [List.append_nil] at hwhole
      exact hwhole.symm

/-- A list of outcomes is gone through up to the first failure. -/
theorem mapM_eq_finishWith {α β : Type} (operation : α → Result β) (members : List α) :
    members.mapM operation = finishWith (upToFailure (members.map operation)).1
      (upToFailure (members.map operation)).2 := by
  induction members with
  | nil => rfl
  | cons member members ih =>
      rw [List.mapM_cons, ih, List.map_cons]
      cases operation member with
      | error failure => rfl
      | ok value =>
          rw [Result.ok_bind, upToFailure]
          cases (upToFailure (members.map operation)).2 <;> rfl

/-- Families that are looked up as a whole are those up to the first failure. -/
theorem mapM_family_eq_finishWith {children : Nat → List (Result Nat)}
    {family : Nat → Result (List Nat)}
    (hfamily : ∀ member, family member =
      finishWith (upToFailure (children member)).1 (upToFailure (children member)).2)
    (members : List Nat) : members.mapM family =
      finishWith (familiesUpToFailure children members).1
        (familiesUpToFailure children members).2 := by
  induction members with
  | nil => rfl
  | cons member members ih =>
      rw [List.mapM_cons, ih, hfamily, familiesUpToFailure]
      cases upToFailure (children member) with
      | mk first failure =>
          cases failure with
          | some failure => rfl
          | none =>
              cases familiesUpToFailure children members with
              | mk families failure => cases failure <;> rfl

namespace SetCatalog

variable (catalog : SetCatalog)

/-- All children of an element, the first one included. -/
def elementChildren (extra element : Nat) : List (Result Nat) :=
  .ok element :: catalog.elementOthers extra element

theorem elementFamily_eq_finishWith (extra element : Nat) :
    catalog.elementFamily (extra + 1) element =
      finishWith (upToFailure (catalog.elementChildren extra element)).1
        (upToFailure (catalog.elementChildren extra element)).2 := by
  have hfamily : catalog.elementFamily (extra + 1) element =
      (mulWords extra element >>= addWords catalog.elementCount) >>= fun first =>
        (List.range extra).mapM (addWords first) >>= fun others => .ok (element :: others) := by
    rw [bind_assoc]
    rfl
  rw [hfamily, elementChildren, elementOthers, upToFailure]
  cases mulWords extra element >>= addWords catalog.elementCount with
  | error failure => rfl
  | ok first =>
      dsimp only
      rw [Result.ok_bind, mapM_eq_finishWith]
      cases (upToFailure ((List.range extra).map (addWords first))).2 <;> rfl

theorem fitsRoom_elementChildren (extra element : Nat) :
    FitsRoom extra (catalog.elementChildren extra element) := by
  rw [elementChildren, elementOthers]
  split
  · exact ⟨Nat.succ_le_succ (Nat.zero_le _), nofun⟩
  · exact .of_length (by simp)

/-- Element sets that follow in silence, one after the other. -/
def splitElements (extra : Nat) (sets : List (NamedSet Nat)) :
    List (NamedSet Nat) × List Note × Option Failure :=
  eachUpToFailure (spreadUpToFailure extra (catalog.elementChildren extra) fun _ => []) sets

/-- Element sets that are split as a whole are those up to the first failure. -/
theorem splitElementSets_eq_finishWith (extra : Nat) :
    catalog.splitElementSets (extra + 1) =
      finishWith (catalog.splitElements extra catalog.sets.element).1
        (catalog.splitElements extra catalog.sets.element).2.2 := by
  suffices hsets : ∀ sets : List (NamedSet Nat),
      (sets.mapM fun set => do
        let families ← set.members.mapM (catalog.elementFamily (extra + 1))
        return { set with members := firstChildrenFirst families }) =
        finishWith (catalog.splitElements extra sets).1
          (catalog.splitElements extra sets).2.2 from hsets catalog.sets.element
  intro sets
  induction sets with
  | nil => rfl
  | cons set sets ih =>
      have hmembers := mapM_family_eq_finishWith (catalog.elementFamily_eq_finishWith extra)
        set.members
      have hfits : ∀ member ∈ set.members, FitsRoom extra (catalog.elementChildren extra member) :=
        fun member _ => catalog.fitsRoom_elementChildren extra member
      rw [List.mapM_cons, ih, hmembers, splitElements, splitElements, eachUpToFailure,
        spreadUpToFailure]
      cases hfound : familiesUpToFailure (catalog.elementChildren extra) set.members with
      | mk families failure =>
          cases failure with
          | some failure => rfl
          | none =>
              dsimp only [finishWith]
              rw [spreadFamilies_eq_of_familiesUpToFailure hfits hfound, Result.ok_bind]
              cases eachUpToFailure _ sets with
              | mk rest outcome =>
                  obtain ⟨notes, failure⟩ := outcome
                  cases failure <;> rfl

/-- Split the element sets one after the other. -/
def splitElementsInPlace (extra : Nat) : Action (List (NamedSet Nat)) Unit :=
  onEachSet (splitMembers extra fun count => putOthers count extra (catalog.elementOthers extra))

theorem splitElementsInPlace_writes (extra : Nat) (sets : List (NamedSet Nat)) :
    (catalog.splitElementsInPlace extra).Writes sets
      (finishWith () (catalog.splitElements extra sets).2.2)
      (catalog.splitElements extra sets).1 (catalog.splitElements extra sets).2.1 := by
  refine onEachSet_writes fun set _ => ?_
  simp only [putOthers_eq_putFamily]
  exact splitMembers_writes fun element _ => catalog.fitsRoom_elementChildren extra element

theorem notes_splitElements (extra : Nat) (sets : List (NamedSet Nat)) :
    (catalog.splitElements extra sets).2.1 = [] := by
  induction sets with
  | nil => rfl
  | cons set sets ih =>
      rw [splitElements, eachUpToFailure, spreadUpToFailure]
      rw [splitElements] at ih
      cases (familiesUpToFailure (catalog.elementChildren extra) set.members).2 with
      | some failure => rfl
      | none => exact ih

end SetCatalog

end Elements

namespace SetCatalog

variable (catalog : SetCatalog)

theorem fitsRoom_edgeChildren (edgeVertex : IncidenceTable) (edges : PairNumbering) (edge : Nat) :
    FitsRoom 1 (catalog.edgeChildren edgeVertex edges edge) := by
  rw [edgeChildren]
  split
  · exact .of_error 1 _
  · exact .of_length rfl

theorem fitsRoom_faceChildren (faceVertex faceEdge : IncidenceTable) (faces : FaceNumbering)
    (firstCenter face : Nat) :
    FitsRoom 3 (catalog.faceChildren faceVertex faceEdge faces firstCenter face) := by
  rw [faceChildren]
  split
  · exact .of_error 3 _
  · rename_i hpoints
    obtain ⟨row, -, hrest⟩ := Result.bind_eq_ok_iff.mp hpoints
    split at hrest
    · cases hrest
    · rename_i hlength
      obtain ⟨edges, -, hrest⟩ := Result.bind_eq_ok_iff.mp hrest
      obtain ⟨middles, -, hrest⟩ := Result.bind_eq_ok_iff.mp hrest
      obtain ⟨center, -, hpoints⟩ := Result.bind_eq_ok_iff.mp hrest
      obtain ⟨rfl, -⟩ := Prod.mk.inj (Except.ok.inj hpoints)
      exact .of_length (by rw [List.length_map, Decidable.not_not.mp hlength])

end SetCatalog

namespace Bound

variable {M : Type}

/-- The sets of a kind. -/
def setsOf (kind : Kind) (bound : Bound M) : List (NamedSet Nat) := bound.catalog.sets.get kind

/-- The catalog with other sets of a kind. -/
def withSets (kind : Kind) (bound : Bound M) (sets : List (NamedSet Nat)) : Bound M :=
  { bound with catalog := { bound.catalog with sets := bound.catalog.sets.set kind sets } }

theorem applySplit_writes (kind : Kind) (sets : List (NamedSet Nat)) (notes : List Note)
    (failure : Option Failure) (bound : Bound M) :
    (applySplit kind (sets, notes, failure)).Writes bound (finishWith () failure)
      (withSets kind bound sets) notes := by
  suffices hwhole : (applySplit kind (sets, notes, failure)).Writes bound (finishWith () failure)
      (withSets kind bound sets) (notes ++ ([] ++ [])) by
    rwa [List.append_nil, List.append_nil] at hwhole
  refine .state_bind ((writes_forM_note notes).bind (writes_setState.bind ?_))
  cases failure with
  | none => exact writes_pure ()
  | some failure => exact writes_throw failure

/-- Splitting the sets of a kind child by child, or as a whole, is the same action. -/
theorem run_onPart_splitInPlace {extra : Nat} {children : Nat → List (Result Nat)}
    (hfits : ∀ member, FitsRoom extra (children member)) (kind : Kind) (noteOf : Nat → Note)
    (bound : Bound M) (notes : List Note) :
    (onPart (setsOf kind) (withSets kind) (splitInPlace extra children noteOf)).run
        ⟨bound, notes⟩ =
      (applySplit kind (splitSets (extra + 1) children noteOf (setsOf kind bound))).run
        ⟨bound, notes⟩ := by
  have hloops : (splitInPlace extra children noteOf).Writes (setsOf kind bound) _ _ _ :=
    splitInPlace_writes (fun _ _ member _ => hfits member) noteOf
  have hwhole := applySplit_writes kind
    (splitSets (extra + 1) children noteOf (setsOf kind bound)).1
    (splitSets (extra + 1) children noteOf (setsOf kind bound)).2.1
    (splitSets (extra + 1) children noteOf (setsOf kind bound)).2.2 bound
  exact (hloops.onPart (withSets kind) notes).trans (hwhole notes).symm

/-- Replace old elements by their children, child by child. -/
def splitElementSetsInPlace (size : Nat) : Action (Bound M) Unit := do
  let bound ← Action.state
  Action.note (.splitElements size bound.catalog.elementCount)
  .onPart (setsOf .element) (withSets .element) <|
    bound.catalog.splitElementsInPlace (size - 1)

/-- Element sets that are split child by child, or as a whole, end alike and with the same note.
Only a number that is too large leaves them changed in part. -/
theorem splitElementSetsInPlace_alike (extra : Nat) (bound : Bound M) :
    ∃ outcome after left notes,
      (splitElementSets (extra + 1)).Writes bound outcome after notes ∧
        (splitElementSetsInPlace (extra + 1)).Writes bound outcome left notes ∧
        (outcome = .ok () → left = after) := by
  have hsplit := bound.catalog.splitElementSets_eq_finishWith extra
  have hloops := bound.catalog.splitElementsInPlace_writes extra (setsOf .element bound)
  have hsets : setsOf .element bound = bound.catalog.sets.element := rfl
  have hnote : (note (.splitElements (extra + 1) bound.catalog.elementCount)).Writes bound (.ok ())
      bound [.splitElements (extra + 1) bound.catalog.elementCount] := writes_note _
  rw [bound.catalog.notes_splitElements] at hloops
  have hinPlace : (splitElementSetsInPlace (extra + 1)).Writes bound _ _
      ([.splitElements (extra + 1) bound.catalog.elementCount] ++ []) :=
    .state_bind (hnote.bind (hloops.onPart (withSets .element)))
  rw [hsets] at hinPlace
  cases hfailure : (bound.catalog.splitElements extra bound.catalog.sets.element).2.2 with
  | some failure =>
      rw [hfailure] at hsplit hinPlace
      refine ⟨.error failure, bound, _, _, .state_bind (hnote.bind ?_), hinPlace, nofun⟩
      rw [hsplit]
      exact (writes_throw failure).bind_error
  | none =>
      rw [hfailure] at hsplit hinPlace
      refine ⟨.ok (), _, _, _, .state_bind (hnote.bind ?_), hinPlace, fun _ => rfl⟩
      rw [hsplit]
      exact writes_setState

variable [Connectivity M]

/-- Replace old edges by their halves, child by child. -/
def splitEdgeSetsInPlace : Action (Bound M) Unit := do
  let { catalog, mesh } ← Action.state
  if 0 < catalog.sets.count .edge then
    let edges ← Action.ofResult (Connectivity.edges mesh)
    match catalog.tables.edgeVertex with
    | none => throw (.refused (.missingTables [.edgeVertex]))
    | some edgeVertex =>
      .onPart (setsOf .edge) (withSets .edge) <|
        splitInPlace 1 (catalog.edgeChildren edgeVertex edges) .splitEdges

/-- Replace old faces by their quarters, child by child. -/
def splitFaceSetsInPlace : Action (Bound M) Unit := do
  let { catalog, mesh } ← Action.state
  if 0 < catalog.sets.count .face then
    let faces ← Action.ofResult (Connectivity.faces mesh)
    let firstCenter ← Action.ofResult (addWords catalog.vertexCount catalog.edgeCount)
    match catalog.tables.faceVertex, catalog.tables.faceEdge with
    | some faceVertex, some faceEdge =>
      .onPart (setsOf .face) (withSets .face) <|
        splitInPlace 3 (catalog.faceChildren faceVertex faceEdge faces firstCenter) .splitFaces
    | _, _ => throw (.refused (.missingTables [.faceVertex, .faceEdge]))

theorem splitEdgeSetsInPlace_eq :
    (splitEdgeSetsInPlace : Action (Bound M) Unit) = splitEdgeSets := by
  refine state_bind_congr fun bound notes => ?_
  obtain ⟨catalog, mesh⟩ := bound
  dsimp only
  split
  · cases Connectivity.edges mesh with
    | error failure => rfl
    | ok edges =>
        rw [ofResult_ok_bind, ofResult_ok_bind]
        cases catalog.tables.edgeVertex with
        | none => rfl
        | some edgeVertex =>
            exact run_onPart_splitInPlace (catalog.fitsRoom_edgeChildren edgeVertex edges) .edge
              .splitEdges ⟨catalog, mesh⟩ notes
  · rfl

theorem splitFaceSetsInPlace_eq :
    (splitFaceSetsInPlace : Action (Bound M) Unit) = splitFaceSets := by
  refine state_bind_congr fun bound notes => ?_
  obtain ⟨catalog, mesh⟩ := bound
  dsimp only
  split
  · cases Connectivity.faces mesh with
    | error failure => rfl
    | ok faces =>
        rw [ofResult_ok_bind, ofResult_ok_bind]
        cases addWords catalog.vertexCount catalog.edgeCount with
        | error failure => rfl
        | ok firstCenter =>
            rw [ofResult_ok_bind, ofResult_ok_bind]
            cases catalog.tables.faceVertex with
            | none => rfl
            | some faceVertex =>
                cases catalog.tables.faceEdge with
                | none => rfl
                | some faceEdge =>
                    exact run_onPart_splitInPlace
                      (catalog.fitsRoom_faceChildren faceVertex faceEdge faces firstCenter) .face
                      .splitFaces ⟨catalog, mesh⟩ notes
  · rfl

end Bound

end MeshIncidence
