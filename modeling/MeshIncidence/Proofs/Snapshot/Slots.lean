/-
# What a snapshot keeps

A snapshot of a bound catalog keeps every set under its name and every member in as many slots
as its kind has. Slots that follow each other without a mark between the members can be told
apart therefore. An edge is kept by the two vertices of its row, a triangle by the three of its
row with the last slot left empty.

A quadrilateral is kept by the vertices of its row in some order, the first one first. Its row
need not be in sequence. But among four corners around which a lineage shows just four edges,
each corner is joined to two others and has one opposite, so looking at two pairs of corners is
enough to find the corner opposite to the first one. The order in which the corners are kept
then goes around.

Projecting finds every slot filled that it needs. It can fail only where binding fails.
-/

import MeshIncidence.Proofs.Snapshot.Stillness

namespace MeshIncidence

section Cycles

/-- The corners that a cycle of four has not next to each other. -/
def Opposite (cycle : List Nat) (first second : Nat) : Prop :=
  ∃ p q r s, cycle = [p, q, r, s] ∧ (first, second) ∈ [(p, r), (q, s), (r, p), (s, q)]

namespace Opposite

variable {cycle : List Nat} {first second third : Nat}

theorem symm (hopposite : Opposite cycle first second) : Opposite cycle second first := by
  obtain ⟨p, q, r, s, rfl, hmember⟩ := hopposite
  refine ⟨p, q, r, s, rfl, ?_⟩
  simp only [List.mem_cons, List.not_mem_nil, or_false, Prod.mk.injEq] at hmember ⊢
  omega

theorem unique (hopposite : Opposite cycle first second) (hnodup : cycle.Nodup)
    (hother : Opposite cycle first third) : second = third := by
  obtain ⟨p, q, r, s, rfl, hmember⟩ := hopposite
  obtain ⟨_, _, _, _, hsame, hthird⟩ := hother
  simp only [List.cons.injEq, and_true] at hsame
  obtain ⟨rfl, rfl, rfl, rfl⟩ := hsame
  simp only [List.mem_cons, List.not_mem_nil, or_false, Prod.mk.injEq, List.nodup_cons] at *
  omega

end Opposite

namespace Lineage

variable (lineage : Lineage)

/-- Between different vertices of a row the lineage shows an edge just where the cycle has a
side, and it does so from both ends. -/
structure ShowsCycle (row cycle : List Nat) : Prop where
  perm : cycle.Perm row
  isSome_joins_iff : ∀ first ∈ row, ∀ second ∈ row, first ≠ second →
    ((lineage.joins first second).isSome ↔
      (first, second) ∈ sides cycle ∨ (second, first) ∈ sides cycle)

variable {lineage} {row cycle : List Nat}

namespace ShowsCycle

variable (hshown : lineage.ShowsCycle row cycle) (hlength : row.length = 4) (hnodup : row.Nodup)
include hshown hlength hnodup

/-- The corners without an edge between them are the opposite ones. -/
theorem isNone_joins_iff {first second : Nat} (hfirst : first ∈ row) (hsecond : second ∈ row)
    (hne : first ≠ second) :
    (lineage.joins first second).isNone ↔ Opposite cycle first second := by
  rw [← Option.not_isSome, Bool.not_eq_true', ← Bool.not_eq_true,
    hshown.isSome_joins_iff first hfirst second hsecond hne]
  rw [← hshown.perm.mem_iff] at hfirst hsecond
  rw [← hshown.perm.nodup_iff] at hnodup
  obtain ⟨p, q, r, s, rfl⟩ := List.length_eq_four.mp (hshown.perm.length_eq.trans hlength)
  simp only [Opposite, sides, List.drop, List.take, List.zip, List.zipWith, List.cons_append,
    List.nil_append, List.mem_cons, List.not_mem_nil, or_false, Prod.mk.injEq, List.nodup_cons,
    List.cons.injEq, and_true] at *
  grind

/-- Between two opposite corners, the way around leads over the other two. -/
theorem joins_around {a b c d : Nat} (hperm : [a, b, c, d].Perm row)
    (hopposite : Opposite cycle a c) :
    ∀ side ∈ sides [a, b, c, d], (lineage.joins side.1 side.2).isSome := by
  have hcycle := hshown.perm.nodup_iff.mpr hnodup
  have hfour := hperm.nodup_iff.mpr hnodup
  simp only [List.nodup_cons, List.mem_cons, List.not_mem_nil, or_false, not_or] at hfour
  have hjoined {first second : Nat} (hfirst : first ∈ [a, b, c, d])
      (hsecond : second ∈ [a, b, c, d]) (hne : first ≠ second)
      (hnot : ¬Opposite cycle first second) : (lineage.joins first second).isSome :=
    Option.isSome_iff_ne_none.mpr fun hnone => hnot <|
      (hshown.isNone_joins_iff hlength hnodup (hperm.mem_iff.mp hfirst) (hperm.mem_iff.mp hsecond)
        hne).mp (Option.isNone_iff_eq_none.mpr hnone)
  intro side hside
  simp only [sides, List.drop, List.take, List.zip, List.zipWith, List.cons_append,
    List.nil_append, List.mem_cons, List.not_mem_nil, or_false] at hside
  rcases hside with rfl | rfl | rfl | rfl
  · exact hjoined (by simp) (by simp) (by omega) fun hab =>
      hfour.2.1.1 (hab.unique hcycle hopposite)
  · exact hjoined (by simp) (by simp) (by omega) fun hbc =>
      hfour.1.1 (hopposite.symm.unique hcycle hbc.symm)
  · exact hjoined (by simp) (by simp) (by omega) fun hcd =>
      hfour.1.2.2 (hopposite.symm.unique hcycle hcd)
  · exact hjoined (by simp) (by simp) (by omega) fun hda =>
      hfour.2.2.1 (hopposite.unique hcycle hda.symm)

theorem exists_opposite {first : Nat} (hfirst : first ∈ row) :
    ∃ second ∈ row, second ≠ first ∧ Opposite cycle first second := by
  simp only [← hshown.perm.mem_iff] at hfirst ⊢
  rw [← hshown.perm.nodup_iff] at hnodup
  obtain ⟨p, q, r, s, rfl⟩ := List.length_eq_four.mp (hshown.perm.length_eq.trans hlength)
  simp only [List.nodup_cons, List.mem_cons, List.not_mem_nil, or_false, not_or] at hnodup hfirst
  rcases hfirst with rfl | rfl | rfl | rfl
  · exact ⟨r, by simp, by omega, _, q, r, s, rfl, by simp⟩
  · exact ⟨s, by simp, by omega, p, _, r, s, rfl, by simp⟩
  · exact ⟨p, by simp, by omega, p, q, _, s, rfl, by simp⟩
  · exact ⟨q, by simp, by omega, p, q, r, _, rfl, by simp⟩

/-- Where a lineage shows a cycle, the corners are kept in an order that goes around. -/
theorem joins_cornerOrder :
    ∀ side ∈ sides (lineage.cornerOrder row), (lineage.joins side.1 side.2).isSome := by
  have hkept := lineage.cornerOrder_perm row
  have haround {a b c d : Nat} (hperm : [a, b, c, d].Perm row) :=
    hshown.joins_around hlength hnodup hperm
  obtain ⟨a, b, c, d, rfl⟩ := List.length_eq_four.mp hlength
  have hmissing {corner : Nat} (hcorner : corner ∈ [a, b, c, d]) (hne : corner ≠ a) :
      (lineage.joins a corner).isNone ↔ Opposite cycle a corner :=
    hshown.isNone_joins_iff hlength hnodup List.mem_cons_self hcorner hne.symm
  obtain ⟨far, hfar, hne, hacross⟩ := hshown.exists_opposite hlength hnodup List.mem_cons_self
  simp only [List.nodup_cons, List.mem_cons, List.not_mem_nil, or_false, not_or] at hnodup
  simp only [cornerOrder] at hkept ⊢
  split_ifs at hkept ⊢ with hb hd
  · exact haround hkept ((hmissing (by simp) (by omega)).mp hb)
  · exact haround hkept ((hmissing (by simp) (by omega)).mp hd)
  · have hcross : far = c := by
      have hnotb : far ≠ b := fun hfarb => hb (hfarb ▸ (hmissing hfar hne).mpr hacross)
      have hnotd : far ≠ d := fun hfard => hd (hfard ▸ (hmissing hfar hne).mpr hacross)
      simp only [List.mem_cons, List.not_mem_nil, or_false] at hfar
      omega
    exact haround hkept (hcross ▸ hacross)

end ShowsCycle

end Lineage

end Cycles

namespace Lineage

variable (lineage : Lineage)

/-- The slots in which the vertices of a face may be kept. -/
inductive KeepsFace : List Nat → List (Option Nat) → Prop
  | triangle (a b c : Nat) : KeepsFace [a, b, c] [some a, some b, some c, none]
  | quadrilateral (row corners : List Nat) (hlength : row.length = 4) (hperm : corners.Perm row)
      (hhead : corners.head? = row.head?)
      (haround : row.Nodup → ∀ cycle, lineage.ShowsCycle row cycle →
        ∀ side ∈ sides corners, (lineage.joins side.1 side.2).isSome) :
      KeepsFace row (corners.map some)

theorem head?_cornerOrder (vertices : List Nat) :
    (lineage.cornerOrder vertices).head? = vertices.head? := by
  unfold cornerOrder
  split
  · split_ifs <;> rfl
  · rfl

/-- The slots of a face are those of its corners in the order in which they are kept. -/
theorem keepsFace_cornerOrder {row : List Nat} (hface : IsFace row) :
    lineage.KeepsFace row ((List.range 4).map fun place => (lineage.cornerOrder row)[place]?) := by
  have hperm := lineage.cornerOrder_perm row
  rcases hface with hlength | hlength
  · obtain ⟨a, b, c, rfl⟩ := List.length_eq_three.mp hlength
    exact .triangle a b c
  · have hslots : (List.range 4).map (fun place => (lineage.cornerOrder row)[place]?) =
        (lineage.cornerOrder row).map some := by
      obtain ⟨a, b, c, d, hcorners⟩ := List.length_eq_four.mp (hperm.length_eq.trans hlength)
      rw [hcorners]
      rfl
    rw [hslots]
    exact .quadrilateral row _ hlength hperm (lineage.head?_cornerOrder row)
      fun hnodup _ hshown => hshown.joins_cornerOrder hlength hnodup

/-- What the entity in some slots has become. -/
def ofSlots : Kind → List (Option Nat) → List Nat
  | .vertex, [some vertex] => [vertex]
  | .edge, [some first, some second] => lineage.edges first second
  | .face, [some first, some second, some third, fourth] => lineage.faces first second third fourth
  | .element, [some element] => lineage.elements element
  | _, _ => []

/-- No slot is missing that is asked for. -/
theorem descendants_slots {mesh : ElementMesh} (other : Lineage) {kind : Kind} {member : Nat}
    (hmember : member < mesh.entityCount kind) (position entity : Nat) :
    Snapshot.descendants other kind position entity (lineage.slots mesh kind member) =
      .ok (other.ofSlots kind (lineage.slots mesh kind member)) := by
  cases kind with
  | vertex => rfl
  | edge => rfl
  | face =>
      have hlt : member < mesh.faceRows.length := mesh.length_faceRows ▸ hmember
      have hrow := List.getElem?_eq_getElem hlt
      have hface := ElementMesh.isFace_of_mem_faceRows (List.mem_of_getElem? hrow)
      have hkept := lineage.keepsFace_cornerOrder hface
      rw [slots, List.getD_eq_getElem?_getD, hrow, Option.getD_some]
      generalize (List.range 4).map _ = slots at hkept
      generalize mesh.faceRows[member] = row at hkept
      cases hkept with
      | triangle a b c => rfl
      | quadrilateral _ corners hlength hperm _ _ =>
          obtain ⟨a, b, c, d, rfl⟩ := List.length_eq_four.mp (hperm.length_eq.trans hlength)
          rfl
  | element => rfl

end Lineage

namespace Action

variable {σ α β : Type}

/-- The action may refuse its input with some errors only. -/
def RefusesOnly (action : Action σ α) (allowed : Error → Prop) : Prop :=
  ∀ logged error reached, action.run logged = .error (.refused error) reached → allowed error

variable {allowed : Error → Prop}

theorem refusesOnly_ofResult {outcome : Result α}
    (houtcome : ∀ error, outcome = refuse error → allowed error) :
    (ofResult outcome : Action σ α).RefusesOnly allowed := by
  intro logged error reached hrefused
  cases outcome with
  | ok value => exact absurd hrefused nofun
  | error failure =>
      obtain ⟨rfl, -⟩ := EStateM.Result.error.inj hrefused
      exact houtcome error rfl

theorem refusesOnly_pure (value : α) : (pure value : Action σ α).RefusesOnly allowed :=
  fun _ _ _ => nofun

theorem refusesOnly_state : (state : Action σ σ).RefusesOnly allowed := fun _ _ _ => nofun

theorem refusesOnly_setState (new : σ) : (setState new : Action σ Unit).RefusesOnly allowed :=
  fun _ _ _ => nofun

theorem refusesOnly_note (message : Note) : (note message : Action σ Unit).RefusesOnly allowed :=
  fun _ _ _ => nofun

theorem RefusesOnly.bind {action : Action σ α} {next : α → Action σ β}
    (hfirst : action.RefusesOnly allowed) (hnext : ∀ value, (next value).RefusesOnly allowed) :
    (action >>= next).RefusesOnly allowed := by
  intro logged error reached hrefused
  rw [EStateM.run_bind] at hrefused
  cases hrun : action.run logged with
  | ok value middle =>
      rw [hrun] at hrefused
      exact hnext value middle error reached hrefused
  | error failure middle =>
      rw [hrun] at hrefused
      obtain ⟨rfl, rfl⟩ := EStateM.Result.error.inj hrefused
      exact hfirst logged error middle hrun

theorem RefusesOnly.of_perform {action : Action σ α} (hrefuses : action.RefusesOnly allowed)
    {start : σ} {error : Error} (hrefused : (action.perform start).1 = refuse error) :
    allowed error := by
  cases hrun : action.run ⟨start, []⟩ with
  | ok value reached => simp [perform, hrun, refuse] at hrefused
  | error failure reached =>
      have hsame : failure = .refused error := by simpa [perform, hrun, refuse] using hrefused
      exact hrefuses _ error reached (hsame ▸ hrun)

end Action

/-- A data structure that contradicts itself is no reason to refuse the input. -/
theorem insist_ne_refuse (defect : Option Error) (error : Error) : insist defect ≠ refuse error := by
  cases defect <;> simp [insist, refuse]

namespace Bound

section Refusals

variable {M : Type} [Connectivity M]

/-- A mesh refuses with this error to hand a table over. -/
def MeshRefuses (M : Type) [Connectivity M] (error : Error) : Prop :=
  ∃ (which : DerivedTable) (mesh : M), Connectivity.handOver which mesh = refuse error

theorem refusesOnly_setTable (which : DerivedTable) (table : Option IncidenceTable) :
    (setTable which table : Action (Bound M) Unit).RefusesOnly (MeshRefuses M) :=
  Action.refusesOnly_state.bind fun _ => Action.refusesOnly_setState _

theorem refusesOnly_renewTable (needed : Bool) (which : DerivedTable) :
    (renewTable needed which : Action (Bound M) Unit).RefusesOnly (MeshRefuses M) := by
  have hobtain : (obtain which : Action (Bound M) _).RefusesOnly (MeshRefuses M) := by
    refine Action.refusesOnly_state.bind fun bound => ?_
    split
    · exact Action.refusesOnly_pure _
    · refine (Action.refusesOnly_note _).bind fun _ => Action.RefusesOnly.bind ?_ fun _ =>
        (Action.refusesOnly_setState _).bind fun _ => Action.refusesOnly_pure _
      exact Action.refusesOnly_ofResult fun error hrefused => ⟨which, bound.mesh, hrefused⟩
  cases needed with
  | false => exact refusesOnly_setTable which none
  | true => exact hobtain.bind fun table => refusesOnly_setTable which (some table)

/-- Binding refuses only what the mesh refuses. -/
theorem refusesOnly_rebind : (rebind : Action (Bound M) Unit).RefusesOnly (MeshRefuses M) := by
  refine Action.refusesOnly_state.bind fun _ => ?_
  refine (refusesOnly_renewTable _ _).bind fun _ => ?_
  refine (refusesOnly_renewTable _ _).bind fun _ => ?_
  refine (refusesOnly_renewTable _ _).bind fun _ => ?_
  refine Action.refusesOnly_state.bind fun _ => ?_
  exact (Action.refusesOnly_setState _).bind fun _ => Action.refusesOnly_ofResult
    fun error hrefused => absurd hrefused (insist_ne_refuse _ error)

theorem refusesOnly_project {lineage : Lineage} {snapshot : Snapshot} {sets : SetsByKind Nat}
    (hprojected : snapshot.projected lineage = .ok sets) :
    (project lineage snapshot : Action (Bound M) Unit).RefusesOnly (MeshRefuses M) := by
  refine Action.refusesOnly_state.bind fun _ => Action.RefusesOnly.bind ?_ fun _ =>
    (Action.refusesOnly_setState _).bind fun _ => refusesOnly_rebind
  exact Action.refusesOnly_ofResult fun error hrefused =>
    absurd (hprojected.symm.trans hrefused) nofun

end Refusals

end Bound

namespace Snapshot

/-- The snapshot has the sets of the catalog with all members, each by its vertices. -/
structure KeepsMembers (snapshot : Snapshot) (catalog : SetCatalog) (lineage : Lineage) : Prop where
  names_eq : ∀ kind, (snapshot.sets.get kind).map NamedSet.name =
    (catalog.sets.get kind).map NamedSet.name
  /-- The slots are divided among as many members as the set has, and none is left over. -/
  size_eq : ∀ kind position set, catalog.sets.setAt kind position = .ok set →
    snapshot.memberCount kind position = .ok set.members.length ∧
      ∃ strip, snapshot.sets.setAt kind position = .ok strip ∧
        strip.members.length = set.members.length * kind.slotCount
  /-- A member has the slots that follow those of the members before it. -/
  slice_eq : ∀ kind position strip index slots, snapshot.sets.setAt kind position = .ok strip →
    snapshot.slotsAt kind position index = .ok slots →
      (strip.members.drop (index * kind.slotCount)).take kind.slotCount = slots
  vertex : ∀ position index vertex, catalog.sets.memberAt .vertex position index = .ok vertex →
    snapshot.slotsAt .vertex position index = .ok [some vertex]
  edge : ∀ position index edge, catalog.sets.memberAt .edge position index = .ok edge →
    ∃ table first second, catalog.tables.edgeVertex = some table ∧
      table.row edge = .ok [first, second] ∧
      snapshot.slotsAt .edge position index = .ok [some first, some second]
  face : ∀ position index face, catalog.sets.memberAt .face position index = .ok face →
    ∃ table row slots, catalog.tables.faceVertex = some table ∧ table.row face = .ok row ∧
      snapshot.slotsAt .face position index = .ok slots ∧ lineage.KeepsFace row slots
  element : ∀ position index element, catalog.sets.memberAt .element position index = .ok element →
    snapshot.slotsAt .element position index = .ok [some element]

/-- Projecting the snapshot finds all slots, whatever lineage and mesh it is given. -/
structure IsProjectable (snapshot : Snapshot) : Prop where
  projected_eq : ∀ lineage : Lineage, snapshot.projected lineage =
    .ok (snapshot.slotted.mapMembers fun kind members => members.flatMap (lineage.ofSlots kind))
  /-- If it is refused, then the mesh has refused a table with that error. -/
  refuses : ∀ {M : Type} [Connectivity M] (lineage : Lineage) (bound : Bound M) (error : Error),
    ((Bound.project lineage snapshot).perform bound).1 = refuse error → Bound.MeshRefuses M error
  /-- A mesh that came about properly does not refuse. -/
  ne_refuse : ∀ (lineage : Lineage) (bound : Bound ElementMesh) (error : Error),
    bound.mesh.Reachable → ((Bound.project lineage snapshot).perform bound).1 ≠ refuse error

variable {mesh : ElementMesh} {sets : SetsByKind Nat} {lineage : Lineage}

theorem slotted_keeping_slots : (keeping sets (lineage.slots mesh)).slotted =
    sets.mapMembers fun kind members => members.map (lineage.slots mesh kind) :=
  slotted_keeping fun kind _ _ member _ => lineage.length_slots mesh kind member

/-- A snapshot counts members as the sets do. -/
theorem memberCount_keeping (kind : Kind) (position : Nat) :
    (keeping sets (lineage.slots mesh)).memberCount kind position =
      (sets.setAt kind position).map fun set => set.members.length := by
  rw [memberCount_eq, slotted_keeping_slots, SetsByKind.setAt_mapMembers]
  cases sets.setAt kind position with
  | error failure => rfl
  | ok set => exact congrArg Except.ok (List.length_map _)

/-- A snapshot has the slots of a member where the sets have the member. -/
theorem slotsAt_keeping (kind : Kind) (position index : Nat) :
    (keeping sets (lineage.slots mesh)).slotsAt kind position index =
      (sets.memberAt kind position index).map (lineage.slots mesh kind) := by
  rw [slotsAt_eq, slotted_keeping_slots, SetsByKind.memberAt_mapMembers]

theorem slotsAt_of_memberAt {kind : Kind} {position index member : Nat}
    (hmember : sets.memberAt kind position index = .ok member) :
    (keeping sets (lineage.slots mesh)).slotsAt kind position index =
      .ok (lineage.slots mesh kind member) := by
  rw [slotsAt_keeping, hmember]
  rfl

end Snapshot

theorem SetsByKind.InRange.memberAt_lt {mesh : ElementMesh} {sets : SetsByKind Nat}
    (hrange : sets.InRange mesh) {kind : Kind} {position index member : Nat}
    (hmember : sets.memberAt kind position index = .ok member) :
    0 < sets.count kind ∧ member < mesh.entityCount kind := by
  obtain ⟨set, hset, hindex⟩ := SetsByKind.memberAt_eq_ok_iff.mp hmember
  have hin := List.mem_of_getElem? (SetsByKind.setAt_eq_ok_iff.mp hset)
  exact ⟨List.length_pos_of_mem hin, hrange kind set hin member (List.mem_of_getElem? hindex)⟩

namespace Snapshot

variable {mesh : ElementMesh} {sets : SetsByKind Nat}

theorem keepsMembers_keeping (lineage : Lineage) (hrange : sets.InRange mesh) :
    (keeping sets (lineage.slots mesh)).KeepsMembers (.boundTo sets mesh) lineage := by
  constructor
  case names_eq =>
    intro kind
    rw [keeping, SetsByKind.get_mapMembers, List.map_map]
    rfl
  case size_eq =>
    intro kind position set hset
    have hset : sets.setAt kind position = .ok set := hset
    have hsized : ∀ slots ∈ set.members.map (lineage.slots mesh kind),
        slots.length = kind.slotCount :=
      List.forall_mem_map.mpr fun member _ => lineage.length_slots mesh kind member
    refine ⟨by rw [memberCount_keeping, hset]; rfl,
      ⟨set.name, set.members.flatMap (lineage.slots mesh kind)⟩, ?_, ?_⟩
    · rw [keeping, SetsByKind.setAt_mapMembers, hset]
      rfl
    · rw [List.flatMap_def, length_flatten_of_size hsized, List.length_map]
  case slice_eq =>
    intro kind position strip index slots hstrip hslots
    rw [slotsAt, hstrip, Result.ok_bind, Kind.slotsIn] at hslots
    split at hslots
    · exact Except.ok.inj hslots
    · cases hslots
  case vertex => exact fun _ _ _ hvertex => slotsAt_of_memberAt hvertex
  case edge =>
    intro position index edge hedge
    obtain ⟨hcount, hlt⟩ := hrange.memberAt_lt hedge
    have hends := List.getElem?_eq_getElem (l := mesh.edgeKeys) hlt
    have htable : (SetCatalog.boundTo sets mesh).tables.get .edgeVertex = _ :=
      SetCatalog.tables_get_boundTo hcount List.mem_cons_self
    refine ⟨_, _, _, htable, ElementMesh.row_edgeVertex hends, ?_⟩
    refine (slotsAt_of_memberAt hedge).trans ?_
    rw [Lineage.slots, List.getD_eq_getElem?_getD, hends]
    rfl
  case face =>
    intro position index face hface
    obtain ⟨hcount, hlt⟩ := hrange.memberAt_lt hface
    have hrow := List.getElem?_eq_getElem (l := mesh.faceRows)
      (hlt.trans_eq mesh.length_faceRows.symm)
    have htable : (SetCatalog.boundTo sets mesh).tables.get .faceVertex = _ :=
      SetCatalog.tables_get_boundTo hcount List.mem_cons_self
    refine ⟨_, _, _, htable, ElementMesh.row_faceVertex hrow, slotsAt_of_memberAt hface, ?_⟩
    rw [Lineage.slots, List.getD_eq_getElem?_getD, hrow]
    exact lineage.keepsFace_cornerOrder
      (ElementMesh.isFace_of_mem_faceRows (List.mem_of_getElem? hrow))
  case element => exact fun _ _ _ helement => slotsAt_of_memberAt helement

theorem isProjectable_keeping (lineage : Lineage) (hrange : sets.InRange mesh) :
    (keeping sets (lineage.slots mesh)).IsProjectable := by
  have hprojected (other : Lineage) :
      (keeping sets (lineage.slots mesh)).projected other =
        .ok ((keeping sets (lineage.slots mesh)).slotted.mapMembers fun kind members =>
          members.flatMap (other.ofSlots kind)) := by
    rw [projected_keeping (fun kind _ _ member _ => lineage.length_slots mesh kind member)
      fun kind set hset member hmember =>
        lineage.descendants_slots other (hrange kind set hset member hmember),
      slotted_keeping_slots]
    simp only [SetsByKind.mapMembers, PerKind.get, List.map_map, List.flatMap_map,
      Function.comp_def]
  constructor
  case projected_eq => exact hprojected
  case refuses =>
    intro M _ other bound error hrefused
    exact (Bound.refusesOnly_project (hprojected other)).of_perform hrefused
  case ne_refuse =>
    rintro other ⟨before, target⟩ error hmesh hrefused
    obtain ⟨notes, hshown⟩ := (Bound.project_ends hmesh.sound (hprojected other) before).perform
    rw [hshown] at hrefused
    exact insist_ne_refuse _ error hrefused

end Snapshot

namespace Bound

/-- Of a bound catalog a snapshot can be taken with any lineage. It keeps every member by its
vertices, and whatever it is projected onto, no slot is missing. -/
theorem capture_keepsMembers {mesh : ElementMesh} {catalog : SetCatalog} (hmesh : mesh.Reachable)
    (hbound : IsBound ⟨catalog, mesh⟩) (lineage : Lineage) :
    ∃ snapshot, (Snapshot.capture catalog lineage).Runs () snapshot () ∧
      snapshot.KeepsMembers catalog lineage ∧ snapshot.IsProjectable := by
  obtain ⟨hcatalog, hrange⟩ := (isBound_iff hmesh.sound).mp hbound
  have hcapture : (Snapshot.capture (.boundTo catalog.sets mesh) lineage).Runs () _ () :=
    Snapshot.capture_runs hrange
  have hkeeps := Snapshot.keepsMembers_keeping lineage hrange
  rw [← hcatalog] at hcapture hkeeps
  exact ⟨_, hcapture, hkeeps, Snapshot.isProjectable_keeping lineage hrange⟩

/-- A lineage that shows the edges of a mesh shows the cycle around a face. -/
theorem capture_keepsMembers_shrunkHexahedron :
    let mesh := ElementMesh.shrunkHexahedron
    let lineage := Lineage.still mesh mesh.edgeBetween?
    (∃ snapshot, (Snapshot.capture (.boundTo mixedSets mesh) lineage).Runs () snapshot () ∧
      snapshot.KeepsMembers (.boundTo mixedSets mesh) lineage ∧ snapshot.IsProjectable) ∧
      [3, 2, 1, 0].Nodup ∧ lineage.ShowsCycle [3, 2, 1, 0] [0, 1, 2, 3] := by
  have hmesh := ElementMesh.reachable_shrunkHexahedron
  have hrange : mixedSets.InRange ElementMesh.shrunkHexahedron := by
    intro kind
    cases kind <;> decide
  exact ⟨capture_keepsMembers hmesh ((isBound_iff hmesh.sound).mpr ⟨rfl, hrange⟩) _, by decide,
    by decide, by decide⟩

end Bound

end MeshIncidence
