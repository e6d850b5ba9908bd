/-
# Counting what is read

A reader that counts what it reads goes through the same text in the same way as the reader
itself. `Tallied.Follows` relates the two: the outcome is the same, every set and every member
that was counted has taken a character of its own, and on success all members are good. It
holds whatever the counts in the text promise, since it is about what has been read and not
about what was announced.
-/

import MeshIncidence.Proofs.SetFile.Progress

namespace MeshIncidence

/-- A scan that counts some of what it reads. -/
abbrev Tallied (α : Type) := StateT (List Char) (ExceptT Failure (StateM Nat)) α

namespace Tallied

variable {α β : Type}

/-- Read a text after so many things have been counted: how reading ends, and how many have
been counted then. -/
def perform (counted : Tallied α) (text : List Char) (tally : Nat) :
    Result (α × List Char) × Nat :=
  counted text tally

/-- Read something that does not count. -/
def ofScan (scan : Scan α) : Tallied α := fun text tally => (scan.run text, tally)

/-- Read something, and count it once it has been read. -/
def once (scan : Scan α) : Tallied α := do
  let value ← ofScan scan
  modifyThe Nat (· + 1)
  return value

/-- Repeat a counted scan a number of times. -/
def times (counted : Tallied α) : Nat → Tallied (List α)
  | 0 => return []
  | count + 1 => do
    let first ← counted
    let rest ← times counted count
    return first :: rest

/-- Read a set. The set counts when its name and its number of members have been read, and each
member counts. -/
def namedSet (kind : Kind) (member : Scan Nat) : Tallied (NamedSet Nat) := do
  ofScan Scan.blanks
  match ← ofScan Scan.line? with
  | none => ofScan (Scan.fail (.missing (.setName kind)))
  | some name =>
    let count ← once (Scan.word .entityCount)
    let members ← times (once member) count
    return ⟨String.ofList name, members⟩

variable {M : Type} [Connectivity M]

/-- Read the block of a kind. -/
def block (mesh : M) (kind : Kind) : Tallied (List (NamedSet Nat)) := do
  ofScan Scan.remarks
  ofScan (Scan.keyword kind.header)
  let count ← ofScan (Scan.word .setCount)
  if count = 0 then return []
  else
    let member ← ofScan (Scan.ofResult (Scan.member mesh kind))
    times (namedSet kind member) count

/-- Read the block of a kind if a file of the given dimension has one. -/
def blockOf (mesh : M) (dimension : Nat) (kind : Kind) : Tallied (List (NamedSet Nat)) :=
  if kind.hasBlock dimension then block mesh kind else return []

/-- Read all that follows the title of a set file. -/
def catalogSets (mesh : M) : Tallied (SetsByKind Nat) := do
  ofScan Scan.remarks
  ofScan (Scan.keyword dimensionKeyword)
  let dimension ← ofScan (Scan.word .dimension)
  let vertex ← blockOf mesh dimension .vertex
  let edge ← blockOf mesh dimension .edge
  let face ← blockOf mesh dimension .face
  let element ← blockOf mesh dimension .element
  return ⟨vertex, edge, face, element⟩

/-- The first scan that fails ends the reading, with what has been counted. -/
theorem perform_bind (counted : Tallied α) (next : α → Tallied β) (text : List Char) (tally : Nat) :
    (counted >>= next).perform text tally =
      match counted.perform text tally with
      | (.ok (value, rest), reached) => (next value).perform rest reached
      | (.error failure, reached) => (.error failure, reached) := by
  have hunfold : (counted >>= next).perform text tally =
      (ExceptT.bindCont (fun read => next read.1 read.2) (counted.perform text tally).1
        (counted.perform text tally).2 : Result (β × List Char) × Nat) := rfl
  rw [hunfold]
  obtain ⟨failure | read, reached⟩ := counted.perform text tally <;> rfl

theorem perform_ofScan (scan : Scan α) (text : List Char) (tally : Nat) :
    (ofScan scan).perform text tally = (scan.run text, tally) := rfl

/-- The counted scan ends as the scan does. What it counts has taken characters, and on success
the value and the number counted are good. -/
def Follows (counted : Tallied α) (scan : Scan α) (good : α → Nat → Prop) : Prop :=
  ∀ text tally, ∃ more, counted.perform text tally = (scan.run text, tally + more) ∧
    more ≤ text.length ∧
      Result.Finds (fun read => good read.1 more ∧ EndsAfter more text read.2) (scan.run text)

namespace Follows

variable {counted : Tallied α} {scan : Scan α} {good : α → Nat → Prop}

theorem mono {wider : α → Nat → Prop} (hfollows : counted.Follows scan good)
    (hwider : ∀ value more, good value more → wider value more) : counted.Follows scan wider := by
  intro text tally
  obtain ⟨more, hperform, hlength, hfinds⟩ := hfollows text tally
  exact ⟨more, hperform, hlength, hfinds.mono fun _ hread => ⟨hwider _ _ hread.1, hread.2⟩⟩

theorem pure {value : α} (hgood : good value 0) : Follows (pure value) (pure value) good :=
  fun text _ => ⟨0, rfl, Nat.zero_le _, hgood, EndsAfter.refl text⟩

theorem ofScan {least : Nat} {best : α → Prop} (htakes : scan.TakesAtLeast least best) :
    (ofScan scan).Follows scan fun value more => best value ∧ more = 0 :=
  fun text _ => ⟨0, rfl, Nat.zero_le _, (htakes text).mono fun _ hread =>
    ⟨⟨hread.1, rfl⟩, EndsAfter.of_isSuffix hread.2.isSuffix⟩⟩

/-- What takes a character may count. -/
theorem once {best : α → Prop} (htakes : scan.TakesAtLeast 1 best) :
    (once scan).Follows scan fun value more => best value ∧ more = 1 := by
  intro text tally
  have hfinds := htakes text
  cases hrun : scan.run text with
  | error failure =>
      rw [hrun] at hfinds
      refine ⟨0, ?_, Nat.zero_le _, hfinds⟩
      rw [Tallied.once, perform_bind, perform_ofScan, hrun]
      rfl
  | ok read =>
      rw [hrun] at hfinds
      have hlength := hfinds.2.length_le
      refine ⟨1, ?_, by omega, ⟨hfinds.1, rfl⟩, hfinds.2⟩
      rw [Tallied.once, perform_bind, perform_ofScan, hrun]
      rfl

theorem bind {next : α → Tallied β} {nextScan : α → Scan β} {best : β → Nat → Prop}
    (hfirst : counted.Follows scan good)
    (hnext : ∀ value more, good value more →
      (next value).Follows (nextScan value) fun result rest => best result (more + rest)) :
    (counted >>= next).Follows (scan >>= nextScan) best := by
  intro text tally
  obtain ⟨more, hperform, hlength, hfinds⟩ := hfirst text tally
  rw [StateT.run_bind]
  cases hrun : scan.run text with
  | error failure =>
      rw [hrun] at hperform hfinds
      refine ⟨more, ?_, hlength, hfinds⟩
      rw [perform_bind, hperform]
      rfl
  | ok read =>
      rw [hrun] at hperform hfinds
      obtain ⟨rest, hlast, hshort, hfound⟩ := hnext read.1 more hfinds.1 read.2 (tally + more)
      have hends := hfinds.2.length_le
      refine ⟨more + rest, ?_, by omega, ?_⟩
      · rw [perform_bind, hperform, Result.ok_bind, ← Nat.add_assoc, ← hlast]
      · rw [Result.ok_bind]
        exact hfound.mono fun _ hread => ⟨hread.1, hfinds.2.trans hread.2⟩

/-- What is repeated counts for each value that is read. -/
theorem times {best : α → Prop} {items : α → Nat}
    (hfollows : counted.Follows scan fun value more => best value ∧ more = items value)
    (count : Nat) : (times counted count).Follows (Scan.times scan count) fun values more =>
      (∀ value ∈ values, best value) ∧ more = (values.map items).sum := by
  induction count with
  | zero => exact pure ⟨by simp, rfl⟩
  | succ count ih =>
      refine hfollows.bind fun first early hfirst => ih.bind fun rest late hrest => pure ⟨?_, ?_⟩
      · exact List.forall_mem_cons.mpr ⟨hfirst.1, hrest.1⟩
      · rw [List.map_cons, List.sum_cons, ← hfirst.2, ← hrest.2, Nat.add_zero]

end Follows

end Tallied

/-- How much a set takes up of a file: itself and its members. -/
def NamedSet.itemCount (set : NamedSet Nat) : Nat := 1 + set.members.length

/-- Number of sets and members of all kinds. -/
def SetsByKind.itemCount (sets : SetsByKind Nat) : Nat :=
  (Kind.all.map fun kind => ((sets.get kind).map NamedSet.itemCount).sum).sum

namespace Tallied

variable {mesh : ElementMesh}

theorem follows_namedSet {member : Scan Nat} {limit : Nat}
    (hmember : member.TakesAtLeast 1 (· < limit)) (kind : Kind) :
    (namedSet kind member).Follows (Scan.namedSet kind member) fun set more =>
      (∀ member ∈ set.members, member < limit) ∧ more = set.itemCount := by
  refine (Follows.ofScan .blanks).bind fun _ blank hblank => ?_
  refine (Follows.ofScan .line?).bind fun name line hline => ?_
  cases name with
  | none =>
      have hfail : (Scan.fail (.missing (.setName kind)) : Scan (NamedSet Nat)).TakesAtLeast 0
          fun _ => False := .fail _
      exact (Follows.ofScan hfail).mono fun _ _ hnever => hnever.1.elim
  | some name =>
      refine (Follows.once (.value .entityCount readWord?)).bind fun count one hone => ?_
      refine ((Follows.once hmember).times count).bind fun members rest hrest => ?_
      refine .pure ⟨hrest.1, ?_⟩
      have hlength : (members.map fun _ => 1).sum = members.length := by simp
      rw [NamedSet.itemCount, ← hlength, ← hrest.2, hone.2, hline.2, hblank.2]
      omega

/-- The number of sets that a block promises is kept, or the text is refused before that. -/
theorem follows_block (hsound : mesh.Sound) (kind : Kind) :
    (block mesh kind).Follows (Scan.block mesh kind) fun sets more =>
      (∀ set ∈ sets, ∀ member ∈ set.members, member < mesh.entityCount kind) ∧
        more = (sets.map NamedSet.itemCount).sum := by
  obtain ⟨member, hmember, htakes⟩ := Scan.exists_memberScan hsound kind
  refine (Follows.ofScan .remarks).bind fun _ first hfirst => ?_
  refine (Follows.ofScan (.keyword kind.header)).bind fun _ second hsecond => ?_
  refine (Follows.ofScan (.value .setCount readWord?)).bind fun count third hthird => ?_
  rw [hfirst.2, hsecond.2, hthird.2]
  simp only [Nat.zero_add]
  split_ifs
  · exact .pure ⟨by simp, rfl⟩
  · rw [hmember]
    have hgiven : Scan.TakesAtLeast (Scan.ofResult (.ok member)) 0 (· = member) := .ofResult rfl
    refine (Follows.ofScan hgiven).bind fun found fourth hfound => ?_
    obtain ⟨rfl, rfl⟩ := hfound
    simp only [Nat.zero_add]
    exact (follows_namedSet htakes kind).times count

theorem follows_blockOf (hsound : mesh.Sound) (dimension : Nat) (kind : Kind) :
    (blockOf mesh dimension kind).Follows (Scan.blockOf mesh dimension kind) fun sets more =>
      (∀ set ∈ sets, ∀ member ∈ set.members, member < mesh.entityCount kind) ∧
        more = (sets.map NamedSet.itemCount).sum := by
  rw [blockOf, Scan.blockOf]
  split_ifs
  · exact follows_block hsound kind
  · exact .pure ⟨by simp, rfl⟩

/-- The counted reader of a set file counts the sets and members there are, and these are in
range. -/
theorem follows_catalogSets (hsound : mesh.Sound) :
    (catalogSets mesh).Follows (Scan.catalogSets mesh) fun sets more =>
      sets.InRange mesh ∧ more = sets.itemCount := by
  refine (Follows.ofScan .remarks).bind fun _ first hfirst => ?_
  refine (Follows.ofScan (.keyword dimensionKeyword)).bind fun _ second hsecond => ?_
  refine (Follows.ofScan (.value .dimension readWord?)).bind fun dimension third hthird => ?_
  refine (follows_blockOf hsound dimension .vertex).bind fun vertex vertices hvertex => ?_
  refine (follows_blockOf hsound dimension .edge).bind fun edge edges hedge => ?_
  refine (follows_blockOf hsound dimension .face).bind fun face faces hface => ?_
  refine (follows_blockOf hsound dimension .element).bind fun element elements helement => ?_
  refine .pure ⟨?_, ?_⟩
  · intro kind
    cases kind with
    | vertex => exact hvertex.1
    | edge => exact hedge.1
    | face => exact hface.1
    | element => exact helement.1
  · simp only [SetsByKind.itemCount, Kind.all, PerKind.get, List.map_cons, List.map_nil,
      List.sum_cons, List.sum_nil, hfirst.2, hsecond.2, hthird.2, hvertex.2, hedge.2, hface.2,
      helement.2]
    omega

end Tallied

end MeshIncidence
