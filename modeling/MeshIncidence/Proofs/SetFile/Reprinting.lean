/-
# Printing what was loaded

What a reader can find in a set file is known without the file: counts are machine words, there
are sets only of the kinds that a file of its dimension has blocks for, and a name is a line that
begins with no blank. Such sets can be printed, and the printed text can be loaded. The names come
back without a carriage return at their end, so after as many rounds as a name has of them the
sets and the printed text stay as they are.
-/

import MeshIncidence.Proofs.SetFile.Remarks

namespace MeshIncidence

theorem lt_of_readWord? {token : List Char} {number : Nat} (hread : readWord? token = some number) :
    number < wordBound := by
  unfold readWord? at hread
  exact of_decide_eq_true (Option.filter_eq_some_iff.mp hread).2

/-- The sets of a kind as a block of a set file can have them. -/
structure AreBlockSets (sets : List (NamedSet Nat)) : Prop where
  length_lt : sets.length < wordBound
  members_lt : ∀ set ∈ sets, set.members.length < wordBound
  names : ∀ set ∈ sets, IsNameLine set.name.toList

/-- The sets of all kinds as a set file of a dimension can have them. -/
structure SetsByKind.AreFiled (sets : SetsByKind Nat) (dimension : Nat) : Prop where
  blocks : ∀ kind, AreBlockSets (sets.get kind)
  admitted : ∀ kind, 0 < sets.count kind → kind.hasBlock dimension = true

namespace Scan

variable {α β : Type}

/-- Whatever the scan finds is good. -/
def Gives (scan : Scan α) (good : α → Prop) : Prop :=
  ∀ text read, scan.run text = .ok read → good read.1

namespace Gives

variable {scan : Scan α} {good : α → Prop}

theorem pure {value : α} (hgood : good value) : (pure value : Scan α).Gives good :=
  fun _ _ hread => Except.ok.inj hread ▸ hgood

theorem fail (defect : TextDefect) : (fail defect : Scan α).Gives good := fun _ _ => nofun

theorem bind {best : β → Prop} {next : α → Scan β} (hfirst : scan.Gives good)
    (hnext : ∀ value, good value → (next value).Gives best) : (scan >>= next).Gives best := by
  intro text read hread
  rw [StateT.run_bind] at hread
  obtain ⟨first, hfound, hlast⟩ := Result.bind_eq_ok_iff.mp hread
  exact hnext first.1 (hfirst text first hfound) first.2 read hlast

theorem any (scan : Scan α) : scan.Gives fun _ => True := fun _ _ _ => trivial

/-- A scan that is repeated finds as many things as it is repeated. -/
theorem times (hgives : scan.Gives good) (count : Nat) :
    (times scan count).Gives fun values =>
      values.length = count ∧ ∀ value ∈ values, good value := by
  induction count with
  | zero => exact pure ⟨rfl, by simp⟩
  | succ count ih =>
      refine hgives.bind fun first hfirst => ih.bind fun rest hrest => pure ⟨?_, ?_⟩
      · rw [List.length_cons, hrest.1]
      · exact List.forall_mem_cons.mpr ⟨hfirst, hrest.2⟩

/-- What a token is read as has been read from some token. -/
theorem value (field : Field) (read? : List Char → Option α) :
    (value field read?).Gives fun found => ∃ token, read? token = some found := by
  refine (any token?).bind fun token _ => ?_
  cases token with
  | none => exact fail _
  | some token =>
      cases hread : read? token with
      | none =>
          simp only [hread]
          exact fail _
      | some found =>
          simp only [hread]
          exact pure ⟨token, hread⟩

theorem word (field : Field) : (word field).Gives (· < wordBound) := by
  intro text read hread
  obtain ⟨token, htoken⟩ := value field readWord? text read hread
  exact lt_of_readWord? htoken

/-- The name of a set is what is left of a line after blanks. -/
theorem name {next : Option (List Char) → Scan β} {best : β → Prop}
    (hnone : (next none).Gives best)
    (hsome : ∀ line, IsNameLine line → (next (some line)).Gives best) :
    (blanks >>= fun _ => line? >>= next).Gives best := by
  intro text read hread
  have hblanks : blanks.run text = .ok ((), skipBlanks text) := rfl
  rw [StateT.run_bind, hblanks, Result.ok_bind, StateT.run_bind] at hread
  obtain ⟨⟨line, rest⟩, hline, hlast⟩ := Result.bind_eq_ok_iff.mp hread
  obtain ⟨rfl, -⟩ | ⟨taken, rfl, htaken⟩ := takeLine?_of_line? hline
  · exact hnone rest read hlast
  · obtain ⟨c, early, hc, hfeed, rfl, -⟩ := exists_of_takeLine?_skipBlanks htaken
    have hwhole : IsNameLine (c :: early) := ⟨List.cons_ne_nil c early, hfeed, hc⟩
    exact hsome _ hwhole.withoutReturn rest read hlast

theorem namedSet (kind : Kind) (member : Scan Nat) : (namedSet kind member).Gives fun set =>
    IsNameLine set.name.toList ∧ set.members.length < wordBound := by
  refine name (fail _) fun line hline => ?_
  refine (word .entityCount).bind fun count hcount => ?_
  refine ((any member).times count).bind fun members hmembers => pure ⟨?_, ?_⟩
  · rwa [String.toList_ofList]
  · rw [hmembers.1]
    exact hcount

variable {M : Type} [Connectivity M] (mesh : M)

theorem block (kind : Kind) : (block mesh kind).Gives AreBlockSets := by
  refine (any _).bind fun _ _ => (any _).bind fun _ _ => ?_
  refine (word .setCount).bind fun count hcount => ?_
  split_ifs
  · exact pure ⟨by decide, by simp, by simp⟩
  · refine (any _).bind fun member _ => ?_
    intro text read hread
    obtain ⟨hlength, hsets⟩ := (namedSet kind member).times count text read hread
    exact ⟨hlength ▸ hcount, fun set hset => (hsets set hset).2, fun set hset => (hsets set hset).1⟩

theorem blockOf (dimension : Nat) (kind : Kind) : (blockOf mesh dimension kind).Gives fun sets =>
    AreBlockSets sets ∧ (0 < sets.length → kind.hasBlock dimension = true) := by
  rw [Scan.blockOf]
  split_ifs with hblock
  · exact fun text read hread => ⟨block mesh kind text read hread, fun _ => hblock⟩
  · exact pure ⟨⟨by decide, by simp, by simp⟩, by simp⟩

end Gives

variable {M : Type} [Connectivity M] {mesh : M}

theorem Gives.blocks (dimension : Nat) :
    (blocks mesh dimension).Gives fun sets => sets.AreFiled dimension := by
  refine (blockOf mesh dimension .vertex).bind fun vertex hvertex => ?_
  refine (blockOf mesh dimension .edge).bind fun edge hedge => ?_
  refine (blockOf mesh dimension .face).bind fun face hface => ?_
  refine (blockOf mesh dimension .element).bind fun element helement => pure ⟨?_, ?_⟩
  · intro kind
    cases kind with
    | vertex => exact hvertex.1
    | edge => exact hedge.1
    | face => exact hface.1
    | element => exact helement.1
  · intro kind
    cases kind with
    | vertex => exact hvertex.2
    | edge => exact hedge.2
    | face => exact hface.2
    | element => exact helement.2

/-- The sets of a set file are as a file of its declared dimension can have them. -/
theorem areFiled_of_run {text rest left : List Char} {dimension : Nat} {sets : SetsByKind Nat}
    (hdeclared : declared.run text = .ok (dimension, rest))
    (hread : (catalogSets mesh).run text = .ok (sets, left)) : sets.AreFiled dimension := by
  rw [catalogSets_eq_blocks, StateT.run_bind, hdeclared, Result.ok_bind] at hread
  exact Gives.blocks dimension rest _ hread

theorem declared_lt {text rest : List Char} {dimension : Nat}
    (hdeclared : declared.run text = .ok (dimension, rest)) : dimension < wordBound := by
  have hgives : declared.Gives (· < wordBound) :=
    (Gives.any _).bind fun _ _ => (Gives.any _).bind fun _ _ => Gives.word _
  exact hgives text _ hdeclared

end Scan

namespace SetsByKind.AreFiled

variable {sets : SetsByKind Nat} {dimension : Nat}

theorem areCounted (hfiled : sets.AreFiled dimension) : sets.AreCounted where
  sets_lt kind := (hfiled.blocks kind).length_lt
  members_lt kind := (hfiled.blocks kind).members_lt

/-- A set file can have the sets that are read back. -/
theorem readBack (hfiled : sets.AreFiled dimension) : sets.readBack.AreFiled dimension := by
  refine ⟨fun kind => ⟨?_, ?_, ?_⟩, fun kind hsome => ?_⟩
  · rw [get_readBack, List.length_map]
    exact (hfiled.blocks kind).length_lt
  · rw [get_readBack]
    exact List.forall_mem_map.mpr (hfiled.blocks kind).members_lt
  · rw [get_readBack]
    refine List.forall_mem_map.mpr fun set hset => ?_
    rw [NamedSet.readBack, String.toList_ofList]
    exact ((hfiled.blocks kind).names set hset).withoutReturn
  · rw [count_readBack] at hsome
    exact hfiled.admitted kind hsome

end SetsByKind.AreFiled

namespace SetCatalog

/-- A catalog whose sets are read back. -/
def readBack (catalog : SetCatalog) : SetCatalog := { catalog with sets := catalog.sets.readBack }

/-- The sets that are read back need the same tables. -/
theorem readBack_boundTo (sets : SetsByKind Nat) (mesh : ElementMesh) :
    (boundTo sets mesh).readBack = boundTo sets.readBack mesh := by
  simp only [readBack, boundTo, neededTables, SetsByKind.count_readBack]

theorem iterate_readBack_boundTo (sets : SetsByKind Nat) (mesh : ElementMesh) (rounds : Nat) :
    readBack^[rounds] (boundTo sets mesh) = boundTo (SetsByKind.readBack^[rounds] sets) mesh := by
  have hround : Function.Semiconj (boundTo · mesh) SetsByKind.readBack readBack :=
    fun sets => (readBack_boundTo sets mesh).symm
  exact (hround.iterate_right rounds sets).symm

end SetCatalog

namespace Bound

/-- Printing one catalog and loading the text for the mesh gives the other one, whatever sets
there were before. -/
def Reloads (mesh : ElementMesh) (catalog other : SetCatalog) : Prop :=
  ∃ text, catalog.render = .ok text ∧ ∀ before : SetCatalog,
    (load text.toUTF8).Runs ⟨before, mesh⟩ () ⟨other, mesh⟩

/-- What becomes of a catalog that is printed and loaded again and again. -/
structure Reprints (mesh : ElementMesh) (catalog : SetCatalog) : Prop where
  /-- Each round succeeds. The names lose a carriage return at their end, and nothing else is
  changed. -/
  reloads : ∀ rounds, Reloads mesh (SetCatalog.readBack^[rounds] catalog)
    (SetCatalog.readBack^[rounds + 1] catalog)
  /-- After as many rounds as a name has carriage returns at its end nothing is changed at all. -/
  settles : ∀ rounds,
    (∀ kind, ∀ set ∈ catalog.sets.get kind, endReturns set.name.toList ≤ rounds) →
      SetCatalog.readBack^[rounds + 1] catalog = SetCatalog.readBack^[rounds] catalog

variable {mesh : ElementMesh} {sets : SetsByKind Nat}

/-- One round. -/
theorem reloads_boundTo (hmesh : mesh.Reachable) (hstorable : mesh.IsStorable)
    (hdimension : mesh.dimension < wordBound) (hrange : sets.InRange mesh)
    (hfiled : sets.AreFiled mesh.dimension) :
    Reloads mesh (.boundTo sets mesh) (.boundTo sets.readBack mesh) :=
  exists_render_load hmesh hstorable hdimension hrange hfiled.areCounted
    (fun kind => (hfiled.blocks kind).names) hfiled.admitted

theorem reprints_boundTo (hmesh : mesh.Reachable) (hstorable : mesh.IsStorable)
    (hdimension : mesh.dimension < wordBound) (hrange : sets.InRange mesh)
    (hfiled : sets.AreFiled mesh.dimension) : Reprints mesh (.boundTo sets mesh) where
  reloads rounds := by
    have hkept : (SetsByKind.readBack^[rounds] sets).InRange mesh ∧
        (SetsByKind.readBack^[rounds] sets).AreFiled mesh.dimension := by
      induction rounds with
      | zero => exact ⟨hrange, hfiled⟩
      | succ rounds ih =>
          rw [Function.iterate_succ_apply']
          exact ⟨ih.1.readBack, ih.2.readBack⟩
    rw [SetCatalog.iterate_readBack_boundTo, SetCatalog.iterate_readBack_boundTo,
      Function.iterate_succ_apply']
    exact reloads_boundTo hmesh hstorable hdimension hkept.1 hkept.2
  settles rounds hreturns := by
    have hnone : ∀ kind, ∀ set ∈ (SetsByKind.readBack^[rounds] sets).get kind,
        endReturns set.name.toList = 0 := by
      intro kind set hset
      have hless := SetsByKind.endReturns_of_mem_iterate hreturns kind set hset
      omega
    rw [SetCatalog.iterate_readBack_boundTo, SetCatalog.iterate_readBack_boundTo,
      Function.iterate_succ_apply', SetsByKind.readBack_eq_self hnone]

/-- What was loaded from a set file of the dimension of the mesh can be printed and loaded again,
as often as one likes. -/
theorem load_reprints (hmesh : mesh.Reachable) (hstorable : mesh.IsStorable)
    {catalog : SetCatalog} {text rest : List Char} {after : Bound ElementMesh}
    (hruns : (load (inUTF8 text)).Runs ⟨catalog, mesh⟩ () after) (htitle : IsSetFile text)
    (hdeclared : Scan.declared.run (titleLine text).2 = .ok (mesh.dimension, rest)) :
    Reprints mesh after.catalog := by
  obtain ⟨_, -, -, hfinds⟩ :=
    Tallied.follows_catalogSets hmesh.sound (titleLine text).2 0
  obtain ⟨sets, left, hread⟩ := exists_read_of_load_runs hruns (decodeText_inUTF8 text) htitle
  rw [hread] at hfinds
  have hrange : sets.InRange mesh := hfinds.1.1
  have hends := load_runs_of_read hmesh.sound catalog (decodeText_inUTF8 text) htitle hread hrange
  obtain rfl := (hruns.unique hends).2
  exact reprints_boundTo hmesh hstorable (Scan.declared_lt hdeclared) hrange
    (Scan.areFiled_of_run hdeclared hread)

section TwoReturns

/-- A square. -/
def square : ElementMesh := .counted ⟨2, 4, [⟨.quadrilateral, [0, 1, 3, 2]⟩], 0, 0, .none⟩

/-- A set file with two carriage returns after a name. -/
def twoReturnsFile : List Char :=
  "MFEM sets v1.0\ndimension\n2\nvertex_sets\n1\na\r\r\n1\n0\nedge_sets\n0\nelement_sets\n0\n".toList

/-- The sets of the file. One of the carriage returns belongs to the name. -/
def oneReturnSets : SetsByKind Nat := ⟨[⟨"a\r", [0]⟩], [], [], []⟩

theorem reachable_square : square.Reachable := by
  have hmade : ElementMesh.ofElements 2 4 square.elements = .ok square := by rfl
  exact .ofElements hmade

theorem declared_twoReturnsFile : Scan.declared.run (titleLine twoReturnsFile).2 =
    .ok (square.dimension, twoReturnsFile.drop 26) := by decide +kernel

theorem catalogSets_twoReturnsFile : (Scan.catalogSets square).run (titleLine twoReturnsFile).2 =
    .ok (oneReturnSets, ['\n']) := by decide +kernel

theorem inRange_oneReturnSets : oneReturnSets.InRange square := by
  intro kind
  cases kind <;> decide

theorem load_twoReturnsFile : (load (inUTF8 twoReturnsFile)).Runs (ofMesh square) ()
    ⟨.boundTo oneReturnSets square, square⟩ :=
  load_runs_of_read reachable_square.sound _ (decodeText_inUTF8 twoReturnsFile)
    (by decide +kernel) catalogSets_twoReturnsFile inRange_oneReturnSets

theorem load_reprints_twoReturnsFile : Reprints square (.boundTo oneReturnSets square) :=
  load_reprints reachable_square (by decide) load_twoReturnsFile (by decide +kernel)
    declared_twoReturnsFile

/-- The sets that were loaded are printed as a text that gives other ones. -/
theorem not_reloads_oneReturnSets :
    square.Reachable ∧ IsSetFile twoReturnsFile ∧
      Scan.declared.run (titleLine twoReturnsFile).2 =
        .ok (square.dimension, twoReturnsFile.drop 26) ∧
      (load (inUTF8 twoReturnsFile)).Runs (ofMesh square) ()
        ⟨.boundTo oneReturnSets square, square⟩ ∧
      ¬Reloads square (.boundTo oneReturnSets square) (.boundTo oneReturnSets square) := by
  refine ⟨reachable_square, by decide +kernel, declared_twoReturnsFile, load_twoReturnsFile, ?_⟩
  rintro ⟨text, hrender, hsame⟩
  obtain ⟨printed, hprinted, hother⟩ := reloads_boundTo reachable_square (by decide) (by decide)
    inRange_oneReturnSets
    (Scan.areFiled_of_run declared_twoReturnsFile catalogSets_twoReturnsFile)
  obtain rfl : text = printed := Except.ok.inj (hrender.symm.trans hprinted)
  have hloaded := ((hsame (.ofMesh square)).unique (hother (.ofMesh square))).2
  have hsets : oneReturnSets = oneReturnSets.readBack :=
    congrArg (fun bound => bound.catalog.sets) hloaded
  exact absurd hsets (by decide)

end TwoReturns

end Bound

end MeshIncidence
