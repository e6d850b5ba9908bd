/-
# Loading is total and atomic

Loading is described by cases. Bytes that are no text and texts that cannot be read are refused
before anything is changed; a text without the title is passed over; and a text that can be
read gives sets that are in range, so that binding them cannot fail. There is no other case,
whatever the bytes, and the mesh is left as it was in each of them.
-/

import MeshIncidence.Proofs.SetFile.Tally
import MeshIncidence.Proofs.SetFile.RoundTrip
import Mathlib.Data.List.TakeWhile

namespace MeshIncidence

/-- What follows a line: nothing more, or a line feed, and a carriage return may stand before. -/
def EndsLine (rest : List Char) : Prop :=
  rest = [] ∨ rest = ['\r'] ∨ ['\n'] <+: rest ∨ ['\r', '\n'] <+: rest

theorem endsLine_iff {rest : List Char} :
    EndsLine rest ↔ rest.takeWhile (· ≠ '\n') = [] ∨ rest.takeWhile (· ≠ '\n') = ['\r'] := by
  constructor
  · rintro (rfl | rfl | ⟨_, rfl⟩ | ⟨_, rfl⟩) <;> simp
  · cases rest with
    | nil => exact fun _ => .inl rfl
    | cons c rest =>
        by_cases hfeed : c = '\n'
        · subst hfeed
          exact fun _ => .inr (.inr (.inl ⟨rest, rfl⟩))
        · rw [List.takeWhile_cons_of_pos (by simpa using hfeed)]
          rintro (hnil | hreturn)
          · simp at hnil
          · obtain ⟨rfl, hrest⟩ := List.cons.inj hreturn
            cases rest with
            | nil => exact .inr (.inl rfl)
            | cons c rest =>
                by_cases hlast : c = '\n'
                · subst hlast
                  exact .inr (.inr (.inr ⟨rest, rfl⟩))
                · simp [hlast] at hrest

/-- A line is what is taken, up to a carriage return. -/
theorem withoutReturn_eq_iff {line taken : List Char} (hreturn : line.getLast? ≠ some '\r') :
    withoutReturn taken = line ↔ ∃ mark, taken = line ++ mark ∧ (mark = [] ∨ mark = ['\r']) := by
  rw [withoutReturn]
  constructor
  · intro hline
    split_ifs at hline with hlast
    · refine ⟨['\r'], ?_, .inr rfl⟩
      rw [← hline, List.dropLast_append_getLast? '\r' hlast]
    · exact ⟨[], by simpa using hline, .inl rfl⟩
  · rintro ⟨mark, rfl, rfl | rfl⟩
    · simp [hreturn]
    · simp

/-- The title line is the first one after blanks. -/
theorem titleLine_fst_eq_iff {line text : List Char} (hne : line ≠ [])
    (hblank : line.head?.any isBlank = false) (hfeed : '\n' ∉ line)
    (hreturn : line.getLast? ≠ some '\r') :
    (titleLine text).1 = line ↔
      ∃ gap rest, text = gap ++ (line ++ rest) ∧ IsGap gap ∧ EndsLine rest := by
  have htitle : (titleLine text).1 = withoutReturn ((skipBlanks text).takeWhile (· ≠ '\n')) := by
    rw [titleLine, takeLine?]
    cases skipBlanks text with
    | nil => rfl
    | cons c text => simp [List.span_eq_takeWhile_dropWhile]
  have hall := forall_ne_feed hfeed
  rw [htitle, withoutReturn_eq_iff hreturn]
  constructor
  · rintro ⟨mark, htaken, hmark⟩
    obtain ⟨rest, hrest⟩ : ∃ rest, skipBlanks text = line ++ rest := by
      obtain ⟨after, hafter⟩ := List.takeWhile_prefix (l := skipBlanks text) (· ≠ '\n')
      rw [htaken, List.append_assoc] at hafter
      exact ⟨_, hafter.symm⟩
    rw [hrest, List.takeWhile_append_of_pos hall] at htaken
    have hends : EndsLine rest :=
      endsLine_iff.mpr (List.append_cancel_left htaken ▸ hmark)
    refine ⟨text.takeWhile isBlank, rest, ?_, fun c hc => List.mem_takeWhile_imp hc, hends⟩
    rw [← hrest, skipBlanks, List.takeWhile_append_dropWhile]
  · rintro ⟨gap, rest, rfl, hgap, hends⟩
    rw [skipBlanks_append hgap, skipBlanks_of_head (by rwa [List.head?_append_of_ne_nil _ hne]),
      List.takeWhile_append_of_pos hall]
    exact ⟨_, rfl, endsLine_iff.mp hends⟩

/-- The first line after blanks is the title of a set file. -/
def IsSetFile (text : List Char) : Prop :=
  ∃ gap rest, text = gap ++ (setFileTitle.toList ++ rest) ∧ IsGap gap ∧ EndsLine rest

theorem isSetFile_iff {text : List Char} :
    IsSetFile text ↔ String.ofList (titleLine text).1 = setFileTitle := by
  rw [IsSetFile, ← titleLine_fst_eq_iff (by decide) (by decide) (by decide) (by decide)]
  constructor
  · intro htitle
    rw [htitle, String.ofList_toList]
  · intro htitle
    rw [← htitle, String.toList_ofList]

instance (text : List Char) : Decidable (IsSetFile text) := decidable_of_iff _ isSetFile_iff.symm

theorem length_titleLine_le (text : List Char) : (titleLine text).2.length ≤ text.length := by
  rw [titleLine]
  cases htaken : takeLine? (skipBlanks text) with
  | none => exact Nat.zero_le _
  | some read =>
      exact ((EndsAfter.skipBlanks text).trans (EndsAfter.takeLine? htaken)).isSuffix.length_le

theorem decodeText_eq_error {bytes : ByteArray} {failure : Failure}
    (hbytes : decodeText bytes = .error failure) : failure = .refused .notUnicode := by
  rw [decodeText] at hbytes
  cases hstring : String.fromUTF8? bytes with
  | some text => simp [hstring] at hbytes
  | none =>
      rw [hstring] at hbytes
      exact (Except.error.inj hbytes).symm

namespace Bound

section Cases

variable {M : Type} [Connectivity M] {mesh : M} {bytes : ByteArray} {text : List Char}

theorem load_ends_of_undecoded (catalog : SetCatalog) {failure : Failure}
    (hbytes : decodeText bytes = .error failure) :
    (load bytes).Ends ⟨catalog, mesh⟩ (.error failure) ⟨catalog, mesh⟩ :=
  Action.runs_state.bind (Action.ends_ofResult_bind hbytes)

theorem load_runs_of_not_isSetFile (catalog : SetCatalog) (hbytes : decodeText bytes = .ok text)
    (htitle : ¬IsSetFile text) : (load bytes).Runs ⟨catalog, mesh⟩ () ⟨catalog, mesh⟩ := by
  apply Action.runs_state.bind
  apply (Action.runs_ofResult hbytes).bind
  have hother : String.ofList (titleLine text).1 ≠ setFileTitle := mt isSetFile_iff.mpr htitle
  dsimp only
  rw [if_pos hother]
  exact Action.runs_note _

/-- From the title on, loading ends as reading does, or as binding the sets that were read. -/
theorem load_ends_of_isSetFile (catalog : SetCatalog) (hbytes : decodeText bytes = .ok text)
    (htitle : IsSetFile text) {outcome : Result Unit} {after : Bound M}
    (hread : (do
      let (sets, _) ← Action.ofResult ((Scan.catalogSets mesh).run (titleLine text).2)
      Action.setState ⟨{ catalog with sets := sets }, mesh⟩
      Action.note (.loaded sets.counts)
      rebind : Action (Bound M) Unit).Ends ⟨catalog, mesh⟩ outcome after) :
    (load bytes).Ends ⟨catalog, mesh⟩ outcome after := by
  apply Action.runs_state.bind
  apply (Action.runs_ofResult hbytes).bind
  have hsame : ¬String.ofList (titleLine text).1 ≠ setFileTitle := not_not.mpr (isSetFile_iff.mp htitle)
  dsimp only
  rw [if_neg hsame]
  exact hread

theorem load_ends_of_unread (catalog : SetCatalog) (hbytes : decodeText bytes = .ok text)
    (htitle : IsSetFile text) {failure : Failure}
    (hread : (Scan.catalogSets mesh).run (titleLine text).2 = .error failure) :
    (load bytes).Ends ⟨catalog, mesh⟩ (.error failure) ⟨catalog, mesh⟩ :=
  load_ends_of_isSetFile catalog hbytes htitle (Action.ends_ofResult_bind hread)

/-- A set file that is loaded can be read. -/
theorem exists_read_of_load_runs {catalog : SetCatalog} {after : Bound M}
    (hruns : (load bytes).Runs ⟨catalog, mesh⟩ () after) (hbytes : decodeText bytes = .ok text)
    (htitle : IsSetFile text) :
    ∃ sets rest, (Scan.catalogSets mesh).run (titleLine text).2 = .ok (sets, rest) := by
  cases hread : (Scan.catalogSets mesh).run (titleLine text).2 with
  | error failure =>
      have hends := load_ends_of_unread catalog hbytes htitle hread
      exact absurd (hruns.unique hends).1 (by simp)
  | ok read => exact ⟨read.1, read.2, rfl⟩

theorem load_runs_of_read {mesh : ElementMesh} (hsound : mesh.Sound) (catalog : SetCatalog)
    (hbytes : decodeText bytes = .ok text) (htitle : IsSetFile text) {sets : SetsByKind Nat}
    {rest : List Char}
    (hread : (Scan.catalogSets mesh).run (titleLine text).2 = .ok (sets, rest))
    (hrange : sets.InRange mesh) :
    (load bytes).Runs ⟨catalog, mesh⟩ () ⟨.boundTo sets mesh, mesh⟩ := by
  apply load_ends_of_isSetFile catalog hbytes htitle
  apply (Action.runs_ofResult hread).bind
  apply Action.runs_setState.bind
  apply (Action.runs_note _).bind
  exact rebind_runs hsound { catalog with sets := sets } hrange

end Cases

/-- What loading a text that is a set file does, when so many sets and members are read. -/
structure Installs (mesh : ElementMesh) (text : List Char) (outcome : Result Unit)
    (after : Bound ElementMesh) (tally : Nat) : Prop where
  /-- The reader that counts the sets and members it reads ends as loading does. -/
  counted : ∃ read, (Tallied.catalogSets mesh).perform (titleLine text).2 0 = (read, tally) ∧
    outcome = read.map fun _ => ()
  /-- A character was taken for each of them, also if the text is refused in the end. -/
  tally_le : tally ≤ text.length
  /-- The sets that were read take the place of all that were there. -/
  installed : outcome = .ok () → ∃ sets rest,
    (Scan.catalogSets mesh).run (titleLine text).2 = .ok (sets, rest) ∧
      sets.itemCount = tally ∧ tally + rest.length ≤ text.length ∧
      after.catalog = .boundTo sets mesh
  /-- All members are entities of the mesh, and the catalog has no defect. -/
  inRange : outcome = .ok () → after.catalog.sets.InRange mesh ∧ after.catalog.defect? = none

/-- How loading ends, whatever the bytes. -/
structure LoadsAtomically (catalog : SetCatalog) (mesh : ElementMesh) (bytes : ByteArray)
    (outcome : Result Unit) (after : Bound ElementMesh) : Prop where
  mesh_eq : after.mesh = mesh
  /-- Loading that fails has refused the input, and has changed nothing. -/
  refused : ∀ failure, outcome = .error failure →
    (∃ error, failure = .refused error ∧ error.IsOfReading) ∧ after.catalog = catalog
  undecoded : ∀ failure, decodeText bytes = .error failure →
    outcome = .error (.refused .notUnicode)
  passedOver : ∀ text, decodeText bytes = .ok text → ¬IsSetFile text →
    outcome = .ok () ∧ after.catalog = catalog
  read : ∀ text, decodeText bytes = .ok text → IsSetFile text →
    ∃ tally, Installs mesh text outcome after tally

section Cases

variable {mesh : ElementMesh} {bytes : ByteArray} {text : List Char}

theorem exists_loadsAtomically_of_undecoded (catalog : SetCatalog) {failure : Failure}
    (hbytes : decodeText bytes = .error failure) : ∃ outcome after,
      (load bytes).Ends ⟨catalog, mesh⟩ outcome after ∧
        LoadsAtomically catalog mesh bytes outcome after := by
  obtain rfl := decodeText_eq_error hbytes
  refine ⟨_, _, load_ends_of_undecoded catalog hbytes, ?_⟩
  have hnone (text : List Char) : decodeText bytes ≠ .ok text := by simp [hbytes]
  exact {
    mesh_eq := rfl
    refused := fun _ hfailure => ⟨⟨.notUnicode, (Except.error.inj hfailure).symm, trivial⟩, rfl⟩
    undecoded := fun _ _ => rfl
    passedOver := fun text htext => absurd htext (hnone text)
    read := fun text htext => absurd htext (hnone text) }

theorem exists_loadsAtomically_of_not_isSetFile (catalog : SetCatalog)
    (hbytes : decodeText bytes = .ok text) (htitle : ¬IsSetFile text) : ∃ outcome after,
      (load bytes).Ends ⟨catalog, mesh⟩ outcome after ∧
        LoadsAtomically catalog mesh bytes outcome after := by
  refine ⟨_, _, load_runs_of_not_isSetFile catalog hbytes htitle, ?_⟩
  have hsame (other : List Char) (hother : decodeText bytes = .ok other) : other = text :=
    Except.ok.inj (hother.symm.trans hbytes)
  exact {
    mesh_eq := rfl
    refused := fun _ hfailure => absurd hfailure (by simp)
    undecoded := fun _ hfailure => absurd (hbytes.symm.trans hfailure) (by simp)
    passedOver := fun _ _ _ => ⟨rfl, rfl⟩
    read := fun other hother hfile => absurd (hsame other hother ▸ hfile) htitle }

theorem exists_loadsAtomically_of_isSetFile (hsound : mesh.Sound) (catalog : SetCatalog)
    (hbytes : decodeText bytes = .ok text) (htitle : IsSetFile text) : ∃ outcome after,
      (load bytes).Ends ⟨catalog, mesh⟩ outcome after ∧
        LoadsAtomically catalog mesh bytes outcome after := by
  have hsame (other : List Char) (hother : decodeText bytes = .ok other) : other = text :=
    Except.ok.inj (hother.symm.trans hbytes)
  have hpassedOver {goal : Prop} (other : List Char) (hother : decodeText bytes = .ok other)
      (hfile : ¬IsSetFile other) : goal := absurd (hsame other hother ▸ htitle) hfile
  have hlength := length_titleLine_le text
  obtain ⟨tally, hperform, htally, hfinds⟩ :=
    Tallied.follows_catalogSets hsound (titleLine text).2 0
  rw [Nat.zero_add] at hperform
  cases hread : (Scan.catalogSets mesh).run (titleLine text).2 with
  | error failure =>
      rw [hread] at hperform hfinds
      refine ⟨_, _, load_ends_of_unread catalog hbytes htitle hread, ?_⟩
      have hinstalls : Installs mesh text (.error failure) ⟨catalog, mesh⟩ tally := {
        counted := ⟨_, hperform, rfl⟩
        tally_le := htally.trans hlength
        installed := fun hok => absurd hok (by simp)
        inRange := fun hok => absurd hok (by simp) }
      exact {
        mesh_eq := rfl
        refused := fun _ hfailure => ⟨Except.error.inj hfailure ▸ hfinds, rfl⟩
        undecoded := fun _ hfailure => absurd (hbytes.symm.trans hfailure) (by simp)
        passedOver := hpassedOver
        read := fun other hother _ => ⟨tally, hsame other hother ▸ hinstalls⟩ }
  | ok read =>
      obtain ⟨sets, rest⟩ := read
      rw [hread] at hperform hfinds
      obtain ⟨⟨hrange, hcount⟩, hends⟩ := hfinds
      refine ⟨_, _, load_runs_of_read hsound catalog hbytes htitle hread hrange, ?_⟩
      have hinstalls : Installs mesh text (.ok ()) ⟨.boundTo sets mesh, mesh⟩ tally := {
        counted := ⟨_, hperform, rfl⟩
        tally_le := htally.trans hlength
        installed := fun _ =>
          ⟨sets, rest, hread, hcount.symm, hends.length_le.trans hlength, rfl⟩
        inRange := fun _ => ⟨hrange, SetCatalog.defect?_boundTo_eq_none_iff.mpr hrange⟩ }
      exact {
        mesh_eq := rfl
        refused := fun _ hfailure => absurd hfailure (by simp)
        undecoded := fun _ hfailure => absurd (hbytes.symm.trans hfailure) (by simp)
        passedOver := hpassedOver
        read := fun other hother _ => ⟨tally, hsame other hother ▸ hinstalls⟩ }

end Cases

/-- Loading any bytes for a mesh ends, and it either refuses them and changes nothing, or
passes them over, or installs what it has read. -/
theorem load_atomic {mesh : ElementMesh} (hmesh : mesh.Reachable) (catalog : SetCatalog)
    (bytes : ByteArray) : ∃ outcome after,
      (load bytes).Ends ⟨catalog, mesh⟩ outcome after ∧
        LoadsAtomically catalog mesh bytes outcome after := by
  cases hbytes : decodeText bytes with
  | error failure => exact exists_loadsAtomically_of_undecoded catalog hbytes
  | ok text =>
      by_cases htitle : IsSetFile text
      · exact exists_loadsAtomically_of_isSetFile hmesh.sound catalog hbytes htitle
      · exact exists_loadsAtomically_of_not_isSetFile catalog hbytes htitle

/-- A set file that promises far more sets and members than it has. -/
def overpromisingFile : String :=
  "MFEM sets v1.0\n# one set is missing\ndimension 3\nvertex_sets 2\ncorner\n99999999999999999 3 0 1"

theorem load_atomic_overpromisingFile : ∃ outcome after tally,
    (load overpromisingFile.toUTF8).Ends ⟨.boundTo oddlyNamedSets tetrahedron, tetrahedron⟩
        outcome after ∧
      after.mesh = tetrahedron ∧
      Installs tetrahedron overpromisingFile.toList outcome after tally := by
  have hmade : ElementMesh.ofElements 3 4 tetrahedron.elements = .ok tetrahedron := by rfl
  obtain ⟨outcome, after, hends, hatomic⟩ :=
    load_atomic (.ofElements hmade) (.boundTo oddlyNamedSets tetrahedron) overpromisingFile.toUTF8
  obtain ⟨tally, hinstalls⟩ :=
    hatomic.read _ (decodeText_toUTF8 overpromisingFile) (by decide)
  exact ⟨outcome, after, tally, hends, hatomic.mesh_eq, hinstalls⟩

end Bound

end MeshIncidence
