/-
# What a scan takes from a text

`Scan.TakesAtLeast` says of a scan what is true of it for every text, well formed or not: when
it succeeds, what is left is an end part of the text, so many characters shorter, and the
value is a good one; and when it fails, the text is refused for one of the causes that a
reader may have. In particular a scan never runs into a fault.

The property is put together as scans are. Whatever the mesh, reading a member takes a
character at least and gives an entity of the mesh.
-/

import MeshIncidence.Proofs.Catalog.Binding
import MeshIncidence.SetCatalog.Reader

namespace MeshIncidence

/-- The causes for which a set file is refused. -/
def Error.IsOfReading : Error → Prop
  | .notUnicode | .text _ | .unknownFaceTag _ | .unknownEntity _ _ | .rowOutOfRange _ _ => True
  | _ => False

namespace Result

variable {α β : Type}

/-- The outcome is a good value, or the text is refused. -/
def Finds (good : α → Prop) : Result α → Prop
  | .ok value => good value
  | .error failure => ∃ error, failure = .refused error ∧ error.IsOfReading

namespace Finds

variable {good : α → Prop} {outcome : Result α}

theorem mono {wider : α → Prop} (hfinds : outcome.Finds good)
    (hwider : ∀ value, good value → wider value) : outcome.Finds wider := by
  cases outcome with
  | ok value => exact hwider value hfinds
  | error failure => exact hfinds

theorem bind {best : β → Prop} {next : α → Result β} (hfirst : outcome.Finds good)
    (hnext : ∀ value, good value → (next value).Finds best) : (outcome >>= next).Finds best := by
  cases outcome with
  | ok value => exact hnext value hfirst
  | error failure => exact hfirst

end Finds

end Result

/-- What is left is an end part of the text, shorter by so many characters. -/
structure EndsAfter (least : Nat) (text rest : List Char) : Prop where
  isSuffix : rest <:+ text
  length_le : least + rest.length ≤ text.length

namespace EndsAfter

theorem refl (text : List Char) : EndsAfter 0 text text :=
  ⟨List.suffix_refl text, Nat.le_of_eq (Nat.zero_add _)⟩

theorem trans {early late : Nat} {text middle rest : List Char}
    (hfirst : EndsAfter early text middle) (hlast : EndsAfter late middle rest) :
    EndsAfter (early + late) text rest where
  isSuffix := hlast.isSuffix.trans hfirst.isSuffix
  length_le := by
    have hearly := hfirst.length_le
    have hlate := hlast.length_le
    omega

theorem of_isSuffix {text rest : List Char} (hsuffix : rest <:+ text) : EndsAfter 0 text rest :=
  ⟨hsuffix, by simpa using hsuffix.length_le⟩

theorem skipBlanks (text : List Char) : EndsAfter 0 text (skipBlanks text) :=
  of_isSuffix (List.dropWhile_suffix _)

theorem skipRemarks (mark : Char) (inRemark : Bool) (text : List Char) :
    EndsAfter 0 text (skipRemarks mark inRemark text) := by
  apply of_isSuffix
  induction text generalizing inRemark with
  | nil => exact List.suffix_refl []
  | cons c text ih =>
      rw [MeshIncidence.skipRemarks]
      split_ifs
      · exact (ih _).trans (List.suffix_cons c text)
      · exact (ih _).trans (List.suffix_cons c text)
      · exact (ih _).trans (List.suffix_cons c text)
      · exact List.suffix_refl _

theorem takeLine? {text line rest : List Char} (htaken : takeLine? text = some (line, rest)) :
    EndsAfter 0 text rest := by
  rw [MeshIncidence.takeLine?] at htaken
  split at htaken
  · cases htaken
  · simp only [List.span_eq_takeWhile_dropWhile, Option.some.injEq, Prod.mk.injEq] at htaken
    obtain ⟨-, rfl⟩ := htaken
    exact of_isSuffix ((List.drop_suffix 1 _).trans (List.dropWhile_suffix _))

/-- A token has at least one character. -/
theorem takeToken? {text token rest : List Char} (htaken : takeToken? text = some (token, rest)) :
    EndsAfter 1 text rest := by
  have hblanks := skipBlanks text
  have hhead := List.head?_dropWhile_not isBlank text
  rw [← MeshIncidence.skipBlanks] at hhead
  rw [MeshIncidence.takeToken?] at htaken
  cases hleft : MeshIncidence.skipBlanks text with
  | nil => simp [hleft] at htaken
  | cons c left =>
      have hfirst : isBlank c = false := by simpa [hleft] using hhead
      rw [hleft] at hblanks
      simp only [hleft, List.isEmpty_cons, Bool.false_eq_true, if_false,
        List.span_eq_takeWhile_dropWhile, Option.some.injEq, Prod.mk.injEq] at htaken
      obtain ⟨-, rfl⟩ := htaken
      have hsuffix := List.dropWhile_suffix (fun c => !isBlank c) (l := left)
      rw [List.dropWhile_cons_of_pos (by simp [hfirst])]
      have hrest : EndsAfter 1 (c :: left) (left.dropWhile fun c => !isBlank c) :=
        ⟨hsuffix.trans (List.suffix_cons c left), by
          rw [Nat.add_comm]
          exact Nat.succ_le_succ hsuffix.length_le⟩
      exact hblanks.trans hrest

end EndsAfter

theorem finds_inRange (limit number : Nat) : (inRange limit number).Finds (· < limit) := by
  rw [inRange]
  split
  · rename_i hlt
    exact hlt
  · exact ⟨_, rfl, trivial⟩

theorem finds_edge {numbering : PairNumbering} {keys : List (Nat × Nat)}
    (hlists : numbering.Lists keys) (first second : Nat) :
    (numbering.edge first second).Finds (· < keys.length) := by
  rw [PairNumbering.edge]
  split
  · rename_i number hnumber
    exact (List.getElem?_eq_some_iff.mp (hlists.find?_eq_some_iff.mp hnumber)).1
  · exact ⟨_, rfl, trivial⟩

theorem finds_face (faces : FaceNumbering) (vertices : List Nat) :
    (faces.face vertices).Finds (· < faces.known.length) := by
  rw [FaceNumbering.face]
  split
  · rename_i number hnumber
    rw [FaceNumbering.find?] at hnumber
    split at hnumber
    · cases hnumber
    · exact (List.idxOf?_eq_some_iff.mp hnumber).1
  · exact ⟨_, rfl, trivial⟩

namespace Scan

variable {α β : Type}

/-- On every text the scan succeeds with a good value and takes so many characters at least, or
it refuses the text. -/
def TakesAtLeast (scan : Scan α) (least : Nat) (good : α → Prop) : Prop :=
  ∀ text, Result.Finds (fun read => good read.1 ∧ EndsAfter least text read.2) (scan.run text)

namespace TakesAtLeast

variable {scan : Scan α} {least : Nat} {good : α → Prop}

theorem mono {fewer : Nat} {wider : α → Prop} (htakes : scan.TakesAtLeast least good)
    (hle : fewer ≤ least) (hwider : ∀ value, good value → wider value) :
    scan.TakesAtLeast fewer wider :=
  fun text => (htakes text).mono fun _ hread =>
    ⟨hwider _ hread.1, hread.2.isSuffix,
      Nat.le_trans (Nat.add_le_add_right hle _) hread.2.length_le⟩

theorem pure {value : α} (hgood : good value) : (pure value : Scan α).TakesAtLeast 0 good :=
  fun text => ⟨hgood, EndsAfter.refl text⟩

theorem fail (defect : TextDefect) : (fail defect : Scan α).TakesAtLeast least good :=
  fun _ => ⟨.text defect, rfl, trivial⟩

/-- What has been read may be looked up. -/
theorem ofResult {outcome : Result α} (hfinds : outcome.Finds good) :
    (ofResult outcome).TakesAtLeast 0 good := by
  intro text
  cases outcome with
  | ok value => exact ⟨hfinds, EndsAfter.refl text⟩
  | error failure => exact hfinds

/-- Two scans one after the other take the characters of both. -/
theorem bind {late : Nat} {best : β → Prop} {next : α → Scan β}
    (hfirst : scan.TakesAtLeast least good)
    (hnext : ∀ value, good value → (next value).TakesAtLeast late best) :
    (scan >>= next).TakesAtLeast (least + late) best := by
  intro text
  rw [StateT.run_bind]
  exact (hfirst text).bind fun read hread => (hnext read.1 hread.1 read.2).mono fun _ hlast =>
    ⟨hlast.1, hread.2.trans hlast.2⟩

theorem blanks : blanks.TakesAtLeast 0 fun _ => True :=
  fun text => ⟨trivial, EndsAfter.skipBlanks text⟩

theorem remarks : remarks.TakesAtLeast 0 fun _ => True :=
  fun text => ⟨trivial, EndsAfter.skipRemarks '#' false text⟩

theorem line? : line?.TakesAtLeast 0 fun _ => True := by
  intro text
  simp only [Scan.line?, StateT.run]
  cases htaken : takeLine? text with
  | none => exact ⟨trivial, EndsAfter.refl text⟩
  | some read => exact ⟨trivial, EndsAfter.takeLine? htaken⟩

/-- A scan that goes on with a token has taken a character; without a token it has to refuse,
as there is nothing left to take. -/
theorem token?_bind {next : Option (List Char) → Scan β} {best : β → Prop}
    (hnone : (next none).TakesAtLeast 1 best)
    (hsome : ∀ token, (next (some token)).TakesAtLeast 0 best) :
    (token? >>= next).TakesAtLeast 1 best := by
  intro text
  rw [StateT.run_bind]
  cases htaken : takeToken? text with
  | none =>
      have hrun : token?.run text = .ok (none, []) := by
        simp only [token?, StateT.run, htaken]
      rw [hrun, Result.ok_bind]
      refine (hnone []).mono fun read hread => ?_
      have hlength := hread.2.length_le
      simp at hlength
  | some taken =>
      have hrun : token?.run text = .ok (some taken.1, taken.2) := by
        simp only [token?, StateT.run, htaken]
      rw [hrun, Result.ok_bind]
      exact (hsome taken.1 taken.2).mono fun _ hread =>
        ⟨hread.1, (EndsAfter.takeToken? htaken).trans hread.2⟩

theorem value (field : Field) (read? : List Char → Option α) :
    (value field read?).TakesAtLeast 1 fun _ => True := by
  refine token?_bind (fail _) fun token => ?_
  cases hread : read? token with
  | none =>
      simp only [hread]
      exact fail _
  | some result =>
      simp only [hread]
      exact pure trivial

theorem keyword (expected : String) : (keyword expected).TakesAtLeast 1 fun _ => True := by
  refine token?_bind (fail _) fun token => ?_
  dsimp only
  split
  · exact pure trivial
  · exact fail _

theorem times (htakes : scan.TakesAtLeast least good) (count : Nat) :
    (times scan count).TakesAtLeast 0 fun _ => True := by
  induction count with
  | zero => exact pure trivial
  | succ count ih =>
      exact (htakes.bind fun _ _ => ih.bind fun _ _ => pure trivial).mono (Nat.zero_le _)
        fun _ => id

theorem word_inRange (field : Field) (limit : Nat) :
    (word field >>= fun number => Scan.ofResult (inRange limit number)).TakesAtLeast 1 (· < limit) :=
  (value field readWord?).bind fun number _ => ofResult (finds_inRange limit number)

theorem edge {numbering : PairNumbering} {keys : List (Nat × Nat)} (hlists : numbering.Lists keys) :
    (edge numbering).TakesAtLeast 1 (· < keys.length) :=
  ((value .edgeVertex readWord?).bind fun first _ => (value .edgeVertex readWord?).bind
    fun second _ => ofResult (finds_edge hlists first second)).mono (by decide) fun _ => id

theorem face (faces : FaceNumbering) : (face faces).TakesAtLeast 1 (· < faces.known.length) := by
  show (Scan.face faces).TakesAtLeast (1 + 0) _
  refine (value .faceGeometry readSigned?).bind fun tag _ => ?_
  split
  · exact ofResult ⟨_, rfl, trivial⟩
  · exact (times (value .faceVertex readWord?) _).bind fun vertices _ =>
      ofResult (finds_face faces vertices)

end TakesAtLeast

/-- For a sound mesh there is a way to read each kind of member, and it gives entities of the
mesh. -/
theorem exists_memberScan {mesh : ElementMesh} (hsound : mesh.Sound) (kind : Kind) :
    ∃ scan, member mesh kind = .ok scan ∧ scan.TakesAtLeast 1 (· < mesh.entityCount kind) := by
  cases kind with
  | vertex => exact ⟨_, rfl, .word_inRange _ _⟩
  | edge =>
      obtain ⟨numbering, hnumbering, hlists⟩ := ElementMesh.edges_eq hsound.fits
      exact ⟨edge numbering, congrArg (Except.map edge) hnumbering, .edge hlists⟩
  | face =>
      exact ⟨face ⟨mesh.faceKeys⟩, congrArg (Except.map face) mesh.faces_eq, .face _⟩
  | element => exact ⟨_, rfl, .word_inRange _ _⟩

end Scan

end MeshIncidence
