/-
# Remarks before headings

A set file has headings: the keyword before the dimension and the one before each block. The
reader passes over remarks and blank lines before every heading, so more of them may be put
there. `Annotates` relates a text to one with some lines put in before one of the headings that
are read, and any number of such steps leaves what is loaded.

What stands before a heading is read as before, since reading does not look further ahead than
to the next character, and what stands before a heading ends in a blank.
-/

import MeshIncidence.Proofs.SetFile.Locality
import MeshIncidence.Proofs.SetFile.LineEndings
import MeshIncidence.Proofs.SetFile.Loading
import Mathlib.Logic.Relation

namespace MeshIncidence

/-- A line that the reader passes over before a heading, with its line feed. -/
def IsIdleLine (line : List Char) : Prop :=
  ∃ body, line = body ++ ['\n'] ∧ '\n' ∉ body ∧ (IsGap body ∨ body.head? = some '#')

theorem skipRemarks_gap {mark : Char} {gap rest : List Char} (hgap : IsGap gap) :
    skipRemarks mark false (gap ++ rest) = skipRemarks mark false rest := by
  induction gap with
  | nil => rfl
  | cons c gap ih =>
      have hc := hgap c List.mem_cons_self
      rw [List.cons_append, skipRemarks, if_neg (by decide), if_pos hc]
      exact ih fun d hd => hgap d (List.mem_cons_of_mem c hd)

/-- A remark ends with its line. -/
theorem skipRemarks_remark {mark : Char} {body rest : List Char} (hfeed : '\n' ∉ body) :
    skipRemarks mark true (body ++ '\n' :: rest) = skipRemarks mark false rest := by
  induction body with
  | nil => simp [skipRemarks]
  | cons c body ih =>
      have hc : c ≠ '\n' := fun hsame => hfeed (hsame ▸ List.mem_cons_self)
      have hrest := ih fun hmem => hfeed (List.mem_cons_of_mem c hmem)
      simpa [skipRemarks, hc] using hrest

theorem skipRemarks_idle {line rest : List Char} (hidle : IsIdleLine line) :
    skipRemarks '#' false (line ++ rest) = skipRemarks '#' false rest := by
  obtain ⟨body, rfl, hfeed, hgap | hmark⟩ := hidle
  · apply skipRemarks_gap
    intro c hc
    rcases List.mem_append.mp hc with hbody | hlast
    · exact hgap c hbody
    · rw [List.mem_singleton.mp hlast]
      exact isBlank_feed
  · obtain ⟨body, rfl⟩ : ∃ rest, body = '#' :: rest := by
      cases body with
      | nil => simp at hmark
      | cons c body => exact ⟨body, by simpa using hmark⟩
    have hafter : skipRemarks '#' true (body ++ '\n' :: rest) = skipRemarks '#' false rest :=
      skipRemarks_remark fun hmem => hfeed (List.mem_cons_of_mem '#' hmem)
    simpa [skipRemarks, isBlank, blankRuns] using hafter

theorem skipRemarks_idle_lines {lines : List (List Char)} {rest : List Char}
    (hidle : ∀ line ∈ lines, IsIdleLine line) :
    skipRemarks '#' false (lines.flatten ++ rest) = skipRemarks '#' false rest := by
  induction lines with
  | nil => rfl
  | cons line lines ih =>
      rw [List.flatten_cons, List.append_assoc, skipRemarks_idle (hidle line List.mem_cons_self)]
      exact ih fun other hother => hidle other (List.mem_cons_of_mem line hother)

/-- The headings of a set file. -/
inductive Heading
  | dimension
  | block (kind : Kind)
deriving DecidableEq, Repr

namespace Heading

/-- The word that a heading is. -/
def word : Heading → String
  | .dimension => dimensionKeyword
  | .block kind => kind.header

/-- A set file with a given dimension has the heading. -/
def IsIn (dimension : Nat) : Heading → Prop
  | .dimension => True
  | .block kind => kind.hasBlock dimension = true

theorem isToken_word (heading : Heading) : IsToken heading.word.toList := by
  cases heading with
  | dimension => exact isToken_of_all (by decide) (by decide)
  | block kind => exact isToken_header kind

end Heading

namespace Scan

variable {M : Type} [Connectivity M] (mesh : M)

/-- Read all that stands before the block of a kind. -/
def upToBlock (kind : Kind) : Scan (Nat × List (List (NamedSet Nat))) := do
  let dimension ← declared
  let blocks ← (Kind.all.take kind.index).mapM (blockOf mesh dimension)
  return (dimension, blocks)

/-- When a heading comes to be read, so much of the text is left. Remarks may stand before the
heading itself. -/
inductive Reaches (text : List Char) : Heading → List Char → Prop
  | dimension : Reaches text .dimension text
  | block {kind : Kind} {dimension : Nat} {blocks : List (List (NamedSet Nat))} {rest : List Char}
      (hread : (upToBlock mesh kind).run text = .ok ((dimension, blocks), rest))
      (hblock : kind.hasBlock dimension = true) : Reaches text (.block kind) rest

variable {mesh} {text rest : List Char}

theorem isLocal_upToBlock (kind : Kind) : (upToBlock mesh kind).IsLocal := by
  have hcompose := IsLocal.isComposable
  refine hcompose.bind ?_ fun dimension => hcompose.bind ?_ fun blocks => hcompose.pure _
  · exact hcompose.declared
  · exact hcompose.mapM (hcompose.blockOf mesh dimension) _

theorem stopsAfter_upToBlock (kind : Kind) : (upToBlock mesh kind).StopsAfter fun _ => True := by
  refine StopsAfter.bind ?_ fun dimension => StopsAfter.bind ?_ fun blocks => .pure _
  · exact .bind_any fun _ => .bind_any fun _ => .value _ _
  · exact StopsAfter.isTokenwise.mapM (StopsAfter.blockOf mesh dimension) _

/-- The sets of a file from the blocks that were read. -/
def ofBlocks : List (List (NamedSet Nat)) → SetsByKind Nat
  | [vertex, edge, face, element] => ⟨vertex, edge, face, element⟩
  | _ => .none

/-- A set file is read up to a block, then the block, and then the others. -/
theorem catalogSets_eq (mesh : M) (kind : Kind) : catalogSets mesh = do
    let (dimension, blocks) ← upToBlock mesh kind
    let block ← blockOf mesh dimension kind
    let others ← (Kind.all.drop (kind.index + 1)).mapM (blockOf mesh dimension)
    return ofBlocks (blocks ++ block :: others) := by
  cases kind <;>
    simp only [catalogSets, upToBlock, declared, Kind.all, Kind.index, List.take, List.drop,
      List.mapM_cons, List.mapM_nil, bind_assoc, pure_bind, List.nil_append, List.cons_append,
      ofBlocks]

/-- A keyword that is read is the next token. -/
theorem takeToken?_of_keyword {expected : String}
    (hread : (keyword expected).run text = .ok ((), rest)) :
    takeToken? text = some (expected.toList, rest) := by
  rw [keyword, StateT.run_bind] at hread
  obtain ⟨⟨token, after⟩, htoken, hfound⟩ := Result.bind_eq_ok_iff.mp hread
  obtain ⟨rfl, -⟩ | ⟨taken, rfl, htaken⟩ := takeToken?_of_token? htoken
  · cases hfound
  · dsimp only at hfound
    split_ifs at hfound with hsame
    · obtain rfl := congrArg Prod.snd (Except.ok.inj hfound)
      rw [htaken, ← hsame, String.toList_ofList]
    · cases hfound

/-- After remarks, a keyword that is read starts what is left. -/
theorem isPrefix_of_keyword {α : Type} {expected : String} {next : Unit → Scan α}
    {read : α × List Char}
    (hread : (remarks >>= fun _ => keyword expected >>= next).run text = .ok read) :
    expected.toList <+: skipRemarks '#' false text := by
  have hremarks : remarks.run text = .ok ((), skipRemarks '#' false text) := rfl
  rw [StateT.run_bind, hremarks, Result.ok_bind, StateT.run_bind] at hread
  obtain ⟨found, hkeyword, -⟩ := Result.bind_eq_ok_iff.mp hread
  obtain ⟨gap, hleft, hgap, -⟩ := exists_of_takeToken? (takeToken?_of_keyword hkeyword)
  cases gap with
  | nil => exact ⟨found.2, hleft.symm⟩
  | cons c gap =>
      obtain ⟨hc, -⟩ := exists_of_skipRemarks hleft
      exact absurd (hc.symm.trans (hgap c List.mem_cons_self)) (by decide)

/-- Idle lines before a heading do not show in what is read. -/
theorem exists_run_catalogSets_eq {heading : Heading} {reached place : List Char}
    (hreaches : Reaches mesh text heading reached) (hplace : skipRemarks '#' false reached = place)
    (hne : place ≠ []) : ∃ front, text = front ++ place ∧
      ∀ lines : List (List Char), (∀ line ∈ lines, IsIdleLine line) →
        (catalogSets mesh).run (front ++ (lines.flatten ++ place)) =
          (catalogSets mesh).run text := by
  obtain ⟨c, after, rfl⟩ := List.exists_cons_of_ne_nil hne
  obtain ⟨hc, -, skipped, rfl, hpassed⟩ := exists_of_skipRemarks hplace
  have hsame {lines : List (List Char)} (hidle : ∀ line ∈ lines, IsIdleLine line) :
      skipRemarks '#' false (skipped ++ (lines.flatten ++ c :: after)) =
        skipRemarks '#' false (skipped ++ c :: after) := by
    rw [hpassed, hpassed, skipRemarks_idle_lines hidle]
  cases hreaches with
  | dimension =>
      refine ⟨skipped, rfl, fun lines hidle => ?_⟩
      rw [catalogSets, StateT.run_bind, StateT.run_bind]
      exact congrArg (fun rest => Except.ok ((), rest) >>= _) (hsame hidle)
  | @block kind dimension blocks _ hread hblock =>
      have hstops := stopsAfter_upToBlock kind text trivial _ hread
      obtain ⟨taken, rfl, hagain⟩ := isLocal_upToBlock kind _ _ _ hread
      refine ⟨taken ++ skipped, (List.append_assoc _ _ _).symm, fun lines hidle => ?_⟩
      -- Reading stopped at a blank, not at the heading, so it does not see that lines are put in
      -- between.
      have hhead : (skipped ++ (lines.flatten ++ c :: after)).head? =
          (skipped ++ c :: after).head? := by
        cases skipped with
        | nil => exact absurd (hc.symm.trans (hstops c rfl)) (by decide)
        | cons d skipped => rfl
      have hrest : (blockOf mesh dimension kind).run (skipped ++ (lines.flatten ++ c :: after)) =
          (blockOf mesh dimension kind).run (skipped ++ c :: after) := by
        rw [blockOf, if_pos hblock, block, StateT.run_bind, StateT.run_bind]
        exact congrArg (fun rest => Except.ok ((), rest) >>= _) (hsame hidle)
      rw [catalogSets_eq mesh kind, List.append_assoc, StateT.run_bind, StateT.run_bind, hread,
        hagain _ hhead]
      simp only [Result.ok_bind, StateT.run_bind, hrest]

theorem declared_of_upToBlock {kind : Kind} {dimension : Nat} {blocks : List (List (NamedSet Nat))}
    (hread : (upToBlock mesh kind).run text = .ok ((dimension, blocks), rest)) :
    ∃ middle, declared.run text = .ok (dimension, middle) := by
  rw [upToBlock, StateT.run_bind] at hread
  obtain ⟨⟨found, middle⟩, hdeclared, hblocks⟩ := Result.bind_eq_ok_iff.mp hread
  rw [StateT.run_bind] at hblocks
  obtain ⟨read, -, hpure⟩ := Result.bind_eq_ok_iff.mp hblocks
  obtain rfl : found = dimension := congrArg (fun read => read.1.1) (Except.ok.inj hpure)
  exact ⟨middle, hdeclared⟩

/-- In a set file that is read, every heading of its dimension is reached and stands there. -/
theorem exists_reaches {read : SetsByKind Nat × List Char}
    (hread : (catalogSets mesh).run text = .ok read) :
    ∃ dimension middle, declared.run text = .ok (dimension, middle) ∧
      ∀ heading : Heading, heading.IsIn dimension → ∃ reached, Reaches mesh text heading reached ∧
        heading.word.toList <+: skipRemarks '#' false reached := by
  have hblocks (kind : Kind) : ∃ dimension blocks reached,
      (upToBlock mesh kind).run text = .ok ((dimension, blocks), reached) ∧
        ∃ found, (blockOf mesh dimension kind).run reached = .ok found := by
    have hread := hread
    rw [catalogSets_eq mesh kind, StateT.run_bind] at hread
    obtain ⟨⟨⟨dimension, blocks⟩, reached⟩, hupto, hrest⟩ := Result.bind_eq_ok_iff.mp hread
    dsimp only at hrest
    rw [StateT.run_bind] at hrest
    obtain ⟨found, hblock, -⟩ := Result.bind_eq_ok_iff.mp hrest
    exact ⟨dimension, blocks, reached, hupto, found, hblock⟩
  obtain ⟨dimension, _, _, hvertex, -⟩ := hblocks .vertex
  obtain ⟨middle, hdeclared⟩ := declared_of_upToBlock hvertex
  refine ⟨dimension, middle, hdeclared, fun heading hin => ?_⟩
  cases heading with
  | dimension => exact ⟨text, .dimension, isPrefix_of_keyword hread⟩
  | block kind =>
      obtain ⟨declaredHere, blocks, reached, hupto, found, hfound⟩ := hblocks kind
      obtain ⟨other, hother⟩ := declared_of_upToBlock hupto
      obtain ⟨rfl, rfl⟩ := Prod.mk.inj (Except.ok.inj (hdeclared.symm.trans hother))
      have hblock : kind.hasBlock dimension = true := hin
      rw [blockOf, if_pos hblock] at hfound
      exact ⟨reached, .block hupto hblock, isPrefix_of_keyword hfound⟩

end Scan

/-- If something follows the title line, something else may follow it. -/
theorem exists_titleLine_append {text : List Char} (hrest : (titleLine text).2 ≠ []) :
    ∃ front, text = front ++ (titleLine text).2 ∧
      ∀ other, titleLine (front ++ other) = ((titleLine text).1, other) := by
  cases htaken : takeLine? (skipBlanks text) with
  | none => simp [titleLine, htaken] at hrest
  | some read =>
      have htitle : titleLine text = read := by rw [titleLine, htaken, Option.getD_some]
      rw [htitle] at hrest ⊢
      obtain ⟨c, taken, hc, hfeed, hline, hleft | ⟨-, hnil⟩⟩ := exists_of_takeLine?_skipBlanks htaken
      · have hgap : IsGap (text.takeWhile isBlank) := fun c hc => List.mem_takeWhile_imp hc
        have hsplit : text.takeWhile isBlank ++ skipBlanks text = text :=
          List.takeWhile_append_dropWhile
        refine ⟨text.takeWhile isBlank ++ (c :: taken ++ ['\n']), ?_, fun other => ?_⟩
        · rw [List.append_assoc, List.append_assoc, List.singleton_append, ← hleft, hsplit]
        · have hother : skipBlanks (c :: taken ++ '\n' :: other) = c :: taken ++ '\n' :: other :=
            skipBlanks_of_head hc
          rw [titleLine, List.append_assoc, skipBlanks_append hgap, List.append_assoc,
            List.singleton_append, hother, takeLine?_feed hfeed, ← hline, Option.getD_some]
      · exact absurd hnil hrest

section Places

variable {M : Type} [Connectivity M] (mesh : M) (text : List Char)

/-- A heading that is read stands at the start of the place, behind the front. -/
structure IsPlace (heading : Heading) (front place : List Char) : Prop where
  text_eq : text = front ++ place
  reached : ∃ reached, Scan.Reaches mesh (titleLine text).2 heading reached ∧
    skipRemarks '#' false reached = place
  isPrefix : heading.word.toList <+: place

/-- The second text is the first one with some idle lines immediately before a heading that is
read. -/
inductive Annotates : List Char → Prop
  | before {heading : Heading} {front place : List Char} {lines : List (List Char)}
      (hplace : IsPlace mesh text heading front place) (hidle : ∀ line ∈ lines, IsIdleLine line) :
      Annotates (front ++ (lines.flatten ++ place))

variable {mesh text}

/-- The place of a heading is in the text, and idle lines before it show neither in the title nor
in what is read after it. -/
theorem exists_front {heading : Heading} {reached place : List Char}
    (hreaches : Scan.Reaches mesh (titleLine text).2 heading reached)
    (hplace : skipRemarks '#' false reached = place) (hword : heading.word.toList <+: place) :
    ∃ front, text = front ++ place ∧
      ∀ lines : List (List Char), (∀ line ∈ lines, IsIdleLine line) → ∃ body,
        titleLine (front ++ (lines.flatten ++ place)) = ((titleLine text).1, body) ∧
          (Scan.catalogSets mesh).run body = (Scan.catalogSets mesh).run (titleLine text).2 := by
  have hne : place ≠ [] := fun hnil =>
    heading.isToken_word.ne_nil (List.prefix_nil.mp (hnil ▸ hword))
  obtain ⟨middle, hbody, hsame⟩ := Scan.exists_run_catalogSets_eq hreaches hplace hne
  have hrest : (titleLine text).2 ≠ [] := by
    rw [hbody]
    exact List.append_ne_nil_of_right_ne_nil _ hne
  obtain ⟨title, hsplit, htitle⟩ := exists_titleLine_append hrest
  refine ⟨title ++ middle, ?_, fun lines hidle =>
    ⟨middle ++ (lines.flatten ++ place), ?_, hsame lines hidle⟩⟩
  · rw [List.append_assoc, ← hbody]
    exact hsplit
  · rw [List.append_assoc, htitle]

end Places

namespace Bound

variable {M : Type} [Connectivity M] {mesh : M} {text annotated : List Char}

/-- One annotation does not show. -/
theorem run_load_annotates (hannotates : Annotates mesh text annotated) (catalog : SetCatalog)
    (notes : List Note) : (load (inUTF8 annotated)).run ⟨⟨catalog, mesh⟩, notes⟩ =
      (load (inUTF8 text)).run ⟨⟨catalog, mesh⟩, notes⟩ := by
  obtain @⟨heading, front, place, lines, hplace, hidle⟩ := hannotates
  obtain ⟨reached, hreaches, hpassed⟩ := hplace.reached
  obtain ⟨found, hfound, hlines⟩ := exists_front hreaches hpassed hplace.isPrefix
  obtain rfl : front = found := List.append_cancel_right (hplace.text_eq.symm.trans hfound)
  obtain ⟨body, htitle, hsame⟩ := hlines lines hidle
  apply run_load_congr
  · rw [htitle]
  · rw [htitle, hsame]

theorem perform_load_annotated (hannotated : Relation.ReflTransGen (Annotates mesh) text annotated)
    (catalog : SetCatalog) :
    (load (inUTF8 annotated)).perform ⟨catalog, mesh⟩ =
      (load (inUTF8 text)).perform ⟨catalog, mesh⟩ := by
  have hrun : (load (inUTF8 annotated)).run ⟨⟨catalog, mesh⟩, []⟩ =
      (load (inUTF8 text)).run ⟨⟨catalog, mesh⟩, []⟩ := by
    induction hannotated with
    | refl => rfl
    | tail _ hlast ih => exact (run_load_annotates hlast catalog []).trans ih
  rw [Action.perform, Action.perform, hrun]

/-- A set file that is loaded has a place for each heading of its dimension. -/
theorem exists_isPlace {catalog : SetCatalog} {after : Bound M}
    (hruns : (load (inUTF8 text)).Runs ⟨catalog, mesh⟩ () after) (htitle : IsSetFile text) :
    ∃ dimension rest, Scan.declared.run (titleLine text).2 = .ok (dimension, rest) ∧
      ∀ heading : Heading, heading.IsIn dimension → ∃ front place,
        IsPlace mesh text heading front place := by
  obtain ⟨sets, left, hread⟩ := exists_read_of_load_runs hruns (decodeText_inUTF8 text) htitle
  obtain ⟨dimension, rest, hdeclared, hreached⟩ := Scan.exists_reaches hread
  refine ⟨dimension, rest, hdeclared, fun heading hin => ?_⟩
  obtain ⟨reached, hreaches, hword⟩ := hreached heading hin
  obtain ⟨front, htext, -⟩ := exists_front hreaches rfl hword
  exact ⟨front, _, htext, ⟨reached, hreaches, rfl⟩, hword⟩

/-- What loading a text does not depend on. -/
structure IgnoresLayout (mesh : M) (text : List Char) : Prop where
  /-- A text without carriage returns may have one before each line feed. -/
  returns : '\r' ∉ text →
    (load (inUTF8 (withReturns text)) : Action (Bound M) Unit) = load (inUTF8 text)
  /-- Idle lines may stand before any of the headings that are read. -/
  remarks : ∀ annotated, Relation.ReflTransGen (Annotates mesh) text annotated → ∀ catalog,
    (load (inUTF8 annotated)).perform ⟨catalog, mesh⟩ =
      (load (inUTF8 text)).perform ⟨catalog, mesh⟩
  /-- In a set file that is loaded they may stand before the dimension and before each block that
  a file of its dimension has. -/
  places : ∀ catalog after, (load (inUTF8 text)).Runs ⟨catalog, mesh⟩ () after → IsSetFile text →
    ∃ dimension rest, Scan.declared.run (titleLine text).2 = .ok (dimension, rest) ∧
      ∀ heading : Heading, heading.IsIn dimension → ∃ front place,
        IsPlace mesh text heading front place

/-- Neither the ends of lines nor remarks and empty lines before headings matter. -/
theorem load_ignoresLayout (mesh : M) (text : List Char) : IgnoresLayout mesh text where
  returns := load_withReturns
  remarks _ hannotated := perform_load_annotated hannotated
  places _ _ := exists_isPlace

/-- A set file up to its edge sets. -/
def beforeEdgeSets : List Char :=
  "MFEM sets v1.0\ndimension 3 vertex_sets 1\n# 1\n2 3 0 ".toList

/-- The set file from its edge sets on. -/
def fromEdgeSets : List Char := "edge_sets\n0\nface_sets\n0\nelement_sets\n0\n".toList

/-- A remark and an empty line. -/
def idleLines : List (List Char) := ["# none\n".toList, ['\n']]

theorem load_ignoresLayout_edgeSets :
    (load (inUTF8 (withReturns (beforeEdgeSets ++ fromEdgeSets))) :
        Action (Bound ElementMesh) Unit) = load (inUTF8 (beforeEdgeSets ++ fromEdgeSets)) ∧
      (load (inUTF8 (beforeEdgeSets ++ (idleLines.flatten ++ fromEdgeSets)))).perform
          (ofMesh tetrahedron) =
        (load (inUTF8 (beforeEdgeSets ++ fromEdgeSets))).perform (ofMesh tetrahedron) ∧
      ∃ dimension rest,
        Scan.declared.run (titleLine (beforeEdgeSets ++ fromEdgeSets)).2 = .ok (dimension, rest) ∧
          ∀ heading : Heading, heading.IsIn dimension → ∃ front place,
            IsPlace tetrahedron (beforeEdgeSets ++ fromEdgeSets) heading front place := by
  have hlayout := load_ignoresLayout tetrahedron (beforeEdgeSets ++ fromEdgeSets)
  have hupto : (Scan.upToBlock tetrahedron .edge).run
      (titleLine (beforeEdgeSets ++ fromEdgeSets)).2 =
        .ok ((3, [[⟨"# 1", [3, 0]⟩]]), ' ' :: fromEdgeSets) := by decide +kernel
  have hplace : IsPlace tetrahedron (beforeEdgeSets ++ fromEdgeSets) (.block .edge) beforeEdgeSets
      fromEdgeSets :=
    ⟨rfl, ⟨_, .block hupto (by decide), by decide +kernel⟩, by decide +kernel⟩
  have hidle : ∀ line ∈ idleLines, IsIdleLine line := by
    intro line hline
    obtain rfl | rfl : line = "# none\n".toList ∨ line = ['\n'] := by
      simpa only [idleLines, List.mem_cons, List.not_mem_nil, or_false] using hline
    · exact ⟨"# none".toList, by decide, by decide, .inr (by decide)⟩
    · exact ⟨[], rfl, List.not_mem_nil, .inl fun _ hc => absurd hc List.not_mem_nil⟩
  have hread : (Scan.catalogSets tetrahedron).run (titleLine (beforeEdgeSets ++ fromEdgeSets)).2 =
      .ok (⟨[⟨"# 1", [3, 0]⟩], [], [], []⟩, ['\n']) := by decide +kernel
  have hfile : IsSetFile (beforeEdgeSets ++ fromEdgeSets) := by decide +kernel
  have hmade : ElementMesh.ofElements 3 4 tetrahedron.elements = .ok tetrahedron := by rfl
  have hruns := load_runs_of_read (ElementMesh.Reachable.ofElements hmade).sound
    (SetCatalog.ofMesh tetrahedron) (decodeText_inUTF8 (beforeEdgeSets ++ fromEdgeSets)) hfile hread
    (by intro kind; cases kind <;> decide)
  exact ⟨hlayout.returns (by decide +kernel),
    hlayout.remarks _ (.single (.before hplace hidle)) _, hlayout.places _ _ hruns hfile⟩

end Bound

end MeshIncidence
