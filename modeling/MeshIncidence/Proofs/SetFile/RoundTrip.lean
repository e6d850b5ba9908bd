/-
# A printed set file is read back

Every piece of a printed set file is read back by the scan for it: members by number or by
their vertices, sets, blocks and the file. A piece is read as a whole up to the blanks that
end it, so the pieces are put together by `Scan.Reads` and nothing has to be said about
what stands before or after.

Names are the exception. A name is a line and not a token, so it may look like anything,
but it must not be empty, start with a blank, hold a line feed or end in a carriage return.
-/

import MeshIncidence.Proofs.SetFile.Composition
import MeshIncidence.Proofs.SetFile.Names
import MeshIncidence.Proofs.SetFile.Words
import MeshIncidence.Proofs.SetFile.Printing
import MeshIncidence.Proofs.Mesh.Reachable

namespace MeshIncidence

/-- A name that a set file keeps. -/
structure IsPlainName (name : String) : Prop where
  ne_nil : name.toList ≠ []
  no_feed : '\n' ∉ name.toList
  first_not_blank : name.toList.head?.any isBlank = false
  last_not_return : name.toList.getLast? ≠ some '\r'

instance (name : String) : Decidable (IsPlainName name) :=
  decidable_of_iff
    (name.toList ≠ [] ∧ '\n' ∉ name.toList ∧ name.toList.head?.any isBlank = false ∧
      name.toList.getLast? ≠ some '\r')
    ⟨fun ⟨hne, hfeed, hfirst, hlast⟩ => ⟨hne, hfeed, hfirst, hlast⟩,
      fun hname => ⟨hname.ne_nil, hname.no_feed, hname.first_not_blank, hname.last_not_return⟩⟩

namespace IsPlainName

variable {name : String}

theorem isNameLine (hname : IsPlainName name) : IsNameLine name.toList :=
  ⟨hname.ne_nil, hname.no_feed, hname.first_not_blank⟩

theorem endReturns_eq_zero (hname : IsPlainName name) : endReturns name.toList = 0 := by
  rcases List.eq_nil_or_concat' name.toList with hnil | ⟨front, last, hline⟩
  · exact absurd hnil hname.ne_nil
  · rw [hline]
    refine endReturns_append (fun hlast => hname.last_not_return ?_) front
    rw [hline, hlast, List.getLast?_concat]

end IsPlainName

/-- The sets and their members can be counted by machine words. -/
structure SetsByKind.AreCounted (sets : SetsByKind Nat) : Prop where
  sets_lt : ∀ kind, sets.count kind < wordBound
  members_lt : ∀ kind, ∀ set ∈ sets.get kind, set.members.length < wordBound

theorem isGap_feeds (count : Nat) : IsGap (List.replicate count '\n') := by
  intro c hc
  rw [List.eq_of_mem_replicate hc]
  decide

theorem isGap_space : IsGap [' '] := by
  intro c hc
  obtain rfl : c = ' ' := by simpa using hc
  decide

theorem toList_spaced (numbers : List Nat) :
    (spaced numbers).toList = [' '].intercalate (numbers.map (Nat.toDigits 10)) := by
  rw [spaced, String.toList_intercalate, List.map_map]
  congr 1
  exact List.map_congr_left fun number _ => by simp

theorem isToken_header (kind : Kind) : IsToken kind.header.toList := by
  cases kind <;> exact isToken_of_all (by decide) (by decide)

theorem SetsByKind.InRange.readBack {sets : SetsByKind Nat} {mesh : ElementMesh}
    (hrange : sets.InRange mesh) : sets.readBack.InRange mesh := by
  intro kind set hset
  rw [SetsByKind.get_readBack] at hset
  obtain ⟨before, hbefore, rfl⟩ := List.mem_map.mp hset
  exact hrange kind before hbefore

namespace ElementMesh

variable {mesh : ElementMesh}

/-- A face is found under its own number by the vertices of its row. -/
theorem face_faceRows {face : Nat} {row : List Nat} (hrow : mesh.faceRows[face]? = some row) :
    FaceNumbering.face ⟨mesh.faceKeys⟩ row = .ok face := by
  have hface : IsFace row := isFace_of_mem_faceRows (List.mem_of_getElem? hrow)
  have hfound : FaceNumbering.find? ⟨mesh.faceKeys⟩ row = some face :=
    (find?_face_eq_some_iff hface).mpr (getElem?_faceKeys hrow)
  rw [FaceNumbering.face, hfound]

end ElementMesh

namespace Scan

variable {mesh : ElementMesh}

/-- A number is read back as a member among so many. -/
theorem takes_inRange {field : Field} {limit number : Nat} (hnumber : number < limit)
    (hword : number < wordBound) :
    (word field >>= fun number => ofResult (inRange limit number)).Takes
      (Nat.toDigits 10 number) number :=
  (takes_word field hword).bind_passes (passes_ofResult (if_pos hnumber))

/-- An edge is read back by its vertices. -/
theorem takes_edge (hsound : mesh.Sound) (hwords : mesh.vertexCount < wordBound)
    {numbering : PairNumbering} (hlists : numbering.Lists mesh.edgeKeys) {edge : Nat}
    (hedge : edge < mesh.edgeKeys.length) :
    (Scan.edge numbering).Takes (mesh.edgeWords edge).toList edge := by
  have hends := List.getElem?_eq_getElem hedge
  obtain ⟨hfirst, hsecond⟩ := hsound.edgeKeys_lt hends
  have hfound : numbering.edge mesh.edgeKeys[edge].1 mesh.edgeKeys[edge].2 = .ok edge := by
    have hat := hlists.find?_eq_some_iff.mpr
      ((ElementMesh.key_of_getElem?_edgeKeys hends).symm ▸ hends)
    rw [PairNumbering.edge, hat]
  have htext : (mesh.edgeWords edge).toList =
      Nat.toDigits 10 mesh.edgeKeys[edge].1 ++ [' '] ++ Nat.toDigits 10 mesh.edgeKeys[edge].2 := by
    rw [ElementMesh.edgeWords, toList_spaced, List.getD_eq_getElem?_getD, hends, Option.getD_some]
    simp [List.intercalate]
  rw [htext]
  apply (takes_word _ (by omega)).bind (by simp) isGap_space
  exact (takes_word _ (by omega)).bind_passes (passes_ofResult hfound)

/-- A face is read back by its vertices. -/
theorem reads_face (hsound : mesh.Sound) (hwords : mesh.vertexCount < wordBound) {face : Nat}
    (hface : face < mesh.faceKeys.length) :
    (Scan.face ⟨mesh.faceKeys⟩).Reads (mesh.faceWords face).toList face := by
  rw [← ElementMesh.length_faceRows] at hface
  have hrow := List.getElem?_eq_getElem hface
  have hisFace : IsFace mesh.faceRows[face] :=
    ElementMesh.isFace_of_mem_faceRows (List.getElem_mem hface)
  obtain ⟨shape, htag, hcount⟩ : ∃ shape,
      CellShape.ofFaceTag? ((mesh.faceRows[face].length - 1 : Nat) : Int) = some shape ∧
        shape.cornerCount = mesh.faceRows[face].length := by
    rcases hisFace with hlength | hlength
    · exact ⟨.triangle, by rw [hlength]; decide, hlength.symm⟩
    · exact ⟨.quadrilateral, by rw [hlength]; decide, hlength.symm⟩
  have htext : (mesh.faceWords face).toList =
      (Nat.toDigits 10 (mesh.faceRows[face].length - 1) ++ [' ']) ++
        ([' '].intercalate (mesh.faceRows[face].map (Nat.toDigits 10)) ++ ['\n']) := by
    rw [ElementMesh.faceWords, List.getD_eq_getElem?_getD, hrow, Option.getD_some]
    simp [toList_spaced]
    rfl
  have hsmall : mesh.faceRows[face].length - 1 < wordBound / 2 := by
    rcases hisFace with hlength | hlength <;> rw [hlength] <;> decide
  have hne : mesh.faceRows[face] ≠ [] := by
    intro hnil
    rcases hisFace with hlength | hlength <;> rw [hnil] at hlength <;> simp at hlength
  have hvertices := reads_times_spaced hne
    (fun vertex hvertex => takes_word .faceVertex
      ((hsound.faceRows_lt hrow vertex hvertex).trans hwords))
    (by simp : ['\n'] ≠ []) (isGap_feeds 1)
  rw [htext]
  apply ((takes_signed _ hsmall).reads (by simp) isGap_space).bind
  simp only [htag, hcount]
  exact hvertices.bind_passes (passes_ofResult (ElementMesh.face_faceRows hrow))

theorem isGap_printedMembers_nil (mesh : ElementMesh) (kind : Kind) :
    IsGap (mesh.printedMembers kind []).toList := by
  cases kind with
  | face =>
      have htext : (mesh.printedMembers .face []).toList = ['\n'] := by
        simp [ElementMesh.printedMembers]
      rw [htext]
      exact isGap_feeds 1
  | _ => exact isGap_feeds 0

/-- Members in one line are read back if each of them is. -/
theorem reads_line {scan : Scan Nat} {words : Nat → String} {members : List Nat}
    (hne : members ≠ []) (htakes : ∀ number ∈ members, scan.Takes (words number).toList number) :
    (times scan members.length).Reads (" ".intercalate (members.map words) ++ "\n\n").toList
      members := by
  have hall := reads_times_spaced hne htakes (by simp : ['\n', '\n'] ≠ []) (isGap_feeds 2)
  rw [String.toList_append, String.toList_intercalate, List.map_map]
  exact hall

/-- Members that are printed as numbers are read back. -/
theorem reads_numbers {field : Field} {limit : Nat} (hlimit : limit < wordBound)
    {members : List Nat} (hne : members ≠ []) (hrange : ∀ number ∈ members, number < limit) :
    (times (word field >>= fun number => ofResult (inRange limit number)) members.length).Reads
      (spaced members ++ "\n\n").toList members := by
  apply reads_line hne
  intro number hnumber
  have hlt := hrange number hnumber
  rw [Nat.toString_eq_repr, Nat.toList_repr]
  exact takes_inRange hlt (hlt.trans hlimit)

/-- Faces are read back from their lines. -/
theorem reads_faces (hsound : mesh.Sound) (hwords : mesh.vertexCount < wordBound)
    {members : List Nat} (hne : members ≠ [])
    (hrange : ∀ face ∈ members, face < mesh.faceKeys.length) :
    (times (Scan.face ⟨mesh.faceKeys⟩) members.length).Reads
      (mesh.printedMembers .face members).toList members := by
  have hlines : List.Forall₂ (Scan.face ⟨mesh.faceKeys⟩).Reads
      (members.map fun face => (mesh.faceWords face).toList) members := by
    rw [List.forall₂_map_left_iff, List.forall₂_same]
    intro face hface
    exact reads_face hsound hwords (hrange face hface)
  have htext : (mesh.printedMembers .face members).toList =
      (members.map fun face => (mesh.faceWords face).toList).flatten ++ ['\n'] := by
    rw [ElementMesh.printedMembers, String.toList_append, String.toList_join, List.flatMap_def,
      List.map_map]
    rfl
  rw [htext]
  exact (reads_times hne hlines).append_gap (isGap_feeds 1)

/-- The members of each kind are read back, by the scan that the mesh gives for them. -/
theorem exists_member (hsound : mesh.Sound) (hvertices : mesh.vertexCount < wordBound)
    (helements : mesh.elements.length < wordBound) (kind : Kind) :
    ∃ member, Scan.member mesh kind = .ok member ∧
      ∀ members : List Nat, members ≠ [] → (∀ number ∈ members, number < mesh.entityCount kind) →
        (times member members.length).Reads (mesh.printedMembers kind members).toList members := by
  have hsome {members : List Nat} (hne : members ≠ []) : ¬ members.isEmpty = true := by
    simpa using hne
  cases kind with
  | vertex =>
      refine ⟨_, rfl, fun members hne hrange => ?_⟩
      simp only [ElementMesh.printedMembers, if_neg (hsome hne)]
      exact reads_numbers hvertices hne hrange
  | edge =>
      obtain ⟨numbering, hnumbering, hlists⟩ := ElementMesh.edges_eq hsound.fits
      refine ⟨Scan.edge numbering, congrArg (Except.map Scan.edge) hnumbering, ?_⟩
      intro members hne hrange
      rw [ElementMesh.printedMembers, if_neg (hsome hne)]
      exact reads_line hne fun edge hedge => takes_edge hsound hvertices hlists (hrange edge hedge)
  | face =>
      refine ⟨Scan.face ⟨mesh.faceKeys⟩, congrArg (Except.map Scan.face) (ElementMesh.faces_eq _), ?_⟩
      intro members hne hrange
      exact reads_faces hsound hvertices hne hrange
  | element =>
      refine ⟨_, rfl, fun members hne hrange => ?_⟩
      simp only [ElementMesh.printedMembers, if_neg (hsome hne)]
      exact reads_numbers helements hne hrange

/-- A set is read back with its name and its members. -/
theorem reads_namedSet {kind : Kind} {member : Scan Nat} {set : NamedSet Nat} {text : List Char}
    (hname : IsNameLine set.name.toList) (hcount : set.members.length < wordBound)
    (hmembers : (times member set.members.length).Continues text set.members) :
    (namedSet kind member).Reads ((setOpening set.name set.members.length).toList ++ text)
      set.readBack := by
  have hbody : (word .entityCount >>= fun count => times member count >>= fun members =>
      pure (⟨String.ofList (withoutReturn set.name.toList), members⟩ : NamedSet Nat)).Reads
        ((Nat.toDigits 10 set.members.length ++ ['\n']) ++ (text ++ [])) set.readBack :=
    ((takes_word _ hcount).reads (by simp) (isGap_feeds 1)).bind_continues
      (hmembers.bind (.passes (passes_pure _)))
  obtain ⟨core, trail, htext, hne, hgap, htakes⟩ := hbody
  refine ⟨set.name.toList ++ '\n' :: core, trail, ?_, hne, hgap, ?_⟩
  · rw [List.append_nil] at htext
    rw [List.append_assoc, List.cons_append, ← htext]
    simp [setOpening]
    rfl
  · intro gap rest hgap hstops
    have hskip : skipBlanks (gap ++ (set.name.toList ++ '\n' :: core) ++ rest) =
        set.name.toList ++ '\n' :: (core ++ rest) := by
      rw [List.append_assoc, skipBlanks_append hgap, List.append_assoc, List.cons_append]
      apply skipBlanks_of_head
      rw [List.head?_append_of_ne_nil _ hname.ne_nil]
      exact hname.first_not_blank
    have hline : line?.run (set.name.toList ++ '\n' :: (core ++ rest)) =
        .ok (some (withoutReturn set.name.toList), core ++ rest) := by
      simp only [line?, StateT.run, takeLine?_feed hname.no_feed]
    have hrun := htakes [] rest (by simp [IsGap]) hstops
    rw [List.nil_append] at hrun
    have hblanks : blanks.run (gap ++ (set.name.toList ++ '\n' :: core) ++ rest) =
        .ok ((), set.name.toList ++ '\n' :: (core ++ rest)) := by
      rw [← hskip]
      rfl
    rw [namedSet, StateT.run_bind, hblanks, Result.ok_bind, StateT.run_bind, hline]
    simp only [Result.ok_bind]
    exact hrun

variable {sets : SetsByKind Nat} {kind : Kind} {member : Scan Nat}

/-- A printed set is read back. -/
theorem reads_printedSet {set : NamedSet Nat} (hname : IsNameLine set.name.toList)
    (hcount : set.members.length < wordBound)
    (hmembers : set.members ≠ [] → (times member set.members.length).Reads
      (mesh.printedMembers kind set.members).toList set.members) :
    (namedSet kind member).Reads (mesh.printedSet kind set).toList set.readBack := by
  rw [ElementMesh.printedSet, String.toList_append]
  by_cases hnone : set.members = []
  · have hopening : (namedSet kind member).Reads
        ((setOpening set.name set.members.length).toList ++ []) set.readBack :=
      reads_namedSet hname hcount (by rw [hnone]; exact .passes (passes_pure []))
    rw [List.append_nil] at hopening
    have hgap := isGap_printedMembers_nil mesh kind
    rw [← hnone] at hgap
    exact hopening.append_gap hgap
  · exact reads_namedSet hname hcount (.reads (hmembers hnone))

theorem header_head?_ne (kind : Kind) : kind.header.toList.head? ≠ some '#' := by
  cases kind <;> decide

/-- A printed block is read back with its sets. -/
theorem reads_block (hmember : Scan.member mesh kind = .ok member)
    (hcount : sets.count kind < wordBound)
    (hsets : ∀ set ∈ sets.get kind,
      (namedSet kind member).Reads (mesh.printedSet kind set).toList set.readBack) :
    (block mesh kind).Reads (mesh.printedBlock sets kind).toList (sets.readBack.get kind) := by
  have htext : (mesh.printedBlock sets kind).toList = kind.header.toList ++ (['\n'] ++
      (Nat.toDigits 10 (sets.count kind) ++ ['\n', '\n'] ++
        ((sets.get kind).map fun set => (mesh.printedSet kind set).toList).flatten)) := by
    rw [ElementMesh.printedBlock, String.toList_append, String.toList_join, List.flatMap_def,
      List.map_map]
    simp [blockOpening]
    rfl
  have hall : List.Forall₂ (namedSet kind member).Reads
      ((sets.get kind).map fun set => (mesh.printedSet kind set).toList)
        (sets.readBack.get kind) := by
    rw [SetsByKind.get_readBack, List.forall₂_map_left_iff, List.forall₂_map_right_iff,
      List.forall₂_same]
    exact hsets
  let sequel (count : Nat) : Scan (List (NamedSet Nat)) :=
    if count = 0 then pure []
    else ofResult (Scan.member mesh kind) >>= fun member => times (namedSet kind member) count
  have hsequel : (sequel (sets.count kind)).Continues
      ((sets.get kind).map fun set => (mesh.printedSet kind set).toList).flatten
        (sets.readBack.get kind) := by
    rw [← SetsByKind.count_readBack]
    by_cases hnone : sets.readBack.get kind = []
    · have hprinted : sets.get kind = [] := by
        rwa [SetsByKind.get_readBack, List.map_eq_nil_iff] at hnone
      rw [SetsByKind.count, hnone, hprinted]
      exact .passes (passes_pure [])
    · have hsome : sets.readBack.count kind ≠ 0 := by
        rw [SetsByKind.count]
        simpa using hnone
      simp only [sequel, if_neg hsome]
      exact .reads ((passes_ofResult hmember).bind_reads (reads_times hnone hall))
  have hcounted : (word .setCount >>= sequel).Reads _ (sets.readBack.get kind) :=
    ((takes_word .setCount hcount).reads (by simp) (isGap_feeds 2)).bind_continues hsequel
  have hheader : (keyword kind.header >>= fun _ => word .setCount >>= sequel).Reads _
      (sets.readBack.get kind) :=
    ((takes_keyword (isToken_header kind)).reads (by simp) (isGap_feeds 1)).bind hcounted
  rw [List.append_assoc] at hheader
  rw [htext]
  exact hheader.after_remarks (isToken_header kind) (header_head?_ne kind)

/-- The text of a block, if a set file of the mesh has one. -/
def blockText (mesh : ElementMesh) (sets : SetsByKind Nat) (kind : Kind) : List Char :=
  if kind.hasBlock mesh.dimension then (mesh.printedBlock sets kind).toList else []

theorem reads_declared {dimension : Nat} (hdimension : dimension < wordBound) :
    declared.Reads (dimensionKeyword.toList ++ (['\n'] ++
      (Nat.toDigits 10 dimension ++ ['\n', '\n']))) dimension := by
  have hkeyword : IsToken dimensionKeyword.toList := isToken_of_all (by decide) (by decide)
  have hword : (keyword dimensionKeyword >>= fun _ => word .dimension).Reads _ dimension :=
    ((takes_keyword hkeyword).reads (by simp) (isGap_feeds 1)).bind
      ((takes_word .dimension hdimension).reads (by simp) (isGap_feeds 2))
  rw [List.append_assoc] at hword
  exact hword.after_remarks hkeyword (by decide)

/-- What follows the title of a set file is read back. -/
theorem reads_catalogSets (hdimension : mesh.dimension < wordBound)
    (hblocks : ∀ kind, (blockOf mesh mesh.dimension kind).Continues (blockText mesh sets kind)
      (sets.readBack.get kind)) :
    (catalogSets mesh).Reads (dimensionKeyword.toList ++ (['\n'] ++
      (Nat.toDigits 10 mesh.dimension ++ ['\n', '\n'] ++ (blockText mesh sets .vertex ++
        (blockText mesh sets .edge ++ (blockText mesh sets .face ++
          (blockText mesh sets .element ++ []))))))) sets.readBack := by
  have hall : (blocks mesh mesh.dimension).Continues _ sets.readBack :=
    (hblocks .vertex).bind ((hblocks .edge).bind ((hblocks .face).bind
      ((hblocks .element).bind (.passes (passes_pure _)))))
  have hread := (reads_declared hdimension).bind_continues hall
  rw [List.append_assoc, List.append_assoc] at hread
  rw [catalogSets_eq_blocks]
  exact hread

/-- A kind of entity has a block that is read back, or else no sets and no block. -/
theorem continues_blockOf (hsound : mesh.Sound) (hvertices : mesh.vertexCount < wordBound)
    (helements : mesh.elements.length < wordBound) (hrange : sets.InRange mesh)
    (hnames : ∀ set ∈ sets.get kind, IsNameLine set.name.toList) (hcounted : sets.AreCounted)
    (hadmitted : 0 < sets.count kind → kind.hasBlock mesh.dimension = true) :
    (blockOf mesh mesh.dimension kind).Continues (blockText mesh sets kind)
      (sets.readBack.get kind) := by
  rw [blockOf, blockText]
  by_cases hblock : kind.hasBlock mesh.dimension = true
  · rw [if_pos hblock, if_pos hblock]
    obtain ⟨member, hmember, hmembers⟩ := exists_member hsound hvertices helements kind
    refine .reads (reads_block hmember (hcounted.sets_lt kind) fun set hset => ?_)
    exact reads_printedSet (hnames set hset) (hcounted.members_lt kind set hset)
      fun hne => hmembers set.members hne (hrange kind set hset)
  · have hnone : sets.get kind = [] :=
      List.eq_nil_of_length_eq_zero (Nat.eq_zero_of_not_pos fun hsome => hblock (hadmitted hsome))
    rw [if_neg hblock, if_neg hblock, SetsByKind.get_readBack, hnone]
    exact .passes (passes_pure [])

end Scan

/-- The text of a set file: the title, the dimension and the blocks there are. -/
theorem toList_setFile (mesh : ElementMesh) (sets : SetsByKind Nat) :
    (s!"{setFileTitle}\n\n{dimensionKeyword}\n{mesh.dimension}\n\n" ++ String.join
      ((Kind.all.filter (Kind.hasBlock mesh.dimension)).map (mesh.printedBlock sets))).toList =
      setFileTitle.toList ++ '\n' :: '\n' :: (dimensionKeyword.toList ++ (['\n'] ++
        (Nat.toDigits 10 mesh.dimension ++ ['\n', '\n'] ++ (Scan.blockText mesh sets .vertex ++
          (Scan.blockText mesh sets .edge ++ (Scan.blockText mesh sets .face ++
            (Scan.blockText mesh sets .element ++ []))))))) := by
  have hfilter (kinds : List Kind) : (kinds.filter (Kind.hasBlock mesh.dimension)).flatMap
      (fun kind => (mesh.printedBlock sets kind).toList) =
        kinds.flatMap (Scan.blockText mesh sets) := by
    induction kinds with
    | nil => rfl
    | cons kind kinds ih =>
        by_cases hblock : kind.hasBlock mesh.dimension = true <;>
          simp [Scan.blockText, hblock, ih]
  have hblocks : (String.join ((Kind.all.filter (Kind.hasBlock mesh.dimension)).map
      (mesh.printedBlock sets))).toList = Kind.all.flatMap (Scan.blockText mesh sets) := by
    rw [String.toList_join, List.flatMap_map, hfilter]
  rw [String.toList_append, hblocks]
  simp [Kind.all]
  rfl

/-- Up to the line feed after it, the title is the first line. -/
theorem titleLine_append (body : List Char) :
    titleLine (setFileTitle.toList ++ '\n' :: body) = (setFileTitle.toList, body) := by
  have hskip : skipBlanks (setFileTitle.toList ++ '\n' :: body) =
      setFileTitle.toList ++ '\n' :: body := by
    apply skipBlanks_of_head
    rw [List.head?_append_of_ne_nil _ (by decide)]
    decide
  rw [titleLine, hskip, takeLine?_append (by decide) (by decide), Option.getD_some]

namespace Bound

/-- Sets with names that a reader may find can be printed, and loading the printed text for the
mesh gives them as they are read back, whatever sets there were before. -/
theorem exists_render_load {mesh : ElementMesh} {sets : SetsByKind Nat} (hmesh : mesh.Reachable)
    (hstorable : mesh.IsStorable) (hdimension : mesh.dimension < wordBound)
    (hrange : sets.InRange mesh) (hcounted : sets.AreCounted)
    (hnames : ∀ kind, ∀ set ∈ sets.get kind, IsNameLine set.name.toList)
    (hadmitted : ∀ kind, 0 < sets.count kind → kind.hasBlock mesh.dimension = true) :
    ∃ text, (SetCatalog.boundTo sets mesh).render = .ok text ∧ ∀ catalog : SetCatalog,
      (load text.toUTF8).Runs ⟨catalog, mesh⟩ () ⟨.boundTo sets.readBack mesh, mesh⟩ := by
  have hsound := hmesh.sound
  refine ⟨_, SetCatalog.render_boundTo hrange, fun catalog => ?_⟩
  obtain ⟨core, trail, htext, hne, hgap, htakes⟩ := Scan.reads_catalogSets hdimension fun kind =>
    Scan.continues_blockOf hsound (hmesh.vertexCount_lt hstorable) hstorable.length_lt hrange
      (hnames kind) hcounted (hadmitted kind)
  have hscan : (Scan.catalogSets mesh).run ('\n' :: (core ++ trail)) =
      .ok (sets.readBack, trail) := by
    have hstops : Stops (trail ++ []) := stops_of_isGap hne hgap
    rw [List.append_nil] at hstops
    exact htakes ['\n'] trail (isGap_feeds 1) hstops
  apply Action.runs_state.bind
  apply (Action.runs_ofResult (decodeText_toUTF8 _)).bind
  rw [toList_setFile, htext]
  simp only [titleLine_append, String.ofList_toList, ne_eq, not_true_eq_false, if_false]
  apply (Action.runs_ofResult hscan).bind
  apply Action.runs_setState.bind
  apply (Action.runs_note _).bind
  exact rebind_runs hsound { catalog with sets := sets.readBack } hrange.readBack

/-- Printing the sets bound to a mesh succeeds, and loading the printed text for the mesh
gives the same catalog: sets with equal names and members in the same order, tables,
dimension and counts. -/
theorem load_render {mesh : ElementMesh} {catalog : SetCatalog} (hmesh : mesh.Reachable)
    (hstorable : mesh.IsStorable) (hdimension : mesh.dimension < wordBound)
    (hbound : IsBound ⟨catalog, mesh⟩) (hcounted : catalog.sets.AreCounted)
    (hnames : ∀ kind, ∀ set ∈ catalog.sets.get kind, IsPlainName set.name)
    (hedge : 0 < catalog.sets.count .edge → 1 < mesh.dimension)
    (hface : 0 < catalog.sets.count .face → 2 < mesh.dimension) :
    ∃ text, catalog.render = .ok text ∧
      (load text.toUTF8).Runs (ofMesh mesh) () ⟨catalog, mesh⟩ := by
  obtain ⟨hcatalog, hrange⟩ := (isBound_iff hmesh.sound).mp hbound
  have hadmitted (kind : Kind) (hsome : 0 < catalog.sets.count kind) :
      kind.hasBlock mesh.dimension = true := by
    cases kind with
    | edge => exact decide_eq_true (hedge hsome)
    | face => exact decide_eq_true (hface hsome)
    | _ => rfl
  obtain ⟨text, hrender, hload⟩ := exists_render_load hmesh hstorable hdimension hrange hcounted
    (fun kind set hset => (hnames kind set hset).isNameLine) hadmitted
  have hplain : catalog.sets.readBack = catalog.sets :=
    SetsByKind.readBack_eq_self fun kind set hset => (hnames kind set hset).endReturns_eq_zero
  rw [hplain, ← hcatalog] at hload
  rw [← hcatalog] at hrender
  exact ⟨text, hrender, hload _⟩

/-- A tetrahedron. -/
def tetrahedron : ElementMesh := .counted ⟨3, 4, [⟨.tetrahedron, [3, 1, 0, 2]⟩], 0, 0, .none⟩

/-- Sets with names that look like a number, a header or a remark, and sets without
members. -/
def oddlyNamedSets : SetsByKind Nat where
  vertex := [⟨"12", [3, 3, 0]⟩, ⟨"12", []⟩]
  edge := [⟨"face_sets", [5, 0]⟩, ⟨"# 1", []⟩]
  face := [⟨"a  b ", []⟩, ⟨"element_sets", [2, 1, 2]⟩]
  element := [⟨"0", [0]⟩]

theorem load_render_tetrahedron :
    ∃ text, (SetCatalog.boundTo oddlyNamedSets tetrahedron).render = .ok text ∧
      (load text.toUTF8).Runs (ofMesh tetrahedron) ()
        ⟨.boundTo oddlyNamedSets tetrahedron, tetrahedron⟩ := by
  have hmade : ElementMesh.ofElements 3 4 tetrahedron.elements = .ok tetrahedron := by rfl
  have hmesh : tetrahedron.Reachable := .ofElements hmade
  have hrange : oddlyNamedSets.InRange tetrahedron := by
    intro kind
    cases kind <;> decide
  have hcounted : oddlyNamedSets.AreCounted := by
    constructor <;> intro kind <;> cases kind <;> decide
  have hnames : ∀ kind, ∀ set ∈ oddlyNamedSets.get kind, IsPlainName set.name := by
    intro kind
    cases kind <;> decide
  exact load_render hmesh (by decide) (by decide) ((isBound_iff hmesh.sound).mpr ⟨rfl, hrange⟩)
    hcounted hnames (by decide) (by decide)

end Bound

end MeshIncidence
