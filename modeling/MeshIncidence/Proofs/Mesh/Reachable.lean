/-
# Meshes that can come about

A mesh is made of accepted elements, may keep tables or hand one over, and may be
refined any number of times. Whatever is done to it, it is sound.

Its numbers also stay machine words as long as its elements can be stored. The
vertices that were named at first had room for a row each; all later ones were added
along with elements, three at most for each element there is now.
-/

import MeshIncidence.Mesh.Grid
import MeshIncidence.Proofs.Catalog.Binding
import MeshIncidence.Proofs.Refinement.Vertices

namespace MeshIncidence

-- Powers are those of the core library, whatever else a module imports.
attribute [default_instance high] instPowNat

namespace ElementMesh

/-- The meshes that can be made by the operations on meshes. -/
inductive Reachable : ElementMesh → Prop
  | ofElements {dimension vertexCount : Nat} {elements : List Element} {mesh : ElementMesh}
      (hmade : ofElements dimension vertexCount elements = .ok mesh) : Reachable mesh
  | keepTables {mesh keeping : ElementMesh} (hmesh : Reachable mesh)
      (hkept : mesh.keepTables = .ok keeping) : Reachable keeping
  | handOver {mesh left : ElementMesh} {which : DerivedTable} {table : IncidenceTable}
      (hmesh : Reachable mesh) (hleft : mesh.handOver which = .ok (table, left)) : Reachable left
  | refined {mesh fine : ElementMesh} (hmesh : Reachable mesh) (hfine : mesh.refined = .ok fine) :
      Reachable fine

variable {mesh : ElementMesh}

/-- Accepted elements fit, and the mesh made of them has their counts. -/
theorem ofElements_eq_ok {dimension vertexCount : Nat} {elements : List Element}
    (hmade : ofElements dimension vertexCount elements = .ok mesh) :
    (∀ element ∈ elements, element.Fits dimension vertexCount) ∧
      vertexCount * numberedRowBytes ≤ byteBound ∧
      mesh = counted ⟨dimension, vertexCount, elements, 0, 0, .none⟩ := by
  obtain ⟨_, haccept, hmade⟩ := Result.bind_eq_ok_iff.mp hmade
  obtain ⟨_, hreserve, hmade⟩ := Result.bind_eq_ok_iff.mp hmade
  have hfits : ∀ element ∈ elements, element.Fits dimension vertexCount := by
    intro element helement
    obtain ⟨index, hindex⟩ := List.mem_iff_getElem?.mp helement
    generalize hdefect : elements.zipIdx.findSome? _ = defect at haccept
    cases defect with
    | some error => simp [accept, refuse] at haccept
    | none =>
        exact (Element.defect?_eq_none_iff index).mp
          (List.findSome?_eq_none_iff.mp hdefect (element, index)
            (List.mem_zipIdx_iff_getElem?.mpr hindex))
  refine ⟨hfits, ?_, ?_⟩
  · by_contra hlarge
    rw [reserve, if_neg hlarge] at hreserve
    exact absurd hreserve (by simp [stop])
  · have hcounted := recount_eq (show ∀ element ∈
      (ElementMesh.mk dimension vertexCount elements 0 0 .none).elements, _ from hfits)
    exact Except.ok.inj (hmade.symm.trans hcounted)

/-- A mesh can be made of elements that fit, if there is room for its vertices. -/
theorem ofElements_eq_ok_iff {dimension vertexCount : Nat} {elements : List Element} :
    ofElements dimension vertexCount elements = .ok mesh ↔
      (∀ element ∈ elements, element.Fits dimension vertexCount) ∧
        vertexCount * numberedRowBytes ≤ byteBound ∧
        mesh = counted ⟨dimension, vertexCount, elements, 0, 0, .none⟩ := by
  refine ⟨ofElements_eq_ok, ?_⟩
  rintro ⟨hfits, hroom, rfl⟩
  have hdefect : (elements.zipIdx.findSome? fun entry =>
      entry.1.defect? entry.2 dimension vertexCount) = none := by
    rw [List.findSome?_eq_none_iff]
    rintro ⟨element, index⟩ hmember
    exact (Element.defect?_eq_none_iff index).mpr
      (hfits element (List.mem_of_getElem? (List.mem_zipIdx_iff_getElem?.mp hmember)))
  have hcounted := recount_eq (show ∀ element ∈
    (ElementMesh.mk dimension vertexCount elements 0 0 .none).elements, _ from hfits)
  refine Result.bind_eq_ok_iff.mpr ⟨(), congrArg accept hdefect, ?_⟩
  rw [reserve, if_pos hroom]
  exact hcounted

/-- Kept tables are those that the elements give. -/
theorem Sound.keepTables_eq (hsound : mesh.Sound) {keeping : ElementMesh}
    (hkept : mesh.keepTables = .ok keeping) :
    keeping.Sound ∧ ∃ tables, keeping = { mesh with tables := tables } := by
  rw [keepTables, hsound.derive_eq, hsound.derive_eq, hsound.derive_eq] at hkept
  simp only [Result.ok_bind, Result.pure_eq_ok] at hkept
  split at hkept
  · rw [← Except.ok.inj hkept]
    refine ⟨⟨hsound.fits, hsound.edgeCount_eq, hsound.faceCount_eq, ?_⟩, _, rfl⟩
    intro which table hwhich
    cases which <;> exact (Option.some.inj hwhich).symm
  · rw [← Except.ok.inj hkept]
    refine ⟨⟨hsound.fits, hsound.edgeCount_eq, hsound.faceCount_eq, ?_⟩, _, rfl⟩
    intro which table hwhich
    cases which with
    | edgeVertex => exact (Option.some.inj hwhich).symm
    | faceVertex => exact hsound.tables_eq .faceVertex table hwhich
    | faceEdge => exact hsound.tables_eq .faceEdge table hwhich

/-- What is left after a table has been handed over is still sound. -/
theorem Sound.sound_of_handOver_eq (hsound : mesh.Sound) {left : ElementMesh}
    {which : DerivedTable} {table : IncidenceTable}
    (hleft : mesh.handOver which = .ok (table, left)) :
    left.Sound ∧ ∃ tables, left = { mesh with tables := tables } := by
  rw [hsound.handOver_eq, Except.ok.injEq, Prod.mk.injEq] at hleft
  obtain ⟨-, rfl⟩ := hleft
  refine ⟨⟨hsound.fits, hsound.edgeCount_eq, hsound.faceCount_eq, ?_⟩, _, rfl⟩
  intro other kept hkept
  by_cases hsame : other = which
  · subst hsame
    exact absurd hkept (by simp)
  · apply hsound.tables_eq other kept
    rw [← hkept]
    cases other <;> cases which <;> first | rfl | exact absurd rfl hsame

/-- What is refined is a mesh of one shape. -/
theorem Sound.refined_eq_ok (hsound : mesh.Sound) {fine : ElementMesh}
    (hfine : mesh.refined = .ok fine) :
    ∃ shape, mesh.IsUniform shape ∧ fine = mesh.refinement shape := by
  obtain ⟨outcome, hsplit, -⟩ := Result.bind_eq_ok_iff.mp hfine
  obtain ⟨shape, huniform⟩ := isUniform_of_split_eq hsplit
  rw [refined_eq hsound huniform] at hfine
  exact ⟨shape, huniform, (Except.ok.inj hfine).symm⟩

theorem Reachable.sound (hmesh : mesh.Reachable) : mesh.Sound := by
  induction hmesh with
  | ofElements hmade =>
      obtain ⟨hfits, -, rfl⟩ := ofElements_eq_ok hmade
      exact sound_counted hfits rfl
  | keepTables _ hkept ih => exact (ih.keepTables_eq hkept).1
  | handOver _ hleft ih => exact (ih.sound_of_handOver_eq hleft).1
  | refined _ hfine ih =>
      obtain ⟨shape, huniform, rfl⟩ := ih.refined_eq_ok hfine
      exact sound_refinement ih huniform

/-- Splitting in place, whether it succeeds or not. -/
theorem Reachable.refine_perform (hmesh : mesh.Reachable) :
    (refine.perform mesh).2.state.Reachable := by
  cases hsplit : mesh.split with
  | error failure =>
      obtain ⟨notes, hperform⟩ := (refine_ends_of_split_eq_error hsplit).perform
      rw [hperform]
      exact hmesh
  | ok outcome =>
      obtain ⟨shape, huniform⟩ := isUniform_of_split_eq hsplit
      obtain ⟨notes, hperform⟩ := (refine_runs hmesh.sound huniform).perform
      rw [hperform]
      exact .refined hmesh (refined_eq hmesh.sound huniform)

/-- The mesh can be kept in storage: its elements take no more bytes than an allocation
can. -/
def IsStorable (mesh : ElementMesh) : Prop := mesh.elements.length * elementBytes ≤ byteBound

instance (mesh : ElementMesh) : Decidable mesh.IsStorable :=
  inferInstanceAs (Decidable (mesh.elements.length * elementBytes ≤ byteBound))

section Storage

variable {shape : CellShape}

theorem length_flatMap_of_shape {α : Type} {elements : List Element} {parts : Element → List α}
    {count : Nat} (hcount : ∀ element ∈ elements, (parts element).length = count) :
    (elements.flatMap parts).length = elements.length * count := by
  induction elements with
  | nil => simp
  | cons element elements ih =>
      have hrest := ih fun other hother => hcount other (by simp [hother])
      rw [List.flatMap_cons, List.length_append, hrest, hcount element (by simp),
        List.length_cons, Nat.succ_mul, Nat.add_comm]

theorem length_edgeKeys_le (huniform : mesh.IsUniform shape) :
    mesh.edgeKeys.length ≤ mesh.elements.length * shape.edges.length := by
  have hlength : mesh.localEdges.length = mesh.elements.length * shape.edges.length :=
    length_flatMap_of_shape fun element helement => by
      rw [Element.edges, List.length_map, huniform.shape_eq element helement]
  have hseen := length_seenAfter_le []
    (mesh.localEdges.map fun edge => PairNumbering.key edge.1 edge.2)
  rwa [List.length_nil, Nat.zero_add, List.length_map, hlength] at hseen

theorem length_faceKeys_le (huniform : mesh.IsUniform shape) :
    mesh.faceKeys.length ≤ mesh.elements.length * shape.faces.length := by
  have hlength : mesh.localFaces.length = mesh.elements.length * shape.faces.length :=
    length_flatMap_of_shape fun element helement => by
      rw [Element.faces, List.length_map, huniform.shape_eq element helement]
  have hseen := length_seenAfter_le [] (mesh.localFaces.map ascending)
  rwa [List.length_nil, Nat.zero_add, List.length_map, hlength] at hseen

/-- Splitting adds at most nineteen vertices for each element. -/
theorem centerVertex_le (huniform : mesh.IsUniform shape) :
    mesh.centerVertex mesh.elements.length ≤
      mesh.vertexCount + (shape.edges.length + shape.faces.length + 1) * mesh.elements.length := by
  have hedges := length_edgeKeys_le huniform
  have hfaces := length_faceKeys_le huniform
  rw [centerVertex, Nat.add_mul, Nat.add_mul, Nat.one_mul,
    Nat.mul_comm shape.edges.length, Nat.mul_comm shape.faces.length]
  omega

/-- The vertices in excess of those that had room for a row are at most three for each
element. -/
theorem Reachable.vertexCount_le (hmesh : mesh.Reachable) :
    mesh.vertexCount * numberedRowBytes ≤
      byteBound + 3 * mesh.elements.length * numberedRowBytes := by
  induction hmesh with
  | ofElements hmade =>
      obtain ⟨-, hroom, rfl⟩ := ofElements_eq_ok hmade
      exact hroom.trans (Nat.le_add_right _ _)
  | keepTables hmesh hkept ih =>
      obtain ⟨-, tables, rfl⟩ := hmesh.sound.keepTables_eq hkept
      exact ih
  | handOver hmesh hleft ih =>
      obtain ⟨-, tables, rfl⟩ := hmesh.sound.sound_of_handOver_eq hleft
      exact ih
  | @refined mesh fine hmesh hfine ih =>
      obtain ⟨shape, huniform, rfl⟩ := hmesh.sound.refined_eq_ok hfine
      have hvertices : (mesh.refinement shape).vertexCount ≤ _ := centerVertex_le huniform
      rw [length_elements_refinement huniform]
      rcases huniform.splits with rfl | rfl <;>
        simp only [CellShape.edges, CellShape.faces, CellShape.cornerCount, List.length_cons,
          List.length_nil, numberedRowBytes] at hvertices ih ⊢ <;>
        omega

theorem Reachable.vertexCount_lt (hmesh : mesh.Reachable) (hstorable : mesh.IsStorable) :
    mesh.vertexCount < wordBound := by
  have hvertices := hmesh.vertexCount_le
  simp only [IsStorable, numberedRowBytes, elementBytes, byteBound, wordBound] at *
  omega

theorem IsStorable.length_lt (hstorable : mesh.IsStorable) :
    mesh.elements.length < wordBound := by
  simp only [IsStorable, elementBytes, byteBound, wordBound] at *
  omega

/-- The numbers of the refined mesh are machine words if the mesh itself is stored. -/
theorem Reachable.refinement_lt (hmesh : mesh.Reachable) (huniform : mesh.IsUniform shape)
    (hstorable : mesh.IsStorable) :
    mesh.centerVertex mesh.elements.length < wordBound ∧
      shape.cornerCount * mesh.elements.length < wordBound := by
  have hvertices := hmesh.vertexCount_le
  have hcenter := centerVertex_le huniform
  rcases huniform.splits with rfl | rfl <;>
    simp only [IsStorable, CellShape.edges, CellShape.faces, CellShape.cornerCount,
      List.length_cons, List.length_nil, numberedRowBytes, elementBytes, byteBound,
      wordBound] at * <;>
    omega

/-- The split mesh finds room for its elements and for the numbering of its edges, and its numbers
are machine words. The bounds on the mesh itself are such that it takes 2 ^ 56 bytes if it exceeds
either of them. -/
theorem refinement_hasRoom (huniform : mesh.IsUniform shape)
    (helements : mesh.elements.length ≤ 2 ^ 50) (hvertices : mesh.vertexCount ≤ 2 ^ 52) :
    (mesh.refinement shape).elements.length * elementBytes ≤ byteBound ∧
      (mesh.refinement shape).vertexCount * numberedRowBytes ≤ byteBound ∧
      (mesh.refinement shape).elements.length < wordBound ∧
      (mesh.refinement shape).vertexCount < wordBound := by
  have hcenter : (mesh.refinement shape).vertexCount ≤ _ := centerVertex_le huniform
  rw [length_elements_refinement huniform]
  rcases huniform.splits with rfl | rfl <;>
    simp only [CellShape.edges, CellShape.faces, CellShape.cornerCount, List.length_cons,
      List.length_nil, numberedRowBytes, elementBytes, byteBound, wordBound] at * <;>
    omega

end Storage

end ElementMesh

end MeshIncidence
