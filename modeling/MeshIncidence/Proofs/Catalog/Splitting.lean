/-
# Sets that follow a refined mesh

Replacing members by their children stops at the first child that is not found. For a
catalog bound to a mesh, and the refined mesh, all children are found: the halves of
edges, the quarters of faces, and the children of elements. What following does is
then a function of the sets, `followed`, and the result is bound to the refined mesh.

Only the faces need distinct corners. With a repeated vertex the search for a quarter
may find another face first.
-/

import MeshIncidence.Proofs.Catalog.Children

namespace MeshIncidence

theorem upToFailure_map_ok {α : Type} (values : List α) :
    upToFailure (values.map Except.ok) = (values, none) := by
  induction values with
  | nil => rfl
  | cons value values ih => rw [List.map_cons, upToFailure, ih]

section Sets

variable {children : Nat → List (Result Nat)} {family : Nat → List Nat}

theorem familiesUpToFailure_eq {members : List Nat}
    (hfound : ∀ member ∈ members, children member = (family member).map Except.ok) :
    familiesUpToFailure children members = (members.map family, none) := by
  induction members with
  | nil => rfl
  | cons member members ih =>
      have hrest := ih fun other hother => hfound other (by simp [hother])
      rw [familiesUpToFailure, hfound member (by simp), upToFailure_map_ok, hrest]
      rfl

/-- Complete families fill the room there is for them. -/
theorem spreadFamilies_eq {families : List (List Nat)} {extra : Nat}
    (hextra : HaveExtra families extra) {members : List Nat}
    (hlength : families.length = members.length) :
    spreadFamilies (extra + 1) members families = firstChildrenFirst families := by
  have hall := hextra.length_firstChildrenFirst
  rw [firstChildrenFirst, List.length_append, hextra.length_filterMap_head?, Nat.add_mul,
    Nat.one_mul] at hall
  have hothers : (families.flatMap List.tail).length = extra * members.length := by
    rw [hlength] at hall
    omega
  simp only [spreadFamilies, hextra.length_filterMap_head?, hlength, List.drop_length,
    Nat.add_sub_cancel, hothers, Nat.sub_self, List.replicate_zero, List.append_nil]
  rfl

/-- If all children are found, every set is replaced. -/
theorem splitSets_eq {extra : Nat} (hextra : ∀ member, (family member).length = extra + 1)
    (noteOf : Nat → Note) {sets : List (NamedSet Nat)}
    (hfound : ∀ set ∈ sets, ∀ member ∈ set.members,
      children member = (family member).map Except.ok) :
    splitSets (extra + 1) children noteOf sets =
      (sets.map (NamedSet.spread family), sets.map fun set => noteOf set.members.length, none) := by
  induction sets with
  | nil => rfl
  | cons set sets ih =>
      have hrest := ih fun other hother => hfound other (by simp [hother])
      have hspread := spreadFamilies_eq (haveExtra_map hextra set.members) (List.length_map _)
      simp only [splitSets, familiesUpToFailure_eq (hfound set (by simp)), hrest, hspread]
      rfl

end Sets

namespace Bound

variable {mesh : ElementMesh} {shape : CellShape} {catalog : SetCatalog}

/-- If no child is missing, splitting the sets of a kind replaces them. -/
theorem applySplit_runs {M : Type} [Connectivity M] {mesh : M} (catalog : SetCatalog) (kind : Kind)
    (sets : List (NamedSet Nat)) (notes : List Note) :
    (applySplit kind (sets, notes, none)).Runs ⟨catalog, mesh⟩ ()
      ⟨{ catalog with sets := catalog.sets.set kind sets }, mesh⟩ := by
  apply Action.runs_state.bind
  apply (Action.runs_forM_note notes).bind
  exact Action.runs_setState.bind (Action.runs_pure _)

/-- Both halves of an edge are found. -/
theorem edgeChildren_eq (huniform : mesh.IsUniform shape)
    (hcount : catalog.vertexCount = mesh.vertexCount)
    (hwords : mesh.centerVertex mesh.elements.length < wordBound) {numbering : PairNumbering}
    (hlists : numbering.Lists (mesh.refinement shape).edgeKeys) {edge : Nat}
    (hedge : edge < mesh.edgeKeys.length) :
    catalog.edgeChildren (mesh.derived .edgeVertex) numbering edge =
      (mesh.halves shape edge).map Except.ok := by
  have hends := List.getElem?_eq_getElem hedge
  have hmiddle : addWords mesh.vertexCount edge = .ok (mesh.middleVertex edge) := by
    apply addWords_of_lt
    simp only [ElementMesh.centerVertex] at hwords
    omega
  have hhalf (vertex : Nat) (hvertex : vertex = mesh.edgeKeys[edge].1 ∨
      vertex = mesh.edgeKeys[edge].2) :
      numbering.edge vertex (mesh.middleVertex edge) =
        .ok ((mesh.refinement shape).edgeNumber vertex (mesh.middleVertex edge)) :=
    ElementMesh.edge_eq hlists (ElementMesh.half_mem_edgeKeys huniform hends hvertex)
  simp only [SetCatalog.edgeChildren, ElementMesh.row_edgeVertex hends, List.map_cons,
    List.map_nil, rowEntry, List.getElem?_cons_zero, List.getElem?_cons_succ, Result.ok_bind,
    hcount, hmiddle, hhalf _ (.inl rfl), hhalf _ (.inr rfl), ElementMesh.halves_eq hends]

/-- A catalog that still holds the counts and tables of a mesh, and sets of a kind with
members in range. The sets of other kinds may have followed a refinement already. -/
structure IsOld (catalog : SetCatalog) (mesh : ElementMesh) (kind : Kind) : Prop where
  vertexCount_eq : catalog.vertexCount = mesh.vertexCount
  edgeCount_eq : catalog.edgeCount = mesh.edgeKeys.length
  elementCount_eq : catalog.elementCount = mesh.elements.length
  tables_eq : 0 < catalog.sets.count kind → ∀ which ∈ kind.tables,
    catalog.tables.get which = some (mesh.derived which)
  inRange : ∀ set ∈ catalog.sets.get kind, ∀ member ∈ set.members, member < mesh.entityCount kind

/-- Edge sets follow the refined mesh. -/
theorem splitEdgeSets_runs (hsound : mesh.Sound) (huniform : mesh.IsUniform shape)
    (hold : IsOld catalog mesh .edge)
    (hwords : mesh.centerVertex mesh.elements.length < wordBound) :
    splitEdgeSets.Runs ⟨catalog, mesh.refinement shape⟩ ()
      ⟨{ catalog with
          sets := catalog.sets.set .edge
            (catalog.sets.edge.map (NamedSet.spread (mesh.halves shape))) },
        mesh.refinement shape⟩ := by
  obtain ⟨numbering, hnumbering, hlists⟩ :=
    ElementMesh.edges_eq (ElementMesh.sound_refinement hsound huniform).fits
  apply Action.runs_state.bind
  by_cases hsets : 0 < catalog.sets.count .edge
  · have htable : catalog.tables.edgeVertex = some (mesh.derived .edgeVertex) :=
      hold.tables_eq hsets .edgeVertex (by simp [Kind.tables])
    have hsplit := splitSets_eq ElementMesh.length_halves .splitEdges fun set hset edge hedge =>
      edgeChildren_eq huniform hold.vertexCount_eq hwords hlists (hold.inRange set hset edge hedge)
    simp only [if_pos hsets, htable]
    apply (Action.runs_ofResult hnumbering).bind
    exact hsplit ▸ applySplit_runs catalog .edge _ _
  · have hnone : catalog.sets.edge = [] :=
      List.eq_nil_of_length_eq_zero (Nat.eq_zero_of_not_pos hsets)
    simp only [if_neg hsets, PerKind.set, hnone, List.map_nil]
    rw [← hnone]
    exact Action.runs_pure ()

/-- The points of an old face are its corners, the middles of its sides and its center. -/
theorem facePoints_eq (huniform : mesh.IsUniform .hexahedron)
    (hcount : catalog.vertexCount = mesh.vertexCount)
    (hwords : mesh.centerVertex mesh.elements.length < wordBound) {face : Nat} {row : List Nat}
    (hrow : mesh.faceRows[face]? = some row) :
    catalog.facePoints (mesh.derived .faceVertex) (mesh.derived .faceEdge)
        (mesh.vertexCount + mesh.edgeKeys.length) face =
      .ok (row, mesh.middles row, mesh.faceVertex face) := by
  have hlength := ElementMesh.length_of_getElem?_faceRows huniform hrow
  have hface : face < mesh.faceKeys.length := by
    rw [← ElementMesh.length_faceRows]
    exact (List.getElem?_eq_some_iff.mp hrow).1
  simp only [ElementMesh.centerVertex] at hwords
  have hcenter : addWords (mesh.vertexCount + mesh.edgeKeys.length) face =
      .ok (mesh.faceVertex face) := addWords_of_lt (by omega)
  have hmiddles : ((sides row).map fun side => mesh.edgeNumber side.1 side.2).mapM
      (addWords catalog.vertexCount) = .ok (mesh.middles row) := by
    have hmiddle : ∀ number ∈ (sides row).map fun side => mesh.edgeNumber side.1 side.2,
        addWords catalog.vertexCount number = .ok (mesh.middleVertex number) := by
      intro number hnumber
      obtain ⟨side, hside, rfl⟩ := List.mem_map.mp hnumber
      have hknown := ElementMesh.side_mem_edgeKeys (List.mem_of_getElem? hrow) hside
      have hlt := (List.getElem?_eq_some_iff.mp (ElementMesh.getElem?_edgeNumber hknown)).1
      rw [hcount]
      apply addWords_of_lt
      omega
    rw [Result.mapM_eq_ok hmiddle, List.map_map]
    rfl
  simp only [SetCatalog.facePoints, ElementMesh.row_faceVertex hrow,
    ElementMesh.row_faceEdge hrow, Result.ok_bind, hlength, ne_eq, not_true_eq_false, if_false,
    hmiddles, hcenter, Result.pure_eq_ok]

/-- All quarters of a face are found. -/
theorem faceChildren_eq (hsound : mesh.Sound) (huniform : mesh.IsUniform .hexahedron)
    (hdistinct : mesh.HasDistinctCorners) (hcount : catalog.vertexCount = mesh.vertexCount)
    (hwords : mesh.centerVertex mesh.elements.length < wordBound) {face : Nat}
    (hface : face < mesh.faceKeys.length) :
    catalog.faceChildren (mesh.derived .faceVertex) (mesh.derived .faceEdge)
        ⟨(mesh.refinement .hexahedron).faceKeys⟩ (mesh.vertexCount + mesh.edgeKeys.length) face =
      (mesh.quarters .hexahedron face).map Except.ok := by
  obtain ⟨-, row, hrow, hlength⟩ := ElementMesh.exists_faceRow huniform hface
  have haround : row = (List.range 4).map (around row) := by
    obtain ⟨a, b, c, d, rfl⟩ := List.length_eq_four.mp hlength
    rfl
  rw [SetCatalog.faceChildren, facePoints_eq huniform hcount hwords hrow]
  simp only [ElementMesh.quarters_eq hrow, List.map_map]
  conv_lhs => rw [haround, List.map_map]
  apply List.map_congr_left
  intro position hposition
  rw [Function.comp_apply, Function.comp_apply, ← haround]
  exact ElementMesh.faceChild_eq hsound huniform hdistinct hrow (List.mem_range.mp hposition)

/-- Face sets follow the refined mesh. -/
theorem splitFaceSets_runs (hsound : mesh.Sound) (huniform : mesh.IsUniform .hexahedron)
    (hdistinct : mesh.HasDistinctCorners) (hold : IsOld catalog mesh .face)
    (hwords : mesh.centerVertex mesh.elements.length < wordBound) :
    splitFaceSets.Runs ⟨catalog, mesh.refinement .hexahedron⟩ ()
      ⟨{ catalog with
          sets := catalog.sets.set .face
            (catalog.sets.face.map (NamedSet.spread (mesh.quarters .hexahedron))) },
        mesh.refinement .hexahedron⟩ := by
  apply Action.runs_state.bind
  by_cases hsets : 0 < catalog.sets.count .face
  · have hfaceVertex : catalog.tables.faceVertex = some (mesh.derived .faceVertex) :=
      hold.tables_eq hsets .faceVertex (by simp [Kind.tables])
    have hfaceEdge : catalog.tables.faceEdge = some (mesh.derived .faceEdge) :=
      hold.tables_eq hsets .faceEdge (by simp [Kind.tables])
    have hfirst : addWords catalog.vertexCount catalog.edgeCount =
        .ok (mesh.vertexCount + mesh.edgeKeys.length) := by
      rw [hold.vertexCount_eq, hold.edgeCount_eq]
      apply addWords_of_lt
      simp only [ElementMesh.centerVertex] at hwords
      omega
    have hsplit := splitSets_eq ElementMesh.length_quarters .splitFaces fun set hset face hface =>
      faceChildren_eq hsound huniform hdistinct hold.vertexCount_eq hwords
        (hold.inRange set hset face hface)
    simp only [if_pos hsets, hfaceVertex, hfaceEdge]
    apply (Action.runs_ofResult (ElementMesh.faces_eq _)).bind
    apply (Action.runs_ofResult hfirst).bind
    exact hsplit ▸ applySplit_runs catalog .face _ _
  · have hnone : catalog.sets.face = [] :=
      List.eq_nil_of_length_eq_zero (Nat.eq_zero_of_not_pos hsets)
    simp only [if_neg hsets, PerKind.set, hnone, List.map_nil]
    rw [← hnone]
    exact Action.runs_pure ()

/-- The children of an element are found by their numbers. -/
theorem elementFamily_eq (hcount : catalog.elementCount = mesh.elements.length)
    (hwords : shape.cornerCount * mesh.elements.length < wordBound) {element : Nat}
    (helement : element < mesh.elements.length) :
    catalog.elementFamily shape.cornerCount element = .ok (mesh.children shape element) := by
  obtain ⟨extra, hextra⟩ : ∃ extra, shape.cornerCount = extra + 1 := ⟨_, shape.cornerCount_eq⟩
  have hlast : extra * element + extra ≤ extra * mesh.elements.length := by
    rw [← Nat.mul_succ]
    exact Nat.mul_le_mul_left extra helement
  rw [hextra, Nat.add_mul, Nat.one_mul] at hwords
  have hmul : mulWords extra element = .ok (extra * element) := mulWords_of_lt (by omega)
  have hfirst : addWords mesh.elements.length (extra * element) =
      .ok (mesh.elements.length + extra * element) := addWords_of_lt (by omega)
  have hother : ∀ place ∈ List.range extra,
      addWords (mesh.elements.length + extra * element) place =
        .ok (mesh.elements.length + extra * element + place) := by
    intro place hplace
    rw [List.mem_range] at hplace
    exact addWords_of_lt (by omega)
  simp only [SetCatalog.elementFamily, hextra, Nat.add_sub_cancel, hmul, Result.ok_bind, hcount,
    hfirst, Result.mapM_eq_ok hother, Result.pure_eq_ok, ElementMesh.children_eq hextra]

/-- Element sets follow the refined mesh. -/
theorem splitElementSets_runs {M : Type} [Connectivity M] (other : M) (shape : CellShape)
    (hold : IsOld catalog mesh .element)
    (hwords : shape.cornerCount * mesh.elements.length < wordBound) :
    (splitElementSets shape.cornerCount).Runs ⟨catalog, other⟩ ()
      ⟨{ catalog with
          sets := catalog.sets.set .element
            (catalog.sets.element.map (NamedSet.spread (mesh.children shape))) },
        other⟩ := by
  have hsets : catalog.splitElementSets shape.cornerCount =
      .ok (catalog.sets.element.map (NamedSet.spread (mesh.children shape))) := by
    apply Result.mapM_eq_ok
    intro set hset
    have hfamilies := Result.mapM_eq_ok fun element helement =>
      elementFamily_eq hold.elementCount_eq hwords (hold.inRange set hset element helement)
    rw [hfamilies]
    rfl
  apply Action.runs_state.bind
  apply (Action.runs_note _).bind
  exact (Action.runs_ofResult hsets).bind Action.runs_setState

variable {sets : SetsByKind Nat}

/-- A catalog bound to a mesh with some of its sets replaced since. -/
def midway (sets others : SetsByKind Nat) (mesh : ElementMesh) : SetCatalog :=
  { SetCatalog.boundTo sets mesh with sets := others }

/-- Such a catalog is old for the kinds whose sets are still those of the mesh. -/
theorem isOld_midway (hsound : mesh.Sound) (hrange : sets.InRange mesh) {kind : Kind}
    {others : SetsByKind Nat} (hsame : others.get kind = sets.get kind) :
    IsOld (midway sets others mesh) mesh kind where
  vertexCount_eq := rfl
  edgeCount_eq := hsound.edgeCount_eq
  elementCount_eq := rfl
  tables_eq hcount which hwhich := by
    have hcount : 0 < sets.count kind := by
      rw [SetsByKind.count, ← hsame]
      exact hcount
    exact SetCatalog.tables_get_boundTo hcount hwhich
  inRange set hset := hrange kind set (hsame ▸ hset)

/-- Sets of quadrilaterals follow the refined mesh and are bound to it. -/
theorem followQuadrilaterals_runs (hsound : mesh.Sound) (huniform : mesh.IsUniform .quadrilateral)
    (hvertices : mesh.centerVertex mesh.elements.length < wordBound)
    (helements : 4 * mesh.elements.length < wordBound) (hrange : sets.InRange mesh) :
    followQuadrilaterals.Runs ⟨.boundTo sets mesh, mesh.refinement .quadrilateral⟩ ()
      ⟨.boundTo (sets.followed mesh .quadrilateral) (mesh.refinement .quadrilateral),
        mesh.refinement .quadrilateral⟩ := by
  let edges := sets.set .edge (sets.edge.map (NamedSet.spread (mesh.halves .quadrilateral)))
  have hfollowed : edges.set .element
      (sets.element.map (NamedSet.spread (mesh.children .quadrilateral))) =
        sets.followed mesh .quadrilateral := by
    rw [SetsByKind.followed, SetsByKind.spread_face_eq huniform hrange]
    rfl
  have hin := SetsByKind.followed_inRange huniform hrange
  rw [← hfollowed] at hin ⊢
  have hedge : IsOld (midway sets sets mesh) mesh .edge := isOld_midway hsound hrange rfl
  have helement : IsOld (midway sets edges mesh) mesh .element := isOld_midway hsound hrange rfl
  apply (splitEdgeSets_runs hsound huniform hedge hvertices).bind
  apply (splitElementSets_runs _ .quadrilateral helement helements).bind
  exact rebind_runs (ElementMesh.sound_refinement hsound huniform) _ hin

/-- Sets of hexahedra with distinct corners follow the refined mesh and are bound to it. -/
theorem followHexahedra_runs (hsound : mesh.Sound) (huniform : mesh.IsUniform .hexahedron)
    (hdistinct : mesh.HasDistinctCorners)
    (hvertices : mesh.centerVertex mesh.elements.length < wordBound)
    (helements : 8 * mesh.elements.length < wordBound) (hrange : sets.InRange mesh) :
    followHexahedra.Runs ⟨.boundTo sets mesh, mesh.refinement .hexahedron⟩ ()
      ⟨.boundTo (sets.followed mesh .hexahedron) (mesh.refinement .hexahedron),
        mesh.refinement .hexahedron⟩ := by
  let edges := sets.set .edge (sets.edge.map (NamedSet.spread (mesh.halves .hexahedron)))
  let faces := edges.set .face (sets.face.map (NamedSet.spread (mesh.quarters .hexahedron)))
  have hin := SetsByKind.followed_inRange huniform hrange
  have hedge : IsOld (midway sets sets mesh) mesh .edge := isOld_midway hsound hrange rfl
  have hface : IsOld (midway sets edges mesh) mesh .face := isOld_midway hsound hrange rfl
  have helement : IsOld (midway sets faces mesh) mesh .element := isOld_midway hsound hrange rfl
  apply (splitEdgeSets_runs hsound huniform hedge hvertices).bind
  apply (splitFaceSets_runs hsound huniform hdistinct hface hvertices).bind
  apply (splitElementSets_runs _ .hexahedron helement helements).bind
  exact rebind_runs (ElementMesh.sound_refinement hsound huniform) _ hin

end Bound

end MeshIncidence
