/-
# Refined meshes conform

Where elements share an edge or a face, their children have to meet in the parts of it. In
terms of numbers this says that a part is shared by as many elements as the edge or face was,
and that everything else is new, inside of an element, and shared by the two children on its
sides. So the boundary of a mesh stays the boundary and its interior stays the interior.

The degrees are counted with the numberings that the meshes make of their edges and faces,
and the parts are those that sets of edges and faces follow.
-/

import MeshIncidence.Proofs.Catalog.Following
import MeshIncidence.Proofs.Refinement.Degrees
import MeshIncidence.Proofs.Refinement.Growth

namespace MeshIncidence

/-- Each of `count` wholes has become `size` parts, which are shared by as many elements as
the whole. What else there is below `newCount` is shared by two. -/
structure Conforms (isPart : Nat → Nat → Nat → Prop) (size count newCount : Nat)
    (degree newDegree : Nat → Nat) : Prop where
  exists_part : ∀ whole < count, ∀ place < size, ∃ part < newCount, isPart whole place part
  degree_part : ∀ whole < count, ∀ place < size, ∀ part, isPart whole place part →
    newDegree part = degree whole
  degree_inner : ∀ part < newCount,
    (∀ whole < count, ∀ place < size, ¬ isPart whole place part) → newDegree part = 2

theorem exists_around {row : List Nat} (hlength : row.length = 4) {vertex : Nat}
    (hvertex : vertex ∈ row) : ∃ position < 4, around row position = vertex := by
  obtain ⟨position, hposition, rfl⟩ := List.getElem_of_mem hvertex
  rw [hlength] at hposition
  refine ⟨position, hposition, ?_⟩
  rw [← around_eq_getD hposition, List.getD_eq_getElem]

namespace CellShape

/-- Between linked places there is nothing. -/
theorem interval_of_mem_links : ∀ top ∈ quadrilateral.places, ∀ bottom ∈ quadrilateral.links top,
    quadrilateral.interval bottom top = [bottom, top] := by
  decide

/-- The quarter at a corner of a local face is the interval from the corner to the center of
the face. -/
theorem quarter_perm_interval :
    ∀ face ∈ hexahedron.faces.zipIdx, ∀ position ∈ List.range 4,
      (hexahedron.quarter face.1 face.2 position).Perm
        (hexahedron.interval (.corner (around face.1 position)) (.faceCenter face.2)) := by
  decide +kernel

end CellShape

namespace ElementMesh

variable {mesh : ElementMesh} {shape : CellShape} {element : Element} {index : Nat}
  {top bottom : Place}

section Halves

variable {edges newEdges : PairNumbering} {edge place child : Nat}

/-- The edges of the refined mesh are the pairs at the ends of linked places. -/
theorem mem_edgeKeys_refinement (hregular : mesh.IsRegular shape) {pair : Nat × Nat} :
    pair ∈ (mesh.refinement shape).edgeKeys ↔ mesh.Spans shape shape.links pair := by
  rw [(edgeKeys_refinement_perm hregular).mem_iff, (tabulates_linkRows hregular).mem_pairedUp_iff
    hregular]

/-- The degree of an edge of the refined mesh, by the element it belongs to. -/
theorem edgeDegree_refinement (hregular : mesh.IsRegular .quadrilateral)
    (hlists : newEdges.Lists (mesh.refinement .quadrilateral).edgeKeys)
    (helement : mesh.elements[index]? = some element) (htop : top ∈ CellShape.quadrilateral.places)
    (hbottom : bottom ∈ CellShape.quadrilateral.links top)
    (hchild : (mesh.refinement .quadrilateral).edgeKeys[child]? =
      some (PairNumbering.key (mesh.vertexAt element index bottom)
        (mesh.vertexAt element index top))) :
    newEdges.degree (mesh.refinement .quadrilateral).elements child =
      top.sideCount * mesh.elements.zipIdx.countP
        (mesh.bears .quadrilateral (mesh.vertexAt element index top)) := by
  rw [edgeDegree_eq (isUniform_refinement hregular.uniform).shape_eq hlists hchild,
    ← countP_refinement hregular CellShape.hasBorders_links (tabulates_linkRows hregular) helement
      htop hbottom, CellShape.interval_of_mem_links top htop bottom hbottom]
  rfl

/-- An edge of the refined mesh up to the middle of a local edge is a half of that edge. -/
theorem exists_isHalf (hsound : mesh.Sound) (huniform : mesh.IsUniform shape)
    (helement : mesh.elements[index]? = some element) {number : Nat}
    (htop : .middle number ∈ shape.places) (hbottom : bottom ∈ shape.links (.middle number))
    (hchild : (mesh.refinement shape).edgeKeys[child]? =
      some (PairNumbering.key (mesh.vertexAt element index bottom)
        (mesh.vertexAt element index (.middle number)))) :
    ∃ edge < mesh.edgeKeys.length, ∃ place < 2,
      IsHalf mesh (mesh.refinement shape) edge place child := by
  have hmember := List.mem_of_getElem? helement
  have hnumber := CellShape.middle_mem_places.mp htop
  have hends := getElem?_edgeAt hmember (huniform.shape_eq element hmember)
    (List.getElem?_eq_getElem hnumber)
  have hvertex : mesh.vertexAt element index bottom ∈ _ := List.mem_map_of_mem hbottom
  rw [map_links_middle, List.getD_eq_getElem _ _ hnumber] at hvertex
  obtain ⟨place, hplace⟩ := List.mem_iff_getElem?.mp
    ((pair_perm_iff.mpr (key_of_getElem?_edgeKeys hends)).mem_iff.mpr hvertex)
  exact ⟨_, (List.getElem?_eq_some_iff.mp hends).1, place, (List.getElem?_eq_some_iff.mp hplace).1,
    (isHalf_iff hsound huniform hends).mpr ⟨_, hplace, hchild⟩⟩

/-- The edges of a mesh of quadrilaterals and their halves. -/
theorem conforms_halves (hregular : mesh.IsRegular .quadrilateral)
    (hlists : edges.Lists mesh.edgeKeys)
    (hnewLists : newEdges.Lists (mesh.refinement .quadrilateral).edgeKeys) :
    Conforms (IsHalf mesh (mesh.refinement .quadrilateral)) 2 mesh.edgeKeys.length
      (mesh.refinement .quadrilateral).edgeKeys.length (edges.degree mesh.elements)
      (newEdges.degree (mesh.refinement .quadrilateral).elements) where
  exists_part edge hedge place hplace := by
    obtain ⟨ends, hends⟩ : ∃ ends, mesh.edgeKeys[edge]? = some ends :=
      ⟨_, List.getElem?_eq_getElem hedge⟩
    obtain ⟨vertex, hvertex⟩ : ∃ vertex, [ends.1, ends.2][place]? = some vertex :=
      ⟨_, List.getElem?_eq_getElem hplace⟩
    have hend : vertex = ends.1 ∨ vertex = ends.2 := by
      simpa using List.mem_of_getElem? hvertex
    obtain ⟨child, hchild⟩ :=
      List.mem_iff_getElem?.mp (half_mem_edgeKeys hregular.uniform hends hend)
    exact ⟨child, (List.getElem?_eq_some_iff.mp hchild).1,
      (isHalf_iff hregular.sound hregular.uniform hends).mpr ⟨_, hvertex, hchild⟩⟩
  degree_part edge hedge place _ child hhalf := by
    have hends := List.getElem?_eq_getElem hedge
    obtain ⟨vertex, hvertex, hchild⟩ :=
      (isHalf_iff hregular.sound hregular.uniform hends).mp hhalf
    have hrow : mesh.edgeRows[edge]? = some [mesh.edgeKeys[edge].1, mesh.edgeKeys[edge].2] := by
      rw [edgeRows, List.getElem?_map, hends, Option.map_some]
    obtain ⟨element, index, helement, number, hnumber, hmiddle, hperm⟩ :=
      exists_middle_of_getElem?_edgeRows hregular.uniform hrow
    obtain ⟨bottom, hbottom, rfl⟩ :=
      List.mem_map.mp (hperm.mem_iff.mp (List.mem_of_getElem? hvertex))
    rw [← hmiddle] at hchild
    rw [edgeDegree_refinement hregular hnewLists helement hnumber hbottom hchild, hmiddle,
      countP_bears_middle hregular.sound hregular.uniform hlists hedge]
    exact Nat.one_mul _
  degree_inner child hchild hinner := by
    have hkey := List.getElem?_eq_getElem hchild
    obtain ⟨element, index, helement, top, htop, bottom, hbottom, hpair⟩ :=
      (mem_edgeKeys_refinement hregular).mp (List.mem_of_getElem? hkey)
    have hkeyEq := key_of_getElem?_edgeKeys hkey
    rw [← hkeyEq, hpair] at hkey
    cases top with
    | corner position => simp [CellShape.links] at hbottom
    | faceCenter face => simp [CellShape.faces] at htop
    | center =>
        rw [edgeDegree_refinement hregular hnewLists helement htop hbottom hkey,
          show mesh.vertexAt element index .center = mesh.centerVertex index from rfl,
          countP_bears_center hregular.sound hregular.uniform helement]
        rfl
    | middle number =>
        obtain ⟨edge, hedge, place, hplace, hhalf⟩ :=
          exists_isHalf hregular.sound hregular.uniform helement htop hbottom hkey
        exact absurd hhalf (hinner edge hedge place hplace)

end Halves

section Quarters

variable {edges : PairNumbering} {face place child : Nat} {row : List Nat}

/-- A quarter of a face has the vertices of an interval. -/
theorem exists_interval_of_quarter (huniform : mesh.IsUniform .hexahedron)
    (hrow : mesh.faceRows[face]? = some row) (hplace : place < 4) :
    ∃ element index, mesh.elements[index]? = some element ∧ ∃ number,
      Place.faceCenter number ∈ CellShape.hexahedron.places ∧
      mesh.vertexAt element index (.faceCenter number) = mesh.faceVertex face ∧
      ∃ bottom ∈ CellShape.hexahedron.footholds (.faceCenter number),
        mesh.vertexAt element index bottom = around row place ∧
        (mesh.quarter row face place).Perm
          ((CellShape.hexahedron.interval bottom (.faceCenter number)).map
            (mesh.vertexAt element index)) := by
  obtain ⟨element, index, number, corners, helement, hcorners, rfl, rfl⟩ :=
    exists_of_getElem?_faceRows huniform hrow
  have hmember := List.mem_of_getElem? hcorners
  have hlength := CellShape.length_of_mem_hexahedron_faces corners hmember
  refine ⟨element, index, helement, number,
    CellShape.faceCenter_mem_places.mpr (List.getElem?_eq_some_iff.mp hcorners).1, rfl,
    .corner (around corners place), ?_, (around_map hlength element.corner place).symm, ?_⟩
  · rw [CellShape.footholds, List.getD_eq_getElem?_getD, hcorners, Option.getD_some]
    exact List.mem_map_of_mem (mem_around hlength place)
  · rw [← map_quarter huniform (List.mem_of_getElem? helement) hmember]
    exact (CellShape.quarter_perm_interval (corners, number)
      (List.mem_zipIdx_iff_getElem?.mpr hcorners) place (List.mem_range.mpr hplace)).map _

/-- The degree of a face of the refined mesh, by the element it belongs to. -/
theorem faceDegree_refinement (hregular : mesh.IsRegular .hexahedron)
    (helement : mesh.elements[index]? = some element) (htop : top ∈ CellShape.hexahedron.places)
    (hbottom : bottom ∈ CellShape.hexahedron.footholds top)
    (hchild : (mesh.refinement .hexahedron).faceKeys[child]? = some (ascending
      ((CellShape.hexahedron.interval bottom top).map (mesh.vertexAt element index)))) :
    FaceNumbering.degree ⟨(mesh.refinement .hexahedron).faceKeys⟩
        (mesh.refinement .hexahedron).elements child =
      top.sideCount * mesh.elements.zipIdx.countP
        (mesh.bears .hexahedron (mesh.vertexAt element index top)) := by
  rw [faceDegree_eq (isUniform_refinement hregular.uniform).shape_eq hchild]
  exact countP_refinement hregular CellShape.hasBorders_footholds (tabulates_footholdRows hregular)
    helement htop hbottom

/-- A face of the refined mesh up to the center of a local face is a quarter of that face. -/
theorem exists_isQuarter (hregular : mesh.IsRegular .hexahedron)
    (helement : mesh.elements[index]? = some element) {number : Nat}
    (htop : .faceCenter number ∈ CellShape.hexahedron.places)
    (hbottom : bottom ∈ CellShape.hexahedron.footholds (.faceCenter number))
    (hchild : (mesh.refinement .hexahedron).faceKeys[child]? = some (ascending
      ((CellShape.hexahedron.interval bottom (.faceCenter number)).map
        (mesh.vertexAt element index)))) :
    ∃ face < mesh.faceKeys.length, ∃ place < 4,
      IsQuarter mesh (mesh.refinement .hexahedron) face place child := by
  have huniform := hregular.uniform
  have hintervals := CellShape.hasIntervals_footholds huniform.splits
  have hmember := List.mem_of_getElem? helement
  have hnumber := CellShape.faceCenter_mem_places.mp htop
  have hkey := getElem?_faceAt hmember (huniform.shape_eq element hmember)
    (List.getElem?_eq_getElem hnumber)
  have hface := (List.getElem?_eq_some_iff.mp hkey).1
  obtain ⟨-, row, hrow, hlength⟩ := exists_faceRow huniform hface
  -- The vertex at the bottom is in the row, wherever the row starts.
  have hvertex : mesh.vertexAt element index bottom ∈ row := by
    rw [getElem?_faceKeys hrow, Option.some.injEq, ascending_eq_ascending_iff] at hkey
    rw [CellShape.footholds, List.getD_eq_getElem _ _ hnumber] at hbottom
    obtain ⟨corner, hcorner, rfl⟩ := List.mem_map.mp hbottom
    exact hkey.mem_iff.mpr (List.mem_map_of_mem hcorner)
  obtain ⟨place, hplace, haround⟩ := exists_around hlength hvertex
  obtain ⟨other, position, hother, same, hsame, hsameEq, low, hlow, hlowEq, hperm⟩ :=
    exists_interval_of_quarter huniform hrow hplace
  refine ⟨_, hface, place, hplace, (isQuarter_iff hregular.sound huniform hrow).mpr ?_⟩
  rw [hchild, Option.some.injEq, ascending_eq_ascending_iff]
  refine (hregular.map_interval_perm helement hother (hintervals.bottom_mem _ htop bottom hbottom)
    htop (hintervals.rank_lt _ htop bottom hbottom) (hintervals.bottom_mem _ hsame low hlow) hsame
    (hintervals.rank_lt _ hsame low hlow) ?_ ?_).trans hperm.symm
  · rw [hlowEq, haround]
  · rw [hsameEq]
    rfl

/-- The faces of a mesh of hexahedra and their quarters. -/
theorem conforms_quarters (hregular : mesh.IsRegular .hexahedron) :
    Conforms (IsQuarter mesh (mesh.refinement .hexahedron)) 4 mesh.faceKeys.length
      (mesh.refinement .hexahedron).faceKeys.length
      (FaceNumbering.degree ⟨mesh.faceKeys⟩ mesh.elements)
      (FaceNumbering.degree ⟨(mesh.refinement .hexahedron).faceKeys⟩
        (mesh.refinement .hexahedron).elements) where
  exists_part face hface place hplace := by
    obtain ⟨-, row, hrow, -⟩ := exists_faceRow hregular.uniform hface
    obtain ⟨child, hchild⟩ :=
      List.mem_iff_getElem?.mp (quarter_mem_faceKeys hregular.uniform hrow hplace)
    exact ⟨child, (List.getElem?_eq_some_iff.mp hchild).1,
      (isQuarter_iff hregular.sound hregular.uniform hrow).mpr hchild⟩
  degree_part face hface place hplace child hquarter := by
    obtain ⟨-, row, hrow, -⟩ := exists_faceRow hregular.uniform hface
    have hchild := (isQuarter_iff hregular.sound hregular.uniform hrow).mp hquarter
    obtain ⟨element, index, helement, number, hnumber, hcenter, bottom, hbottom, -, hperm⟩ :=
      exists_interval_of_quarter hregular.uniform hrow hplace
    rw [ascending_eq_ascending_iff.mpr hperm] at hchild
    rw [faceDegree_refinement hregular helement hnumber hbottom hchild, hcenter,
      countP_bears_faceCenter hregular.sound hregular.uniform hface]
    exact Nat.one_mul _
  degree_inner child hchild hinner := by
    have hkey := List.getElem?_eq_getElem hchild
    obtain ⟨element, index, helement, top, htop, bottom, hbottom, hperm⟩ :=
      exists_interval_of_mem_faceKeys hregular.uniform (List.mem_of_getElem? hkey)
    obtain ⟨_, -, vertices, -, hvertices⟩ := mem_faceKeys.mp (List.mem_of_getElem? hkey)
    rw [← hvertices, ascending_eq_ascending_iff.mpr
      ((ascending_perm vertices).symm.trans (hvertices ▸ hperm))] at hkey
    cases top with
    | corner position => simp [CellShape.footholds] at hbottom
    | middle edge => simp [CellShape.footholds] at hbottom
    | center =>
        rw [faceDegree_refinement hregular helement htop hbottom hkey,
          show mesh.vertexAt element index .center = mesh.centerVertex index from rfl,
          countP_bears_center hregular.sound hregular.uniform helement]
        rfl
    | faceCenter number =>
        obtain ⟨face, hface, place, hplace, hquarter⟩ :=
          exists_isQuarter hregular helement htop hbottom hkey
        exact absurd hquarter (hinner face hface place hplace)

end Quarters

/-- Every piece of the refined mesh has a new vertex. -/
theorem exists_new_vertex (huniform : mesh.IsUniform shape) {pieces : List (List Nat)}
    {bottoms : Place → List Place} (hintervals : shape.HasIntervals pieces bottoms)
    {child : Element} (hchild : child ∈ (mesh.refinement shape).elements) {corners : List Nat}
    (hcorners : corners ∈ pieces) :
    ∃ vertex ∈ corners.map child.corner, mesh.vertexCount ≤ vertex := by
  obtain ⟨element, index, -, top, htop, bottom, hbottom, hperm⟩ :=
    exists_interval_of_piece huniform hintervals hchild hcorners
  have htopMember : top ∈ shape.interval bottom top :=
    CellShape.mem_interval.mpr (.inr (.inr rfl))
  exact ⟨mesh.vertexAt element index top, hperm.mem_iff.mpr (List.mem_map_of_mem htopMember),
    vertexCount_le_vertexAt (Nat.zero_lt_of_lt (hintervals.rank_lt top htop bottom hbottom))⟩

/-- Refinement keeps meshes of distinct corners conforming: on quadrilaterals the halves of
an edge are shared by as many elements as the edge, and all other edges by two; on hexahedra
with coherent faces the same holds of the quarters of a face and all other faces. No edge or
face is left whole beside its parts, as each has a new vertex. -/
theorem Reachable.refinement_conforms (hmesh : mesh.Reachable)
    (hdistinct : mesh.HasDistinctCorners) :
    (mesh.dimension = 2 → (∀ element ∈ mesh.elements, element.shape = .quadrilateral) →
      ∃ fine edges newEdges, Refines mesh fine ∧ mesh.edges = .ok edges ∧
        fine.edges = .ok newEdges ∧
        Conforms (IsHalf mesh fine) 2 mesh.edgeCount fine.edgeCount (edges.degree mesh.elements)
          (newEdges.degree fine.elements) ∧
        ∀ ends ∈ fine.localEdges, ∃ vertex ∈ [ends.1, ends.2], mesh.vertexCount ≤ vertex) ∧
    (mesh.dimension = 3 → (∀ element ∈ mesh.elements, element.shape = .hexahedron) →
      mesh.HasCoherentFaces →
      ∃ fine faces newFaces, Refines mesh fine ∧ mesh.faces = .ok faces ∧
        fine.faces = .ok newFaces ∧
        Conforms (IsQuarter mesh fine) 4 mesh.faceCount fine.faceCount (faces.degree mesh.elements)
          (newFaces.degree fine.elements) ∧
        ∀ vertices ∈ fine.localFaces, ∃ vertex ∈ vertices, mesh.vertexCount ≤ vertex) := by
  have hsound := hmesh.sound
  constructor
  · intro hdimension hall
    have hregular := hsound.isRegular_of_quadrilaterals hdimension hall hdistinct
    obtain ⟨edges, hedges, hlists⟩ := edges_eq hsound.fits
    obtain ⟨newEdges, hnewEdges, hnewLists⟩ := edges_eq hregular.refinement.sound.fits
    refine ⟨_, edges, newEdges, hregular.refines, hedges, hnewEdges, ?_, fun ends hends => ?_⟩
    · rw [hsound.edgeCount_eq, hregular.refinement.sound.edgeCount_eq]
      exact conforms_halves hregular hlists hnewLists
    obtain ⟨child, hchild, hends⟩ := List.mem_flatMap.mp hends
    rw [Element.edges, hregular.refinement.uniform.shape_eq child hchild] at hends
    obtain ⟨corners, hcorners, rfl⟩ := List.mem_map.mp hends
    exact exists_new_vertex hregular.uniform (CellShape.hasIntervals_links (.inl rfl)) hchild
      (List.mem_map_of_mem hcorners)
  · intro hdimension hall hcoherent
    have hregular := hsound.isRegular_of_hexahedra hdimension hall hdistinct hcoherent
    refine ⟨_, _, _, hregular.refines, faces_eq _, faces_eq _, ?_, fun vertices hvertices => ?_⟩
    · rw [hsound.faceCount_eq, hregular.refinement.sound.faceCount_eq]
      exact conforms_quarters hregular
    obtain ⟨child, hchild, hvertices⟩ := List.mem_flatMap.mp hvertices
    rw [Element.faces, hregular.refinement.uniform.shape_eq child hchild] at hvertices
    obtain ⟨corners, hcorners, rfl⟩ := List.mem_map.mp hvertices
    exact exists_new_vertex hregular.uniform (CellShape.hasIntervals_footholds (.inr rfl)) hchild
      hcorners

theorem refinement_conforms_turnedCubes :
    (∃ fine edges newEdges, Refines twistedBand fine ∧ twistedBand.edges = .ok edges ∧
      fine.edges = .ok newEdges ∧
      Conforms (IsHalf twistedBand fine) 2 twistedBand.edgeCount fine.edgeCount
        (edges.degree twistedBand.elements) (newEdges.degree fine.elements) ∧
      ∀ ends ∈ fine.localEdges, ∃ vertex ∈ [ends.1, ends.2], twistedBand.vertexCount ≤ vertex) ∧
    (∃ fine faces newFaces, Refines turnedCubes fine ∧ turnedCubes.faces = .ok faces ∧
      fine.faces = .ok newFaces ∧
      Conforms (IsQuarter turnedCubes fine) 4 turnedCubes.faceCount fine.faceCount
        (faces.degree turnedCubes.elements) (newFaces.degree fine.elements) ∧
      ∀ vertices ∈ fine.localFaces, ∃ vertex ∈ vertices, turnedCubes.vertexCount ≤ vertex) :=
  ⟨(Reachable.refinement_conforms reachable_twistedBand (by decide)).1 rfl (by decide),
    (Reachable.refinement_conforms reachable_turnedCubes (by decide)).2 rfl (by decide) (by decide)⟩

end ElementMesh

end MeshIncidence
