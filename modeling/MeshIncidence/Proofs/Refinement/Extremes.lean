/-
# New edges and faces by their smallest and largest vertex

Vertices of places of higher rank are larger. So the ends of an interval have the smallest
and the largest of its vertices, and in a regular mesh these two tell the vertices of the
whole interval. The edges and the faces of the refined mesh are found again as the pairs of
vertices at the ends of intervals of some element.
-/

import MeshIncidence.Proofs.Refinement.Coherence

namespace MeshIncidence

/-- The smallest and the largest of some vertices. -/
def extremes (vertices : List Nat) : Nat × Nat := (vertices.min?.getD 0, vertices.max?.getD 0)

theorem extremes_eq {vertices : List Nat} {bottom top : Nat} (hbottom : bottom ∈ vertices)
    (htop : top ∈ vertices) (hbetween : ∀ vertex ∈ vertices, bottom ≤ vertex ∧ vertex ≤ top) :
    extremes vertices = (bottom, top) := by
  have hmin : vertices.min? = some bottom :=
    List.min?_eq_some_iff.mpr ⟨hbottom, fun vertex hvertex => (hbetween vertex hvertex).1⟩
  have hmax : vertices.max? = some top :=
    List.max?_eq_some_iff.mpr ⟨htop, fun vertex hvertex => (hbetween vertex hvertex).2⟩
  rw [extremes, hmin, hmax, Option.getD_some, Option.getD_some]

/-- The order of the vertices does not matter. -/
theorem extremes_perm {first second : List Nat} (hperm : first.Perm second) :
    extremes first = extremes second := by
  have hmin : first.min? = second.min? :=
    Option.ext fun vertex => by simp only [List.min?_eq_some_iff, hperm.mem_iff]
  have hmax : first.max? = second.max? :=
    Option.ext fun vertex => by simp only [List.max?_eq_some_iff, hperm.mem_iff]
  rw [extremes, extremes, hmin, hmax]

/-- The extremes of two vertices are their unordered pair. -/
theorem extremes_pair (first second : Nat) :
    extremes [first, second] = PairNumbering.key first second := by
  apply extremes_eq <;> simp only [List.mem_cons, List.not_mem_nil, or_false, forall_eq_or_imp,
    forall_eq] <;> omega

namespace ElementMesh

variable {mesh : ElementMesh} {shape : CellShape} {element : Element} {index : Nat}
  {pieces : List (List Nat)} {bottoms : Place → List Place}

/-- The edges of elements of one shape are the extremes of its local edges. -/
theorem mem_edgeKeys_iff_extremes (hshape : ∀ element ∈ mesh.elements, element.shape = shape)
    {pair : Nat × Nat} : pair ∈ mesh.edgeKeys ↔ ∃ element ∈ mesh.elements,
      ∃ corners ∈ shape.edgeCorners, extremes (corners.map element.corner) = pair := by
  rw [mem_edgeKeys]
  refine exists_congr fun element => and_congr_right fun helement => ?_
  rw [Element.edges, hshape element helement]
  simp only [CellShape.edgeCorners, List.mem_map, exists_exists_and_eq_and, List.map_cons,
    List.map_nil, extremes_pair]

/-- The vertices of a piece of a child are at its places. -/
theorem map_corner_childAt (hintervals : shape.HasIntervals pieces bottoms) {places : List Place}
    (hlength : places.length = shape.cornerCount) {corners : List Nat}
    (hcorners : corners ∈ pieces) :
    corners.map (mesh.childAt shape element index places).corner =
      (placesAt places corners).map (mesh.vertexAt element index) := by
  rw [placesAt, List.map_map]
  apply List.map_congr_left
  intro corner hcorner
  exact corner_childAt (by rw [hlength]; exact hintervals.corner_lt corners hcorners corner hcorner)

/-- The ends of an interval have the extremes of its vertices. -/
theorem extremes_of_perm (hregular : mesh.IsRegular shape)
    (helement : mesh.elements[index]? = some element) {bottom top : Place}
    (hbottom : bottom ∈ shape.places) (htop : top ∈ shape.places) (hrank : bottom.rank < top.rank)
    {vertices : List Nat}
    (hperm : vertices.Perm ((shape.interval bottom top).map (mesh.vertexAt element index))) :
    extremes vertices = (mesh.vertexAt element index bottom, mesh.vertexAt element index top) := by
  have hsplit := hregular.uniform.splits
  have hlt {low high : Place} (hlow : low ∈ shape.places) (hhigh : high ∈ shape.places)
      (hless : low.rank < high.rank) :=
    vertexAt_lt_vertexAt hregular.sound hregular.uniform helement hlow hhigh hless
  have hends := hlt hbottom htop hrank
  have hmem (place : Place) (hplace : place ∈ shape.interval bottom top) :
      mesh.vertexAt element index place ∈ vertices :=
    hperm.mem_iff.mpr (List.mem_map_of_mem hplace)
  apply extremes_eq (hmem bottom (CellShape.mem_interval.mpr (.inl rfl)))
    (hmem top (CellShape.mem_interval.mpr (.inr (.inr rfl))))
  intro vertex hvertex
  obtain ⟨place, hplace, rfl⟩ := List.mem_map.mp (hperm.mem_iff.mp hvertex)
  have hon := CellShape.mem_places_of_mem_interval hsplit hbottom htop hplace
  rcases CellShape.rank_of_mem_interval hsplit htop hplace with rfl | ⟨hlow, hhigh⟩ | rfl
  · exact ⟨Nat.le_refl _, Nat.le_of_lt hends⟩
  · exact ⟨Nat.le_of_lt (hlt hbottom hon hlow), Nat.le_of_lt (hlt hon htop hhigh)⟩
  · exact ⟨Nat.le_of_lt hends, Nat.le_refl _⟩

/-- A pair of vertices at the ends of an interval of some element. -/
def Spans (mesh : ElementMesh) (shape : CellShape) (bottoms : Place → List Place)
    (pair : Nat × Nat) : Prop :=
  ∃ element index, mesh.elements[index]? = some element ∧
    ∃ top ∈ shape.places, ∃ bottom ∈ bottoms top,
      pair = (mesh.vertexAt element index bottom, mesh.vertexAt element index top)

/-- A piece of the refined mesh has the vertices of an interval. -/
theorem exists_interval_of_piece (huniform : mesh.IsUniform shape)
    (hintervals : shape.HasIntervals pieces bottoms) {child : Element}
    (hchild : child ∈ (mesh.refinement shape).elements) {corners : List Nat}
    (hcorners : corners ∈ pieces) :
    ∃ element index, mesh.elements[index]? = some element ∧
      ∃ top ∈ shape.places, ∃ bottom ∈ bottoms top,
        (corners.map child.corner).Perm
          ((shape.interval bottom top).map (mesh.vertexAt element index)) := by
  obtain ⟨element, index, helement, places, hplaces, rfl⟩ := mem_elements_refinement.mp hchild
  obtain ⟨top, htop, bottom, hbottom, hperm⟩ :=
    hintervals.exists_interval places hplaces corners hcorners
  refine ⟨element, index, helement, top, CellShape.mem_places_iff.mpr
    (CellShape.isOn_of_mem_children huniform.splits places hplaces top htop), bottom, hbottom, ?_⟩
  rw [map_corner_childAt hintervals
    (CellShape.length_of_mem_children huniform.splits places hplaces) hcorners]
  exact hperm.map _

/-- The extremes of the pieces of the refined mesh are the pairs at the ends of intervals. -/
theorem exists_extremes_eq_iff (hregular : mesh.IsRegular shape)
    (hintervals : shape.HasIntervals pieces bottoms) {pair : Nat × Nat} :
    (∃ child ∈ (mesh.refinement shape).elements, ∃ corners ∈ pieces,
        extremes (corners.map child.corner) = pair) ↔ mesh.Spans shape bottoms pair := by
  constructor
  · rintro ⟨child, hchild, corners, hcorners, rfl⟩
    obtain ⟨element, index, helement, top, htop, bottom, hbottom, hperm⟩ :=
      exists_interval_of_piece hregular.uniform hintervals hchild hcorners
    exact ⟨element, index, helement, top, htop, bottom, hbottom,
      extremes_of_perm hregular helement (hintervals.bottom_mem top htop bottom hbottom) htop
        (hintervals.rank_lt top htop bottom hbottom) hperm⟩
  · rintro ⟨element, index, helement, top, htop, bottom, hbottom, rfl⟩
    obtain ⟨places, hplaces, corners, hcorners, hperm⟩ :=
      hintervals.exists_piece top htop bottom hbottom
    refine ⟨_, mem_elements_refinement.mpr ⟨element, index, helement, places, hplaces, rfl⟩,
      corners, hcorners, ?_⟩
    apply extremes_of_perm hregular helement (hintervals.bottom_mem top htop bottom hbottom) htop
      (hintervals.rank_lt top htop bottom hbottom)
    rw [map_corner_childAt hintervals
      (CellShape.length_of_mem_children hregular.uniform.splits places hplaces) hcorners]
    exact hperm.map _

end ElementMesh

end MeshIncidence
