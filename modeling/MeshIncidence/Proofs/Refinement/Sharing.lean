/-
# Who shares a new edge or face

A new edge or face is an interval, and it belongs to children of those elements that have
the vertex at the top of the interval. How many children of such an element have it is
fixed by the shape: two if the top is the center of the element, as the children on both
sides of the interval are inside, and one if it is not.

So the elements that share the edge or face are counted by counting those that have its top
vertex. For a center this is one element, for the center of a face the elements with the
face, and for the middle of an edge the elements with the edge.
-/

import MeshIncidence.Proofs.Refinement.Counting

namespace MeshIncidence

/-- The element has a local piece with some vertices. -/
def Element.hasPiece (element : Element) (pieces : List (List Nat)) (vertices : List Nat) : Bool :=
  pieces.any fun corners => (corners.map element.corner).isPerm vertices

theorem Element.hasPiece_iff {element : Element} {pieces : List (List Nat)} {vertices : List Nat} :
    element.hasPiece pieces vertices ↔
      ∃ corners ∈ pieces, (corners.map element.corner).Perm vertices := by
  simp [hasPiece, List.isPerm_iff]

/-- On how many sides of an interval up to a place an element has a child. -/
def Place.sideCount (top : Place) : Nat := if top = .center then 2 else 1

namespace CellShape

variable {shape : CellShape} {pieces : List (List Nat)} {bottoms : Place → List Place}

/-- Pieces between elements: the children have them on the sides of the intervals. -/
structure HasBorders (shape : CellShape) (pieces : List (List Nat))
    (bottoms : Place → List Place) : Prop extends shape.HasIntervals pieces bottoms where
  countP_children : ∀ top ∈ shape.places, ∀ bottom ∈ bottoms top,
    shape.children.countP (fun places => pieces.any fun corners =>
      (placesAt places corners).isPerm (shape.interval bottom top)) = top.sideCount

/-- Quadrilaterals border on each other at edges. -/
theorem hasBorders_links :
    quadrilateral.HasBorders quadrilateral.edgeCorners quadrilateral.links where
  toHasIntervals := hasIntervals_links (.inl rfl)
  countP_children := by decide +kernel

/-- Hexahedra border on each other at faces. -/
theorem hasBorders_footholds :
    hexahedron.HasBorders hexahedron.faces hexahedron.footholds where
  toHasIntervals := hasIntervals_footholds (.inr rfl)
  countP_children := by decide +kernel

end CellShape

theorem sum_map_ite {α : Type} (test : α → Bool) (size : Nat) (members : List α) :
    (members.map fun member => if test member then size else 0).sum =
      size * members.countP test := by
  induction members with
  | nil => rfl
  | cons member members ih =>
      rw [List.map_cons, List.sum_cons, ih, List.countP_cons]
      split
      · rw [Nat.mul_succ, Nat.add_comm]
      · rw [Nat.zero_add, Nat.add_zero]

namespace ElementMesh

variable {mesh : ElementMesh} {shape : CellShape} {element other : Element} {index position : Nat}
  {pieces : List (List Nat)} {bottoms : Place → List Place} {top bottom : Place}

/-- An element has a vertex of the refined mesh at one of its places. -/
def bears (mesh : ElementMesh) (shape : CellShape) (vertex : Nat) (member : Element × Nat) : Bool :=
  shape.places.any fun place => mesh.vertexAt member.1 member.2 place = vertex

theorem bears_iff {vertex : Nat} :
    mesh.bears shape vertex (element, index) ↔
      ∃ place ∈ shape.places, mesh.vertexAt element index place = vertex := by
  simp [bears]

/-- A piece of a child that has the vertices of an interval is that interval in the element
of the child. -/
theorem exists_perm_interval (hregular : mesh.IsRegular shape)
    (hintervals : shape.HasIntervals pieces bottoms)
    (helement : mesh.elements[index]? = some element)
    (hother : mesh.elements[position]? = some other) (htop : top ∈ shape.places)
    (hbottom : bottom ∈ bottoms top) {places : List Place} (hplaces : places ∈ shape.children)
    {corners : List Nat} (hcorners : corners ∈ pieces)
    (hperm : (corners.map (mesh.childAt shape other position places).corner).Perm
      ((shape.interval bottom top).map (mesh.vertexAt element index))) :
    ∃ high ∈ shape.places, ∃ low ∈ bottoms high,
      mesh.vertexAt other position low = mesh.vertexAt element index bottom ∧
      mesh.vertexAt other position high = mesh.vertexAt element index top ∧
      (placesAt places corners).Perm (shape.interval low high) := by
  have hsplit := hregular.uniform.splits
  obtain ⟨high, hhigh, low, hlow, hplacesPerm⟩ :=
    hintervals.exists_interval places hplaces corners hcorners
  have hhighPlace : high ∈ shape.places :=
    CellShape.mem_places_iff.mpr (CellShape.isOn_of_mem_children hsplit places hplaces high hhigh)
  have hlowExtremes := extremes_of_perm hregular hother
    (hintervals.bottom_mem high hhighPlace low hlow) hhighPlace
    (hintervals.rank_lt high hhighPlace low hlow) (hplacesPerm.map (mesh.vertexAt other position))
  have hbottomExtremes := extremes_of_perm hregular helement
    (hintervals.bottom_mem top htop bottom hbottom) htop
    (hintervals.rank_lt top htop bottom hbottom) hperm
  rw [map_corner_childAt hintervals (CellShape.length_of_mem_children hsplit places hplaces)
    hcorners, hlowExtremes, Prod.mk.injEq] at hbottomExtremes
  exact ⟨high, hhighPlace, low, hlow, hbottomExtremes.1, hbottomExtremes.2, hplacesPerm⟩

/-- Between the same vertices, the children of an element have a piece with the vertices of
an interval where they have the interval. -/
theorem hasPiece_childAt_iff (hregular : mesh.IsRegular shape)
    (hintervals : shape.HasIntervals pieces bottoms)
    (helement : mesh.elements[index]? = some element)
    (hother : mesh.elements[position]? = some other) (htop : top ∈ shape.places)
    (hbottom : bottom ∈ bottoms top) {high low : Place} (hhigh : high ∈ shape.places)
    (hlow : low ∈ bottoms high)
    (hlowEq : mesh.vertexAt other position low = mesh.vertexAt element index bottom)
    (hhighEq : mesh.vertexAt other position high = mesh.vertexAt element index top)
    {places : List Place} (hplaces : places ∈ shape.children) :
    (mesh.childAt shape other position places).hasPiece pieces
        ((shape.interval bottom top).map (mesh.vertexAt element index)) ↔
      ∃ corners ∈ pieces, (placesAt places corners).Perm (shape.interval low high) := by
  have hlowPlace := hintervals.bottom_mem high hhigh low hlow
  rw [Element.hasPiece_iff]
  refine exists_congr fun corners => and_congr_right fun hcorners => ?_
  constructor <;> intro hperm
  · obtain ⟨same, hsame, under, hunder, hunderEq, hsameEq, hplacesPerm⟩ :=
      exists_perm_interval hregular hintervals helement hother htop hbottom hplaces hcorners hperm
    have hunderPlace := hintervals.bottom_mem same hsame under hunder
    rwa [hregular.vertexAt_inj hother hunderPlace hlowPlace (hunderEq.trans hlowEq.symm),
      hregular.vertexAt_inj hother hsame hhigh (hsameEq.trans hhighEq.symm)] at hplacesPerm
  · rw [map_corner_childAt hintervals
      (CellShape.length_of_mem_children hregular.uniform.splits places hplaces) hcorners]
    exact (hperm.map _).trans (hregular.map_interval_perm hother helement hlowPlace hhigh
      (hintervals.rank_lt high hhigh low hlow) (hintervals.bottom_mem top htop bottom hbottom) htop
      (hintervals.rank_lt top htop bottom hbottom) hlowEq hhighEq)

/-- Places with the same vertex have intervals up to them on as many sides. -/
theorem sideCount_eq (hsound : mesh.Sound) (huniform : mesh.IsUniform shape)
    (helement : mesh.elements[index]? = some element)
    (hother : mesh.elements[position]? = some other) {high : Place} (htop : top ∈ shape.places)
    (hhigh : high ∈ shape.places)
    (hequal : mesh.vertexAt other position high = mesh.vertexAt element index top) :
    high.sideCount = top.sideCount := by
  have hrank := rankOf_vertexAt hsound huniform hother hhigh
  rw [hequal, rankOf_vertexAt hsound huniform helement htop] at hrank
  cases top <;> cases high <;> first | rfl | simp [Place.rank] at hrank

/-- An element that has the vertex at the top of an interval has children on the sides of
the interval, and any other element has none there. -/
theorem countP_children (hregular : mesh.IsRegular shape)
    (hborders : shape.HasBorders pieces bottoms) {start : Nat} {lists : List (List Nat)}
    (htable : mesh.Tabulates shape bottoms start lists)
    (helement : mesh.elements[index]? = some element)
    (hother : mesh.elements[position]? = some other) (htop : top ∈ shape.places)
    (hbottom : bottom ∈ bottoms top) :
    (shape.children.map (mesh.childAt shape other position)).countP (fun child =>
        child.hasPiece pieces ((shape.interval bottom top).map (mesh.vertexAt element index))) =
      if mesh.bears shape (mesh.vertexAt element index top) (other, position) then top.sideCount
      else 0 := by
  rw [List.countP_map]
  by_cases hbears : mesh.bears shape (mesh.vertexAt element index top) (other, position)
  · rw [if_pos hbears]
    obtain ⟨high, hhigh, hhighEq⟩ := bears_iff.mp hbears
    obtain ⟨low, hlow, hlowEq⟩ := List.mem_map.mp (htable.mem_bottoms element index other position
      helement hother top htop high hhigh hhighEq.symm _ (List.mem_map_of_mem hbottom))
    rw [← sideCount_eq hregular.sound hregular.uniform helement hother htop hhigh hhighEq,
      ← hborders.countP_children high hhigh low hlow]
    refine List.countP_congr fun places hplaces => ?_
    rw [Function.comp_apply, hasPiece_childAt_iff hregular hborders.toHasIntervals helement hother
      htop hbottom hhigh hlow hlowEq hhighEq hplaces]
    simp [List.isPerm_iff]
  · rw [if_neg hbears, List.countP_eq_zero]
    intro places hplaces hpiece
    obtain ⟨corners, hcorners, hperm⟩ := Element.hasPiece_iff.mp hpiece
    obtain ⟨high, hhigh, low, hlow, -, hhighEq, -⟩ := exists_perm_interval hregular
      hborders.toHasIntervals helement hother htop hbottom hplaces hcorners hperm
    exact hbears (bears_iff.mpr ⟨high, hhigh, hhighEq⟩)

/-- How many elements of the refined mesh have a piece with the vertices of an interval. -/
theorem countP_refinement (hregular : mesh.IsRegular shape)
    (hborders : shape.HasBorders pieces bottoms) {start : Nat} {lists : List (List Nat)}
    (htable : mesh.Tabulates shape bottoms start lists)
    (helement : mesh.elements[index]? = some element) (htop : top ∈ shape.places)
    (hbottom : bottom ∈ bottoms top) :
    (mesh.refinement shape).elements.countP (fun child =>
        child.hasPiece pieces ((shape.interval bottom top).map (mesh.vertexAt element index))) =
      top.sideCount * mesh.elements.zipIdx.countP
        (mesh.bears shape (mesh.vertexAt element index top)) := by
  rw [← sum_map_ite, show (mesh.refinement shape).elements =
    firstChildrenFirst (mesh.families shape) from rfl,
    (firstChildrenFirst_perm _).countP_eq, List.countP_flatten, families, List.map_map]
  congr 1
  apply List.map_congr_left
  rintro ⟨other, position⟩ hmember
  exact countP_children hregular hborders htable helement (List.mem_zipIdx_iff_getElem?.mp hmember)
    htop hbottom

end ElementMesh

end MeshIncidence
