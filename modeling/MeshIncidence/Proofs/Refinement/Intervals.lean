/-
# New edges and faces by their lowest and highest place

The places of a split shape are ranked by what they lie in the middle of. Each place is
linked to places of the rank below: the middle of an edge to the ends of the edge, the
center of a face to the middles of its sides, the center of the element to the centers of
its faces, or to the middles of its edges if it is flat.

A local edge of a child joins two linked places. A local face of a child has a lowest and a
highest place, two steps apart, and the places linked to both. So edges and faces of
children are intervals alike, and what a neighbor has to match is the two ends of an
interval.
-/

import MeshIncidence.Proofs.Refinement.Pieces

namespace MeshIncidence

/-- Places of the same sort have the same rank. -/
def Place.rank : Place → Nat
  | .corner _ => 0
  | .middle _ => 1
  | .faceCenter _ => 2
  | .center => 3

/-- The places of a child at given corners. -/
def placesAt (places : List Place) (corners : List Nat) : List Place :=
  corners.map fun position => places.getD position .center

namespace CellShape

variable (shape : CellShape)

/-- All places of a shape. -/
def places : List Place :=
  (List.range shape.cornerCount).map .corner ++ (List.range shape.edges.length).map .middle ++
    (List.range shape.faces.length).map .faceCenter ++ [.center]

/-- The places of the rank below that a place is joined to in the children. -/
def links : Place → List Place
  | .corner _ => []
  | .middle edge =>
    let ends := shape.edges.getD edge (0, 0)
    [.corner ends.1, .corner ends.2]
  | .faceCenter face =>
    (sides (shape.faces.getD face [])).map fun side => .middle (shape.edgeBetween side.1 side.2)
  | .center =>
    if shape.faces = [] then (List.range shape.edges.length).map .middle
    else (List.range shape.faces.length).map .faceCenter

/-- The places two steps below a place, where the local faces of children start that end at
the place. -/
def footholds : Place → List Place
  | .faceCenter face => (shape.faces.getD face []).map .corner
  | .center => if shape.faces = [] then [] else (List.range shape.edges.length).map .middle
  | _ => []

/-- Two places and those linked to both of them. -/
def interval (bottom top : Place) : List Place :=
  bottom :: (shape.links top).filter (fun place => bottom ∈ shape.links place) ++ [top]

/-- The corner pairs of the local edges as lists. -/
def edgeCorners : List (List Nat) := shape.edges.map fun ends => [ends.1, ends.2]

/-- Local pieces of the children, given by their corners, are the intervals up to a place
from the bottoms for it. -/
structure HasIntervals (pieces : List (List Nat)) (bottoms : Place → List Place) : Prop where
  corner_lt : ∀ corners ∈ pieces, ∀ position ∈ corners, position < shape.cornerCount
  bottom_mem : ∀ top ∈ shape.places, ∀ bottom ∈ bottoms top, bottom ∈ shape.places
  rank_lt : ∀ top ∈ shape.places, ∀ bottom ∈ bottoms top, bottom.rank < top.rank
  nodup_bottoms : ∀ top ∈ shape.places, (bottoms top).Nodup
  exists_interval : ∀ places ∈ shape.children, ∀ corners ∈ pieces,
    ∃ top ∈ places, ∃ bottom ∈ bottoms top,
      (placesAt places corners).Perm (shape.interval bottom top)
  exists_piece : ∀ top ∈ shape.places, ∀ bottom ∈ bottoms top,
    ∃ places ∈ shape.children, ∃ corners ∈ pieces,
      (placesAt places corners).Perm (shape.interval bottom top)

variable {shape}

theorem mem_places_iff {place : Place} : place ∈ shape.places ↔ place.isOn shape := by
  cases place <;> simp [places, Place.isOn]

@[simp]
theorem middle_mem_places {edge : Nat} :
    .middle edge ∈ shape.places ↔ edge < shape.edges.length := by
  simp [places]

@[simp]
theorem faceCenter_mem_places {face : Nat} :
    .faceCenter face ∈ shape.places ↔ face < shape.faces.length := by
  simp [places]

@[simp]
theorem center_mem_places : .center ∈ shape.places := by
  simp [places]

/-- The local edges of children are intervals between linked places. -/
theorem hasIntervals_links (hsplit : shape.IsSplit) :
    shape.HasIntervals shape.edgeCorners shape.links := by
  rcases hsplit with rfl | rfl <;> constructor <;> decide +kernel

/-- The local faces of children are intervals of two steps. -/
theorem hasIntervals_footholds (hsplit : shape.IsSplit) :
    shape.HasIntervals shape.faces shape.footholds := by
  rcases hsplit with rfl | rfl <;> constructor <;> decide +kernel

theorem rank_lt_of_mem_links (hsplit : shape.IsSplit) {place top : Place}
    (htop : top ∈ shape.places) (hplace : place ∈ shape.links top) : place.rank < top.rank :=
  (hasIntervals_links hsplit).rank_lt top htop place hplace

theorem mem_places_of_mem_links (hsplit : shape.IsSplit) {place top : Place}
    (htop : top ∈ shape.places) (hplace : place ∈ shape.links top) : place ∈ shape.places :=
  (hasIntervals_links hsplit).bottom_mem top htop place hplace

theorem mem_interval {place bottom top : Place} :
    place ∈ shape.interval bottom top ↔
      place = bottom ∨ place ∈ shape.links top ∧ bottom ∈ shape.links place ∨ place = top := by
  simp [interval]

/-- Between the ends of an interval the ranks are between theirs. -/
theorem rank_of_mem_interval (hsplit : shape.IsSplit) {place bottom top : Place}
    (htop : top ∈ shape.places) (hplace : place ∈ shape.interval bottom top) :
    place = bottom ∨ bottom.rank < place.rank ∧ place.rank < top.rank ∨ place = top := by
  rw [mem_interval] at hplace
  refine hplace.imp_right (Or.imp_left fun ⟨habove, hbelow⟩ => ⟨?_, ?_⟩)
  · exact rank_lt_of_mem_links hsplit (mem_places_of_mem_links hsplit htop habove) hbelow
  · exact rank_lt_of_mem_links hsplit htop habove

theorem mem_places_of_mem_interval (hsplit : shape.IsSplit) {place bottom top : Place}
    (hbottom : bottom ∈ shape.places) (htop : top ∈ shape.places)
    (hplace : place ∈ shape.interval bottom top) : place ∈ shape.places := by
  rcases mem_interval.mp hplace with rfl | ⟨habove, -⟩ | rfl
  · exact hbottom
  · exact mem_places_of_mem_links hsplit htop habove
  · exact htop

/-- An interval with two different ends has no place twice. -/
theorem nodup_interval (hsplit : shape.IsSplit) {bottom top : Place} (htop : top ∈ shape.places)
    (hrank : bottom.rank < top.rank) : (shape.interval bottom top).Nodup := by
  have hlinks := (hasIntervals_links hsplit).nodup_bottoms top htop
  have hbetween : ∀ place ∈ (shape.links top).filter fun place => bottom ∈ shape.links place,
      bottom.rank < place.rank ∧ place.rank < top.rank := by
    intro place hplace
    rw [List.mem_filter, decide_eq_true_eq] at hplace
    exact ⟨rank_lt_of_mem_links hsplit (mem_places_of_mem_links hsplit htop hplace.1) hplace.2,
      rank_lt_of_mem_links hsplit htop hplace.1⟩
  rw [interval, List.cons_append, List.nodup_cons, List.nodup_append]
  refine ⟨fun hbottom => ?_, hlinks.filter _, List.nodup_singleton top, fun place hplace => ?_⟩
  · rcases List.mem_append.mp hbottom with hbottom | hbottom
    · exact absurd (hbetween bottom hbottom).1 (Nat.lt_irrefl _)
    · exact absurd (List.mem_singleton.mp hbottom ▸ hrank) (Nat.lt_irrefl _)
  · rintro _ hother rfl
    exact absurd (List.mem_singleton.mp hother ▸ (hbetween place hplace).2) (Nat.lt_irrefl _)

/-- Around a local face of a child, the places next to each other are those of neighboring
ranks. -/
theorem mem_sides_iff_rank (hsplit : shape.IsSplit) :
    ∀ places ∈ shape.children, ∀ corners ∈ shape.faces, ∀ first ∈ corners, ∀ second ∈ corners,
      ((first, second) ∈ sides corners ∨ (second, first) ∈ sides corners) ↔
        ((places.getD first .center).rank + 1 = (places.getD second .center).rank ∨
          (places.getD second .center).rank + 1 = (places.getD first .center).rank) := by
  rcases hsplit with rfl | rfl <;> decide +kernel

end CellShape

end MeshIncidence
