/-
# Any number of refinements

In one round the mesh is refined and then the sets follow it. A round leaves everything as
it found it, as far as another round needs it: the mesh is of the same shape and has
distinct corners if it had, and the sets are bound to it.

So the law of following holds in every round. The mesh has to be one that fits into
storage; that the refined mesh then has numbers that are machine words is no assumption.
-/

import MeshIncidence.Proofs.Catalog.Following
import MeshIncidence.Proofs.Mesh.Reachable
import Mathlib.Logic.Relation

namespace MeshIncidence

/-- A mesh that can come about and whose sets can follow its refinement. Hexahedra need
distinct corners. -/
structure ElementMesh.CanBeFollowed (mesh : ElementMesh) (shape : CellShape) : Prop where
  reachable : mesh.Reachable
  uniform : mesh.IsUniform shape
  distinct : shape = .hexahedron → mesh.HasDistinctCorners

/-- The refined mesh is of the same sort. -/
theorem ElementMesh.CanBeFollowed.refinement {mesh : ElementMesh} {shape : CellShape}
    (hmesh : mesh.CanBeFollowed shape) : (mesh.refinement shape).CanBeFollowed shape where
  reachable := .refined hmesh.reachable (refined_eq hmesh.reachable.sound hmesh.uniform)
  uniform := isUniform_refinement hmesh.uniform
  distinct hshape :=
    hasDistinctCorners_refinement hmesh.reachable.sound hmesh.uniform (hmesh.distinct hshape)

namespace Bound

/-- Let the sets follow a mesh of a given shape that has been refined. -/
def follow {M : Type} [Connectivity M] : CellShape → Action (Bound M) Unit
  | .quadrilateral => followQuadrilaterals
  | _ => followHexahedra

/-- One round: the mesh is refined in place, and then the sets follow it. -/
def Round (follow : Action (Bound ElementMesh) Unit) (before after : Bound ElementMesh) : Prop :=
  ElementMesh.refine.Runs before.mesh () after.mesh ∧
    follow.Runs ⟨before.catalog, after.mesh⟩ () after

variable {shape : CellShape} {before after : Bound ElementMesh}

/-- A round can have one result only. -/
theorem Round.unique {other : Bound ElementMesh} {follow : Action (Bound ElementMesh) Unit}
    (hround : Round follow before after) (hother : Round follow before other) : after = other := by
  have hmesh := (hround.1.unique hother.1).2
  have hfollow := hother.2
  rw [← hmesh] at hfollow
  exact (hround.2.unique hfollow).2

/-- What is refined in a round is the mesh, whatever happens to the sets. -/
theorem Round.mesh_eq {follow : Action (Bound ElementMesh) Unit}
    (hmesh : before.mesh.CanBeFollowed shape) (hround : Round follow before after) :
    after.mesh = before.mesh.refinement shape :=
  (hround.1.unique (ElementMesh.refine_runs hmesh.reachable.sound hmesh.uniform)).2

/-- On a mesh that fits into storage the sets can follow, and they are bound to the refined
mesh. -/
theorem follow_runs {mesh : ElementMesh} (hmesh : mesh.CanBeFollowed shape)
    (hstorable : mesh.IsStorable) {sets : SetsByKind Nat} (hrange : sets.InRange mesh) :
    (follow shape).Runs ⟨.boundTo sets mesh, mesh.refinement shape⟩ ()
      ⟨.boundTo (sets.followed mesh shape) (mesh.refinement shape), mesh.refinement shape⟩ := by
  have hsound := hmesh.reachable.sound
  obtain ⟨hvertices, helements⟩ := hmesh.reachable.refinement_lt hmesh.uniform hstorable
  rcases hmesh.uniform.splits with rfl | rfl
  · exact followQuadrilaterals_runs hsound hmesh.uniform hvertices helements hrange
  · exact followHexahedra_runs hsound hmesh.uniform (hmesh.distinct rfl) hvertices helements hrange

/-- A round succeeds on a mesh that fits into storage with sets bound to it. The sets
follow the refinement and are bound to the refined mesh. -/
theorem exists_round (hmesh : before.mesh.CanBeFollowed shape) (hbound : before.IsBound)
    (hstorable : before.mesh.IsStorable) :
    ∃ after, Round (follow shape) before after ∧
      FollowsRefinement before.mesh after.mesh shape.cornerCount before.catalog.sets
        after.catalog.sets ∧
      after.IsBound := by
  obtain ⟨catalog, mesh⟩ := before
  have hsound := hmesh.reachable.sound
  have hfine := ElementMesh.sound_refinement hsound hmesh.uniform
  obtain ⟨hcatalog, hrange⟩ := (isBound_iff hsound).mp hbound
  have hfollow := follow_runs hmesh hstorable hrange
  rw [← hcatalog] at hfollow
  refine ⟨⟨.boundTo (catalog.sets.followed mesh shape) (mesh.refinement shape),
    mesh.refinement shape⟩, ⟨ElementMesh.refine_runs hsound hmesh.uniform, hfollow⟩, ?_, ?_⟩
  · exact followsRefinement_followed hsound hmesh.uniform hrange
  · exact (isBound_iff hfine).mpr ⟨rfl, SetsByKind.followed_inRange hmesh.uniform hrange⟩

/-- The mesh stays of its sort through any number of rounds. -/
theorem canBeFollowed_of_rounds {follow : Action (Bound ElementMesh) Unit}
    (hmesh : before.mesh.CanBeFollowed shape)
    (hrounds : Relation.ReflTransGen (Round follow) before after) :
    after.mesh.CanBeFollowed shape := by
  induction hrounds with
  | refl => exact hmesh
  | tail _ hround ih =>
      rw [hround.mesh_eq ih]
      exact ih.refinement

/-- The sets stay bound through any number of rounds, as long as the mesh fits into
storage; a mesh that was refined had fewer elements. -/
theorem isBound_of_rounds (hmesh : before.mesh.CanBeFollowed shape) (hbound : before.IsBound)
    (hrounds : Relation.ReflTransGen (Round (follow shape)) before after)
    (hstorable : after.mesh.IsStorable) : after.IsBound := by
  induction hrounds with
  | refl => exact hbound
  | @tail middle after hrounds hround ih =>
      have hmiddle := canBeFollowed_of_rounds hmesh hrounds
      have hearlier : middle.mesh.IsStorable := by
        rw [hround.mesh_eq hmiddle, ElementMesh.IsStorable,
          ElementMesh.length_elements_refinement hmiddle.uniform] at hstorable
        rw [ElementMesh.IsStorable]
        rcases hmiddle.uniform.splits with rfl | rfl <;>
          simp only [CellShape.cornerCount, elementBytes] at hstorable ⊢ <;>
          omega
      obtain ⟨other, hother, -, hbound⟩ := exists_round hmiddle (ih hearlier) hearlier
      rwa [hround.unique hother]

/-- After any number of rounds on a mesh of quadrilaterals, the next round succeeds and the
sets follow it. Elements may have repeated vertices and any number of them may share an
edge. -/
theorem quadrilateral_rounds {start bound : Bound ElementMesh} (hmesh : start.mesh.Reachable)
    (hdimension : start.mesh.dimension = 2) (hall : start.mesh.allOfShape .quadrilateral = true)
    (hbound : start.IsBound)
    (hrounds : Relation.ReflTransGen (Round followQuadrilaterals) start bound)
    (hstorable : bound.mesh.IsStorable) :
    ∃ after, Round followQuadrilaterals bound after ∧
      FollowsRefinement bound.mesh after.mesh 4 bound.catalog.sets after.catalog.sets ∧
      after.IsBound := by
  have huniform : start.mesh.IsUniform .quadrilateral :=
    ⟨.inl rfl, hdimension, ElementMesh.allOfShape_iff.mp hall⟩
  have hstart : start.mesh.CanBeFollowed .quadrilateral :=
    ⟨hmesh, huniform, fun hother => absurd hother (by decide)⟩
  have hnow := canBeFollowed_of_rounds hstart hrounds
  exact exists_round hnow (isBound_of_rounds hstart hbound hrounds hstorable) hstorable

/-- A square and a quadrilateral that has one of its vertices twice. -/
def foldedSquares : ElementMesh :=
  .counted ⟨2, 5, [⟨.quadrilateral, [0, 1, 2, 3]⟩, ⟨.quadrilateral, [1, 1, 2, 4]⟩], 0, 0, .none⟩

/-- Sets with repeated and missing members, and with a name that two sets have. -/
def foldedSets : SetsByKind Nat where
  vertex := [⟨"corner", [0, 4, 0]⟩]
  edge := [⟨"side", [4, 1]⟩, ⟨"side", []⟩]
  face := []
  element := [⟨"all", [1, 0]⟩]

theorem quadrilateral_rounds_foldedSquares :
    ∃ after, Round followQuadrilaterals ⟨.boundTo foldedSets foldedSquares, foldedSquares⟩ after ∧
      FollowsRefinement foldedSquares after.mesh 4 foldedSets after.catalog.sets ∧
      after.IsBound := by
  have hmade : ElementMesh.ofElements 2 5 foldedSquares.elements = .ok foldedSquares := by rfl
  have hmesh : foldedSquares.Reachable := .ofElements hmade
  have hrange : foldedSets.InRange foldedSquares := by
    intro kind
    cases kind <;> decide
  exact quadrilateral_rounds hmesh rfl (by decide) ((isBound_iff hmesh.sound).mpr ⟨rfl, hrange⟩)
    .refl (by decide)

/-- After any number of rounds on a mesh of hexahedra with distinct corners, the next round
succeeds and the sets follow it. -/
theorem hexahedron_rounds {start bound : Bound ElementMesh} (hmesh : start.mesh.Reachable)
    (hdimension : start.mesh.dimension = 3) (hall : start.mesh.allOfShape .hexahedron = true)
    (hdistinct : start.mesh.HasDistinctCorners) (hbound : start.IsBound)
    (hrounds : Relation.ReflTransGen (Round followHexahedra) start bound)
    (hstorable : bound.mesh.IsStorable) :
    ∃ after, Round followHexahedra bound after ∧
      FollowsRefinement bound.mesh after.mesh 8 bound.catalog.sets after.catalog.sets ∧
      after.IsBound := by
  have huniform : start.mesh.IsUniform .hexahedron :=
    ⟨.inr rfl, hdimension, ElementMesh.allOfShape_iff.mp hall⟩
  have hstart : start.mesh.CanBeFollowed .hexahedron := ⟨hmesh, huniform, fun _ => hdistinct⟩
  have hnow := canBeFollowed_of_rounds hstart hrounds
  exact exists_round hnow (isBound_of_rounds hstart hbound hrounds hstorable) hstorable

/-- Two cubes one upon the other. -/
def stackedCubes : ElementMesh :=
  .counted ⟨3, 12, [⟨.hexahedron, [0, 1, 2, 3, 4, 5, 6, 7]⟩,
    ⟨.hexahedron, [4, 5, 6, 7, 8, 9, 10, 11]⟩], 0, 0, .none⟩

/-- Sets of each kind; the face with the number five is shared. -/
def stackedSets : SetsByKind Nat where
  vertex := [⟨"corner", [11]⟩]
  edge := [⟨"pillar", [8, 19]⟩]
  face := [⟨"shared", [5, 10, 5]⟩, ⟨"", []⟩]
  element := [⟨"upper", [1]⟩]

theorem reachable_stackedCubes : stackedCubes.Reachable := by
  have hmade : ElementMesh.ofElements 3 12 stackedCubes.elements = .ok stackedCubes := by rfl
  exact .ofElements hmade

theorem isBound_stackedSets : IsBound ⟨.boundTo stackedSets stackedCubes, stackedCubes⟩ := by
  have hrange : stackedSets.InRange stackedCubes := by
    intro kind
    cases kind <;> decide
  exact (isBound_iff reachable_stackedCubes.sound).mpr ⟨rfl, hrange⟩

theorem hexahedron_rounds_stackedCubes :
    ∃ after, Round followHexahedra ⟨.boundTo stackedSets stackedCubes, stackedCubes⟩ after ∧
      FollowsRefinement stackedCubes after.mesh 8 stackedSets after.catalog.sets ∧
      after.IsBound :=
  hexahedron_rounds reachable_stackedCubes rfl (by decide) (by decide) isBound_stackedSets .refl
    (by decide)

end Bound

end MeshIncidence
