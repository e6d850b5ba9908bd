/-
# Counts through any number of refinements

A regular mesh can be refined, and what comes out is regular again. So what one refinement
does to the numbers of vertices, edges, faces and elements it does in every round, and their
alternating sum stays the same. No formula for the counts after several rounds is needed for
that, only that a round leaves the sum as it was.

Hexahedra need coherent faces at the start only. Flat elements have no faces, so that
distinct corners are all they need.
-/

import MeshIncidence.Proofs.Mesh.Tables
import MeshIncidence.Proofs.Refinement.Counting
import Mathlib.Logic.Relation

namespace MeshIncidence

namespace ElementMesh

/-- Refining the mesh `coarse` in place succeeds and leaves the mesh `fine`. -/
def Refines (coarse fine : ElementMesh) : Prop := refine.Runs coarse () fine

/-- The alternating sum of the numbers of vertices, edges, faces and elements. There are no
faces below dimension three, where elements come next to edges. -/
def eulerNumber (mesh : ElementMesh) : Int :=
  mesh.vertexCount - mesh.edgeCount + mesh.faceCount + (-1) ^ mesh.dimension * mesh.elements.length

/-- Edges and faces of the mesh get a vertex each, and are split in two and in four; the
further ones of the refined mesh are inside of elements. -/
structure Grows (innerEdges innerFaces children : Nat) (coarse fine : ElementMesh) : Prop where
  vertexCount_eq : fine.vertexCount =
    coarse.vertexCount + coarse.edgeCount + coarse.faceCount + coarse.elements.length
  edgeCount_eq : fine.edgeCount =
    2 * coarse.edgeCount + 4 * coarse.faceCount + innerEdges * coarse.elements.length
  faceCount_eq : fine.faceCount = 4 * coarse.faceCount + innerFaces * coarse.elements.length
  elementCount_eq : fine.elements.length = children * coarse.elements.length

variable {mesh coarse fine : ElementMesh} {shape : CellShape}

theorem IsRegular.refines (hregular : mesh.IsRegular shape) :
    Refines mesh (mesh.refinement shape) :=
  refine_runs hregular.sound hregular.uniform

/-- Refining leaves the refined mesh and no other. -/
theorem IsRegular.eq_refinement (hregular : coarse.IsRegular shape)
    (hrefines : Refines coarse fine) : fine = coarse.refinement shape :=
  (hrefines.unique hregular.refines).2

/-- The mesh stays regular through any number of refinements. -/
theorem IsRegular.of_refines (hregular : mesh.IsRegular shape)
    (hrounds : Relation.ReflTransGen Refines mesh coarse) : coarse.IsRegular shape := by
  induction hrounds with
  | refl => exact hregular
  | tail _ hround ih =>
      rw [ih.eq_refinement hround]
      exact ih.refinement

theorem IsRegular.grows (hregular : mesh.IsRegular shape) :
    Grows (shape.links .center).length (shape.footholds .center).length shape.cornerCount mesh
      (mesh.refinement shape) where
  vertexCount_eq := by
    rw [hregular.sound.edgeCount_eq, hregular.sound.faceCount_eq]
    rfl
  edgeCount_eq := by
    rw [hregular.refinement.sound.edgeCount_eq, length_edgeKeys_refinement hregular,
      hregular.sound.edgeCount_eq, hregular.sound.faceCount_eq]
  faceCount_eq := by
    rw [hregular.refinement.sound.faceCount_eq, length_faceKeys_refinement hregular,
      hregular.sound.faceCount_eq]
  elementCount_eq := length_elements_refinement hregular.uniform

/-- One refinement leaves the alternating sum as it is. -/
theorem IsRegular.eulerNumber_refinement (hregular : mesh.IsRegular shape) :
    (mesh.refinement shape).eulerNumber = mesh.eulerNumber := by
  obtain ⟨hvertices, hedges, hfaces, helements⟩ := hregular.grows
  have hdimension : (mesh.refinement shape).dimension = mesh.dimension := rfl
  rw [eulerNumber, eulerNumber, hvertices, hedges, hfaces, helements, hdimension,
    hregular.uniform.dimension_eq]
  rcases hregular.uniform.splits with rfl | rfl <;>
    simp [CellShape.links, CellShape.footholds, CellShape.faces, CellShape.edges,
      CellShape.cornerCount, CellShape.dimension] <;>
    omega

theorem IsRegular.eulerNumber_eq (hregular : mesh.IsRegular shape)
    (hrounds : Relation.ReflTransGen Refines mesh coarse) :
    coarse.eulerNumber = mesh.eulerNumber := by
  induction hrounds with
  | refl => rfl
  | tail hbefore hround ih =>
      have hnow := hregular.of_refines hbefore
      rw [hnow.eq_refinement hround, hnow.eulerNumber_refinement, ih]

/-- Meshes are refined whose elements are all of the one shape that is split in their
dimension, and no others. -/
theorem Sound.refines_iff (hsound : mesh.Sound) (hsplit : shape.IsSplit)
    (hdimension : mesh.dimension = shape.dimension) :
    ((∃ fine, Refines mesh fine) ↔ ∀ element ∈ mesh.elements, element.shape = shape) ∧
      ((¬ ∀ element ∈ mesh.elements, element.shape = shape) →
        refine.Ends mesh (refuse (.mesh .notUniform)) mesh) := by
  have hrefuses (hother : ¬ ∀ element ∈ mesh.elements, element.shape = shape) :
      refine.Ends mesh (refuse (.mesh .notUniform)) mesh := by
    have hsplits : mesh.split = refuse (.mesh .notUniform) := by
      rw [← allOfShape_iff] at hother
      rcases hsplit with rfl | rfl
      · rw [split, if_neg fun hflat => hother hflat.2,
          if_neg (by simp [hdimension, CellShape.dimension])]
      · rw [split, if_neg (by simp [hdimension, CellShape.dimension]),
          if_neg fun hsolid => hother hsolid.2]
    exact refine_ends_of_split_eq_error hsplits
  refine ⟨⟨?_, fun hall => ⟨_, refine_runs hsound ⟨hsplit, hdimension, hall⟩⟩⟩, hrefuses⟩
  rintro ⟨fine, hrefines⟩
  by_contra hother
  exact absurd (hrefines.unique (hrefuses hother)).1 (by simp [refuse])

/-- Refining solids succeeds exactly when all are hexahedra. If they have distinct corners
and coherent faces, then this is so after any number of refinements, and every refinement
changes the counts by the same law. -/
theorem Reachable.hexahedron_growth (hmesh : mesh.Reachable) (hdimension : mesh.dimension = 3) :
    ((∃ fine, Refines mesh fine) ↔ ∀ element ∈ mesh.elements, element.shape = .hexahedron) ∧
      ((¬ ∀ element ∈ mesh.elements, element.shape = .hexahedron) →
        refine.Ends mesh (refuse (.mesh .notUniform)) mesh) ∧
      ((∀ element ∈ mesh.elements, element.shape = .hexahedron) → mesh.HasDistinctCorners →
        mesh.HasCoherentFaces → ∀ coarse, Relation.ReflTransGen Refines mesh coarse →
          ∃ fine, Refines coarse fine ∧ Grows 6 12 8 coarse fine ∧ fine.HasDistinctCorners ∧
            fine.HasCoherentFaces ∧ fine.eulerNumber = mesh.eulerNumber) := by
  have hsolids := hmesh.sound.refines_iff (.inr rfl) hdimension
  refine ⟨hsolids.1, hsolids.2, fun hall hdistinct hcoherent coarse hrounds => ?_⟩
  have hregular := hmesh.sound.isRegular_of_hexahedra hdimension hall hdistinct hcoherent
  have hnow := hregular.of_refines hrounds
  exact ⟨_, hnow.refines, hnow.grows, hnow.refinement.distinct, hnow.refinement.coherent,
    hregular.eulerNumber_eq (hrounds.tail hnow.refines)⟩

/-- Two cubes that go around the face they share from different corners and in different
directions. -/
def turnedCubes : ElementMesh :=
  .counted ⟨3, 12, [⟨.hexahedron, [0, 1, 2, 3, 4, 5, 6, 7]⟩,
    ⟨.hexahedron, [6, 5, 4, 7, 8, 9, 10, 11]⟩], 0, 0, .none⟩

theorem reachable_turnedCubes : turnedCubes.Reachable := by
  have hmade : ofElements 3 12 turnedCubes.elements = .ok turnedCubes := by rfl
  exact .ofElements hmade

theorem hexahedron_growth_turnedCubes :
    refine.Ends shrunkHexahedron (refuse (.mesh .notUniform)) shrunkHexahedron ∧
      ∃ fine, Refines turnedCubes fine ∧ Grows 6 12 8 turnedCubes fine ∧
        fine.HasDistinctCorners ∧ fine.HasCoherentFaces ∧
        fine.eulerNumber = turnedCubes.eulerNumber :=
  ⟨(Reachable.hexahedron_growth reachable_shrunkHexahedron rfl).2.1 (by decide),
    (Reachable.hexahedron_growth reachable_turnedCubes rfl).2.2 (by decide) (by decide)
      (by decide) _ .refl⟩

/-- Refining flat elements succeeds exactly when all are quadrilaterals. If they have distinct
corners, then this is so after any number of refinements, and every refinement changes the
counts by the same law. -/
theorem Reachable.quadrilateral_growth (hmesh : mesh.Reachable) (hdimension : mesh.dimension = 2) :
    ((∃ fine, Refines mesh fine) ↔ ∀ element ∈ mesh.elements, element.shape = .quadrilateral) ∧
      ((¬ ∀ element ∈ mesh.elements, element.shape = .quadrilateral) →
        refine.Ends mesh (refuse (.mesh .notUniform)) mesh) ∧
      ((∀ element ∈ mesh.elements, element.shape = .quadrilateral) → mesh.HasDistinctCorners →
        ∀ coarse, Relation.ReflTransGen Refines mesh coarse →
          ∃ fine, Refines coarse fine ∧ Grows 4 0 4 coarse fine ∧ coarse.faceCount = 0 ∧
            fine.faceCount = 0 ∧ fine.HasDistinctCorners ∧
            (∀ element ∈ fine.elements, ∀ vertex ∈ element.vertices, vertex < fine.vertexCount) ∧
            fine.eulerNumber = mesh.eulerNumber) := by
  have hflats := hmesh.sound.refines_iff (.inl rfl) hdimension
  refine ⟨hflats.1, hflats.2, fun hall hdistinct coarse hrounds => ?_⟩
  have hregular := hmesh.sound.isRegular_of_quadrilaterals hdimension hall hdistinct
  have hnow := hregular.of_refines hrounds
  have hfaces {now : ElementMesh} (hnow : now.IsRegular .quadrilateral) : now.faceCount = 0 := by
    rw [hnow.sound.faceCount_eq, faceKeys_eq_nil hnow.uniform, List.length_nil]
  exact ⟨_, hnow.refines, hnow.grows, hfaces hnow, hfaces hnow.refinement,
    hnow.refinement.distinct, fun child hchild => (hnow.refinement.sound.fits child hchild).3,
    hregular.eulerNumber_eq (hrounds.tail hnow.refines)⟩

/-- Three squares in a band that is closed with a twist. -/
def twistedBand : ElementMesh :=
  .counted ⟨2, 6, [⟨.quadrilateral, [0, 1, 3, 2]⟩, ⟨.quadrilateral, [2, 3, 5, 4]⟩,
    ⟨.quadrilateral, [4, 5, 0, 1]⟩], 0, 0, .none⟩

theorem reachable_twistedBand : twistedBand.Reachable := by
  have hmade : ofElements 2 6 twistedBand.elements = .ok twistedBand := by rfl
  exact .ofElements hmade

/-- A square with a triangle upon it. -/
def gable : ElementMesh :=
  .counted ⟨2, 5, [⟨.quadrilateral, [0, 1, 2, 3]⟩, ⟨.triangle, [3, 2, 4]⟩], 0, 0, .none⟩

theorem quadrilateral_growth_twistedBand :
    refine.Ends gable (refuse (.mesh .notUniform)) gable ∧
      ∃ fine, Refines twistedBand fine ∧ Grows 4 0 4 twistedBand fine ∧
        twistedBand.faceCount = 0 ∧ fine.faceCount = 0 ∧ fine.HasDistinctCorners ∧
        (∀ element ∈ fine.elements, ∀ vertex ∈ element.vertices, vertex < fine.vertexCount) ∧
        fine.eulerNumber = twistedBand.eulerNumber := by
  have hmade : ofElements 2 5 gable.elements = .ok gable := by rfl
  exact ⟨(Reachable.quadrilateral_growth (.ofElements hmade) rfl).2.1 (by decide),
    (Reachable.quadrilateral_growth reachable_twistedBand rfl).2.2 (by decide) (by decide) _ .refl⟩

end ElementMesh

end MeshIncidence
