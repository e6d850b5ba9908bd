/-
# The lineage of a uniform refinement

A lineage is asked by vertices, so what it has to answer about a mesh that was refined
uniformly is said by look-ups in the two meshes. The middle of an edge and the center of a
face are vertices with known numbers, and a child is the edge or face through such vertices.

Nothing is said of vertices that do not make up an edge or a face, and children may be
answered in any order. A face is asked for by its corners in sequence, from any corner on
and in either direction.
-/

import MeshIncidence.Lineage
import MeshIncidence.Proofs.Catalog.Children

namespace MeshIncidence

namespace ElementMesh

variable (mesh coarse fine : ElementMesh)

/-- The edge that joins two vertices, if there is one. -/
def edgeBetween? (first second : Nat) : Option Nat :=
  match mesh.edges with
  | .ok numbering => numbering.find? first second
  | .error _ => none

/-- The face with given vertices, if there is one. -/
def faceThrough? (vertices : List Nat) : Option Nat :=
  match mesh.faces with
  | .ok numbering => numbering.find? vertices
  | .error _ => none

/-- Of a coarse edge between two vertices, the fine edge from the first one to the middle. -/
def half? (vertex other : Nat) : Option Nat := do
  let edge ← coarse.edgeBetween? vertex other
  fine.edgeBetween? vertex (coarse.vertexCount + edge)

/-- Of a coarse face with given corners in sequence, the fine face at one of them: through
the corner, the middles of the edges to the corners next to it, and the center. -/
def quarter? (corners : List Nat) (place : Nat) : Option Nat := do
  let face ← coarse.faceThrough? corners
  let next ← coarse.edgeBetween? (around corners place) (around corners (place + 1))
  let before ← coarse.edgeBetween? (around corners place) (around corners (place + 3))
  fine.faceThrough? [around corners place, coarse.vertexCount + next,
    coarse.vertexCount + before, coarse.vertexCount + coarse.edgeCount + face]

end ElementMesh

/-- The lineage answers what has become of a coarse mesh that was refined to a fine one, in
which each element has become `size` elements. -/
structure Lineage.DescribesRefinement (lineage : Lineage) (coarse fine : ElementMesh)
    (size : Nat) : Prop where
  joins_eq : ∀ first second, lineage.joins first second = coarse.edgeBetween? first second
  edges_perm : ∀ first second children,
    [coarse.half? fine first second, coarse.half? fine second first] = children.map some →
      (lineage.edges first second).Perm children
  faces_perm : ∀ first second third fourth children,
    (List.range 4).map (coarse.quarter? fine [first, second, third, fourth]) =
        children.map some →
      (lineage.faces first second third (some fourth)).Perm children
  elements_perm : ∀ element, element < coarse.elements.length →
    (lineage.elements element).Perm (element :: (List.range (size - 1)).map fun place =>
      coarse.elements.length + (size - 1) * element + place)

namespace Lineage

/-- The lineage that looks its answers up in the two meshes. -/
def ofRefinement (coarse fine : ElementMesh) (size : Nat) : Lineage where
  joins := coarse.edgeBetween?
  edges first second :=
    [coarse.half? fine first second, coarse.half? fine second first].filterMap id
  faces first second third fourth :=
    match fourth with
    | some fourth =>
      ((List.range 4).map (coarse.quarter? fine [first, second, third, fourth])).filterMap id
    | none => []
  elements element := element :: (List.range (size - 1)).map fun place =>
    coarse.elements.length + (size - 1) * element + place

theorem filterMap_id_perm {answers : List (Option Nat)} {children : List Nat}
    (hanswers : answers = children.map some) : (answers.filterMap id).Perm children := by
  subst hanswers
  rw [List.filterMap_map, Function.id_comp, List.filterMap_some]

theorem describesRefinement_ofRefinement (coarse fine : ElementMesh) (size : Nat) :
    (ofRefinement coarse fine size).DescribesRefinement coarse fine size where
  joins_eq _ _ := rfl
  edges_perm _ _ _ := filterMap_id_perm
  faces_perm _ _ _ _ _ := filterMap_id_perm
  elements_perm _ _ := .refl _

end Lineage

namespace ElementMesh

variable {mesh : ElementMesh} {shape : CellShape}

theorem edgeBetween?_eq {numbering : PairNumbering} (hnumbering : mesh.edges = .ok numbering)
    (first second : Nat) : mesh.edgeBetween? first second = numbering.find? first second := by
  rw [edgeBetween?, hnumbering]

theorem faceThrough?_eq (vertices : List Nat) :
    mesh.faceThrough? vertices = FaceNumbering.find? ⟨mesh.faceKeys⟩ vertices := by
  rw [faceThrough?, faces_eq]

/-- The halves of an edge are looked up from its ends. -/
theorem half?_eq (hsound : mesh.Sound) (huniform : mesh.IsUniform shape) {edge vertex other : Nat}
    (hedge : mesh.edgeKeys[edge]? = some (PairNumbering.key vertex other)) :
    mesh.half? (mesh.refinement shape) vertex other =
      some ((mesh.refinement shape).edgeNumber vertex (mesh.middleVertex edge)) := by
  obtain ⟨coarse, hcoarse, hlists⟩ := edges_eq hsound.fits
  obtain ⟨fine, hfine, hfineLists⟩ := edges_eq (sound_refinement hsound huniform).fits
  have hend : vertex = (PairNumbering.key vertex other).1 ∨
      vertex = (PairNumbering.key vertex other).2 := by
    simp only [PairNumbering.key]
    omega
  rw [half?, edgeBetween?_eq hcoarse, hlists.find?_eq_some_iff.mpr hedge, Option.bind_eq_bind,
    Option.bind_some, edgeBetween?_eq hfine]
  exact find?_edgeNumber hfineLists (half_mem_edgeKeys huniform hedge hend)

/-- The quarters of a face are looked up from its corners in the order of its row. -/
theorem quarter?_eq (hsound : mesh.Sound) (huniform : mesh.IsUniform .hexahedron) {face : Nat}
    {row : List Nat} (hrow : mesh.faceRows[face]? = some row) {position : Nat}
    (hposition : position < 4) :
    mesh.quarter? (mesh.refinement .hexahedron) row position =
      some ((mesh.refinement .hexahedron).faceNumber (mesh.quarter row face position)) := by
  obtain ⟨numbering, hnumbering, hlists⟩ := edges_eq hsound.fits
  have hlength := length_of_getElem?_faceRows huniform hrow
  have hface : FaceNumbering.find? ⟨mesh.faceKeys⟩ row = some face :=
    (find?_face_eq_some_iff (.inr hlength)).mpr (getElem?_faceKeys hrow)
  simp only [quarter?, faceThrough?_eq, edgeBetween?_eq hnumbering, hface,
    find?_around huniform hlists hrow, find?_around_before huniform hlists hrow,
    Option.bind_eq_bind, Option.bind_some, hsound.edgeCount_eq]
  exact find?_faceNumber (.inr rfl) (quarter_mem_faceKeys huniform hrow hposition)

end ElementMesh

namespace Lineage.DescribesRefinement

variable {lineage : Lineage} {mesh : ElementMesh} {shape : CellShape}

theorem edges_perm_halves
    (hlineage : lineage.DescribesRefinement mesh (mesh.refinement shape) shape.cornerCount)
    (hsound : mesh.Sound) (huniform : mesh.IsUniform shape) {edge : Nat} {ends : Nat × Nat}
    (hends : mesh.edgeKeys[edge]? = some ends) :
    (lineage.edges ends.1 ends.2).Perm (mesh.halves shape edge) := by
  have hkey := ElementMesh.key_of_getElem?_edgeKeys hends
  have hfirst : mesh.edgeKeys[edge]? = some (PairNumbering.key ends.1 ends.2) := by
    rw [hends, hkey]
  have hsecond : mesh.edgeKeys[edge]? = some (PairNumbering.key ends.2 ends.1) := by
    rw [hfirst, PairNumbering.key_comm]
  apply hlineage.edges_perm
  rw [ElementMesh.half?_eq hsound huniform hfirst, ElementMesh.half?_eq hsound huniform hsecond,
    ElementMesh.halves_eq hends]
  rfl

theorem faces_perm_quarters
    (hlineage : lineage.DescribesRefinement mesh (mesh.refinement .hexahedron) 8)
    (hsound : mesh.Sound) (huniform : mesh.IsUniform .hexahedron)
    {face first second third fourth : Nat}
    (hrow : mesh.faceRows[face]? = some [first, second, third, fourth]) :
    (lineage.faces first second third (some fourth)).Perm (mesh.quarters .hexahedron face) := by
  apply hlineage.faces_perm
  rw [ElementMesh.quarters_eq hrow, List.map_map]
  apply List.map_congr_left
  intro position hposition
  exact ElementMesh.quarter?_eq hsound huniform hrow (List.mem_range.mp hposition)

theorem elements_perm_children
    (hlineage : lineage.DescribesRefinement mesh (mesh.refinement shape) shape.cornerCount)
    {element : Nat} (helement : element < mesh.elements.length) :
    (lineage.elements element).Perm (mesh.children shape element) := by
  rw [ElementMesh.children_eq shape.cornerCount_eq]
  exact hlineage.elements_perm element helement

end Lineage.DescribesRefinement

end MeshIncidence
