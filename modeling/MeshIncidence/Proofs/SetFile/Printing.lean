/-
# What a bound catalog prints

Printing looks rows of the copied tables up, which may be missing or too short. In a
catalog bound to a mesh they are there, and the printed text is a function of the mesh and
the sets: `printedBlock` for each kind, and the set file made of those that the dimension
admits.
-/

import MeshIncidence.SetCatalog.Printer
import MeshIncidence.Proofs.Catalog.Binding

namespace MeshIncidence

namespace ElementMesh

variable (mesh : ElementMesh)

/-- An edge as a set file has it. -/
def edgeWords (edge : Nat) : String :=
  spaced [(mesh.edgeKeys.getD edge (0, 0)).1, (mesh.edgeKeys.getD edge (0, 0)).2]

/-- A face as a set file has it. -/
def faceWords (face : Nat) : String :=
  let row := mesh.faceRows.getD face []
  s!"{row.length - 1} " ++ spaced row ++ "\n"

/-- The members of a set as a set file has them. -/
def printedMembers : Kind → List Nat → String
  | .edge, edges => if edges.isEmpty then "" else " ".intercalate (edges.map mesh.edgeWords) ++ "\n\n"
  | .face, faces => String.join (faces.map mesh.faceWords) ++ "\n"
  | _, numbers => if numbers.isEmpty then "" else spaced numbers ++ "\n\n"

/-- A set as a set file has it. -/
def printedSet (kind : Kind) (set : NamedSet Nat) : String :=
  setOpening set.name set.members.length ++ mesh.printedMembers kind set.members

/-- The block of the sets of a kind as a set file has it. -/
def printedBlock (sets : SetsByKind Nat) (kind : Kind) : String :=
  blockOpening kind (sets.count kind) ++ String.join ((sets.get kind).map (mesh.printedSet kind))

end ElementMesh

namespace SetCatalog

variable {mesh : ElementMesh} {sets : SetsByKind Nat}

theorem edgeSet_boundTo (hrange : sets.InRange mesh) {set : NamedSet Nat} (hset : set ∈ sets.edge) :
    (boundTo sets mesh).edgeSet set = .ok (mesh.printedSet .edge set) := by
  have hcount : 0 < sets.count .edge := List.length_pos_of_mem hset
  have htable : (boundTo sets mesh).tables.edgeVertex = some (mesh.derived .edgeVertex) :=
    if_pos hcount
  have hmember : ∀ edge ∈ set.members,
      (do edgeText (← (boundTo sets mesh).memberRow .edgeVertex edge)) =
        .ok (mesh.edgeWords edge) := by
    intro edge hedge
    have hlt : edge < mesh.edgeKeys.length := hrange .edge set hset edge hedge
    have hends := List.getElem?_eq_getElem hlt
    have hinside : ¬ (mesh.derived .edgeVertex).rowCount ≤ edge := by
      simpa [ElementMesh.derived, ElementMesh.edgeRows] using hlt
    simp only [memberRow, DerivedTables.get, htable, if_neg hinside, ElementMesh.row_edgeVertex hends,
      Result.ok_bind, edgeText, ElementMesh.edgeWords, List.getD_eq_getElem?_getD, hends,
      Option.getD_some]
  simp only [edgeSet, Result.mapM_eq_ok hmember, Result.ok_bind, Result.pure_eq_ok]
  rfl

theorem faceSet_boundTo (hrange : sets.InRange mesh) {set : NamedSet Nat} (hset : set ∈ sets.face) :
    (boundTo sets mesh).faceSet set = .ok (mesh.printedSet .face set) := by
  have hcount : 0 < sets.count .face := List.length_pos_of_mem hset
  have htable : (boundTo sets mesh).tables.faceVertex = some (mesh.derived .faceVertex) :=
    if_pos hcount
  have hmember : ∀ face ∈ set.members,
      (do faceLine (← (boundTo sets mesh).memberRow .faceVertex face)) =
        .ok (mesh.faceWords face) := by
    intro face hface
    have hlt : face < mesh.faceRows.length := by
      rw [ElementMesh.length_faceRows]
      exact hrange .face set hset face hface
    have hrow := List.getElem?_eq_getElem hlt
    have hinside : ¬ (mesh.derived .faceVertex).rowCount ≤ face := by
      simpa [ElementMesh.derived] using hlt
    have hsome : mesh.faceRows[face].isEmpty = false := by
      have hmem : mesh.faceRows[face] ∈ mesh.localFaces :=
        mem_of_mem_firstFaces (List.getElem_mem hlt)
      rcases ElementMesh.isFace_of_mem_localFaces hmem with hlength | hlength <;>
        exact List.isEmpty_eq_false_iff_exists_mem.mpr
          ⟨_, List.getElem_mem (show 0 < mesh.faceRows[face].length by omega)⟩
    simp only [memberRow, DerivedTables.get, htable, if_neg hinside, ElementMesh.row_faceVertex hrow,
      Result.ok_bind, faceLine, hsome, Bool.false_eq_true, if_false, ElementMesh.faceWords,
      List.getD_eq_getElem?_getD, hrow, Option.getD_some]
  simp only [faceSet, Result.mapM_eq_ok hmember, Result.ok_bind, Result.pure_eq_ok,
    ElementMesh.printedSet, ElementMesh.printedMembers, String.append_assoc]

/-- Each block of a bound catalog can be printed. -/
theorem block_boundTo (hrange : sets.InRange mesh) (kind : Kind) :
    (boundTo sets mesh).block kind = .ok (mesh.printedBlock sets kind) := by
  cases kind with
  | vertex => rfl
  | edge =>
      have hsets : (boundTo sets mesh).sets.edge.mapM (boundTo sets mesh).edgeSet = _ :=
        Result.mapM_eq_ok fun set hset => edgeSet_boundTo hrange hset
      simp only [block, edgeBlock, hsets, Result.ok_bind, Result.pure_eq_ok]
      rfl
  | face =>
      have hsets : (boundTo sets mesh).sets.face.mapM (boundTo sets mesh).faceSet = _ :=
        Result.mapM_eq_ok fun set hset => faceSet_boundTo hrange hset
      simp only [block, faceBlock, hsets, Result.ok_bind, Result.pure_eq_ok]
      rfl
  | element => rfl

/-- The set file of a bound catalog. -/
theorem render_boundTo (hrange : sets.InRange mesh) :
    (boundTo sets mesh).render =
      .ok (s!"{setFileTitle}\n\n{dimensionKeyword}\n{mesh.dimension}\n\n" ++ String.join
        ((Kind.all.filter (Kind.hasBlock mesh.dimension)).map (mesh.printedBlock sets))) := by
  have hblocks : (Kind.all.filter (Kind.hasBlock (boundTo sets mesh).dimension)).mapM
      (boundTo sets mesh).block = _ := Result.mapM_eq_ok fun kind _ => block_boundTo hrange kind
  rw [render, hblocks]
  rfl

end SetCatalog

end MeshIncidence
