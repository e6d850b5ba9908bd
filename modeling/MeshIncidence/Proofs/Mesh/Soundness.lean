/-
# Sound meshes

A mesh is sound when its elements fit it, its counts are those of its elements, and
the tables it keeps are the tables it would build. Every mesh made of accepted
elements is sound. In a sound mesh numbering cannot fail, and the edges, the faces
and the derived tables are functions of the elements alone: `edgeKeys`,
`faceKeys` and `derived` say which.

The rows of a face table are not determined by the set of faces. They are the
vertices as the first element with the face lists them.
-/

import MeshIncidence.Mesh.ElementMesh
import MeshIncidence.Proofs.Numbering.Pairs
import MeshIncidence.Proofs.Numbering.Faces
import MeshIncidence.Proofs.TableRows

namespace MeshIncidence

namespace Element

/-- The element is of the dimension and has a vertex below the count at each corner. -/
structure Fits (element : Element) (dimension vertexCount : Nat) : Prop where
  dimension_eq : element.shape.dimension = dimension
  length_eq : element.vertices.length = element.shape.cornerCount
  lt_vertexCount : ∀ vertex ∈ element.vertices, vertex < vertexCount

variable {element : Element} {dimension vertexCount : Nat}

theorem defect?_eq_none_iff (index : Nat) :
    element.defect? index dimension vertexCount = none ↔ element.Fits dimension vertexCount := by
  unfold defect?
  constructor
  · intro hnone
    split at hnone
    · simp at hnone
    · split at hnone
      · simp at hnone
      · rename_i hdimension hlength
        refine ⟨by omega, by omega, fun vertex hvertex => ?_⟩
        have hfound := List.find?_eq_none.mp (Option.map_eq_none_iff.mp hnone) vertex hvertex
        simpa using hfound
  · rintro ⟨hdimension, hlength, hbelow⟩
    rw [if_neg (by simpa using hdimension), if_neg (by simpa using hlength),
      Option.map_eq_none_iff, List.find?_eq_none]
    simpa using hbelow

theorem corner_mem {position : Nat} (hposition : position < element.vertices.length) :
    element.corner position ∈ element.vertices := by
  rw [corner, List.getD_eq_getElem?_getD, List.getElem?_eq_getElem hposition, Option.getD_some]
  exact List.getElem_mem hposition

namespace Fits

theorem corner_lt (hfits : element.Fits dimension vertexCount) {position : Nat}
    (hposition : position < element.shape.cornerCount) :
    element.corner position < vertexCount :=
  hfits.lt_vertexCount _ (corner_mem (by rw [hfits.length_eq]; exact hposition))

theorem edge_lt (hfits : element.Fits dimension vertexCount) {edge : Nat × Nat}
    (hedge : edge ∈ element.edges) : edge.1 < vertexCount ∧ edge.2 < vertexCount := by
  obtain ⟨corners, hcorners, rfl⟩ := List.mem_map.mp hedge
  obtain ⟨hfirst, hsecond⟩ := element.shape.lt_cornerCount_of_mem_edges corners hcorners
  exact ⟨hfits.corner_lt hfirst, hfits.corner_lt hsecond⟩

theorem face_lt (hfits : element.Fits dimension vertexCount) {vertices : List Nat}
    (hface : vertices ∈ element.faces) : ∀ vertex ∈ vertices, vertex < vertexCount := by
  obtain ⟨corners, hcorners, rfl⟩ := List.mem_map.mp hface
  obtain ⟨-, hbelow⟩ := element.shape.lt_cornerCount_of_mem_faces corners hcorners
  intro vertex hvertex
  obtain ⟨position, hposition, rfl⟩ := List.mem_map.mp hvertex
  exact hfits.corner_lt (hbelow position hposition)

end Fits

theorem isFace_of_mem_faces {vertices : List Nat} (hface : vertices ∈ element.faces) :
    IsFace vertices := by
  obtain ⟨corners, hcorners, rfl⟩ := List.mem_map.mp hface
  rw [IsFace, List.length_map]
  exact (element.shape.lt_cornerCount_of_mem_faces corners hcorners).1

end Element

theorem length_sides (vertices : List Nat) : (sides vertices).length = vertices.length := by
  rw [sides, List.length_zip, List.length_append, List.length_drop, List.length_take]
  omega

theorem sides_map (image : Nat → Nat) (vertices : List Nat) :
    sides (vertices.map image) = (sides vertices).map fun side => (image side.1, image side.2) := by
  rw [sides, sides, ← List.map_drop, ← List.map_take, ← List.map_append, List.zip_map]
  rfl

/-- The sides of a local face are local edges, each in one of its two directions. -/
theorem CellShape.side_mem_edges (shape : CellShape) :
    ∀ face ∈ shape.faces, ∀ side ∈ sides face,
      side ∈ shape.edges ∨ (side.2, side.1) ∈ shape.edges := by
  cases shape <;> decide

namespace ElementMesh

variable (mesh : ElementMesh)

/-- The edges by their vertices, in numbering order. -/
def edgeKeys : List (Nat × Nat) :=
  seenAfter [] (mesh.localEdges.map fun edge => PairNumbering.key edge.1 edge.2)

/-- The faces by their vertices in increasing order, in numbering order. -/
def faceKeys : List (List Nat) := seenAfter [] (mesh.localFaces.map ascending)

/-- The vertices of each edge. -/
def edgeRows : List (List Nat) := mesh.edgeKeys.map fun key => [key.1, key.2]

/-- The edges of each face. -/
def faceEdgeRows : List (List Nat) :=
  mesh.faceRows.map fun vertices =>
    (sides vertices).map fun side => mesh.edgeKeys.idxOf (PairNumbering.key side.1 side.2)

/-- The derived tables of a mesh as functions of its elements. -/
def derived : DerivedTable → IncidenceTable
  | .edgeVertex => .ofRows mesh.edgeRows
  | .faceVertex => .ofRows mesh.faceRows
  | .faceEdge => .ofRows mesh.faceEdgeRows

/-- The elements fit the mesh, and what is kept beside them is what they give. -/
structure Sound (mesh : ElementMesh) : Prop where
  fits : ∀ element ∈ mesh.elements, element.Fits mesh.dimension mesh.vertexCount
  edgeCount_eq : mesh.edgeCount = mesh.edgeKeys.length
  faceCount_eq : mesh.faceCount = mesh.faceKeys.length
  tables_eq : ∀ which table, mesh.tables.get which = some table → table = mesh.derived which

theorem nodup_edgeKeys : mesh.edgeKeys.Nodup := nodup_seenAfter List.nodup_nil _

theorem nodup_faceKeys : mesh.faceKeys.Nodup := nodup_seenAfter List.nodup_nil _

variable {mesh}

theorem mem_edgeKeys {key : Nat × Nat} :
    key ∈ mesh.edgeKeys ↔ ∃ element ∈ mesh.elements, ∃ edge ∈ element.edges,
      PairNumbering.key edge.1 edge.2 = key := by
  simp only [edgeKeys, mem_seenAfter, List.not_mem_nil, false_or, List.mem_map, localEdges,
    List.mem_flatMap]
  grind

theorem mem_faceKeys {key : List Nat} :
    key ∈ mesh.faceKeys ↔ ∃ element ∈ mesh.elements, ∃ vertices ∈ element.faces,
      ascending vertices = key := by
  simp only [faceKeys, mem_seenAfter, List.not_mem_nil, false_or, List.mem_map, localFaces,
    List.mem_flatMap]
  grind

theorem isFace_of_mem_localFaces {vertices : List Nat} (hface : vertices ∈ mesh.localFaces) :
    IsFace vertices := by
  obtain ⟨element, -, hface⟩ := List.mem_flatMap.mp hface
  exact Element.isFace_of_mem_faces hface

/-- Numbering faces cannot fail: an element has no others than those of a mesh. -/
theorem faces_eq (mesh : ElementMesh) : mesh.faces = .ok ⟨mesh.faceKeys⟩ :=
  FaceNumbering.insertAll_eq fun _ => isFace_of_mem_localFaces

/-- The rows of the face table have the keys of the faces. -/
theorem map_ascending_faceRows (mesh : ElementMesh) :
    mesh.faceRows.map ascending = mesh.faceKeys :=
  map_ascending_firstFaces .empty fun _ => isFace_of_mem_localFaces

theorem length_faceRows (mesh : ElementMesh) : mesh.faceRows.length = mesh.faceKeys.length := by
  rw [← map_ascending_faceRows, List.length_map]

/-- The key of a face has the vertices of its row. -/
theorem getElem?_faceKeys {face : Nat} {row : List Nat} (hrow : mesh.faceRows[face]? = some row) :
    mesh.faceKeys[face]? = some (ascending row) := by
  rw [← map_ascending_faceRows, List.getElem?_map, hrow, Option.map_some]

/-- The key of an edge has its smaller end first. -/
theorem key_of_getElem?_edgeKeys {edge : Nat} {ends : Nat × Nat}
    (hends : mesh.edgeKeys[edge]? = some ends) : PairNumbering.key ends.1 ends.2 = ends := by
  obtain ⟨element, -, pair, -, rfl⟩ := mem_edgeKeys.mp (List.mem_of_getElem? hends)
  simp only [PairNumbering.key, Prod.mk.injEq]
  omega

theorem row_edgeVertex {edge : Nat} {ends : Nat × Nat} (hends : mesh.edgeKeys[edge]? = some ends) :
    (mesh.derived .edgeVertex).row edge = .ok [ends.1, ends.2] := by
  apply IncidenceTable.row_ofRows
  rw [edgeRows, List.getElem?_map, hends, Option.map_some]

theorem row_faceVertex {face : Nat} {row : List Nat} (hrow : mesh.faceRows[face]? = some row) :
    (mesh.derived .faceVertex).row face = .ok row := IncidenceTable.row_ofRows hrow

theorem mem_localFaces_of_mem_faceRows {vertices : List Nat} (hrow : vertices ∈ mesh.faceRows) :
    ∃ element ∈ mesh.elements, vertices ∈ element.faces :=
  List.mem_flatMap.mp (mem_of_mem_firstFaces hrow)

theorem isFace_of_mem_faceRows {vertices : List Nat} (hrow : vertices ∈ mesh.faceRows) :
    IsFace vertices := isFace_of_mem_localFaces (mem_of_mem_firstFaces hrow)

/-- A side of a face row is an edge. -/
theorem side_mem_edgeKeys {vertices : List Nat} (hrow : vertices ∈ mesh.faceRows)
    {side : Nat × Nat} (hside : side ∈ sides vertices) :
    PairNumbering.key side.1 side.2 ∈ mesh.edgeKeys := by
  obtain ⟨element, helement, hface⟩ := mem_localFaces_of_mem_faceRows hrow
  obtain ⟨corners, hcorners, rfl⟩ := List.mem_map.mp hface
  rw [sides_map] at hside
  obtain ⟨pair, hpair, rfl⟩ := List.mem_map.mp hside
  refine mem_edgeKeys.mpr ⟨element, helement, ?_⟩
  rcases element.shape.side_mem_edges corners hcorners pair hpair with hedge | hedge
  · exact ⟨_, List.mem_map.mpr ⟨pair, hedge, rfl⟩, rfl⟩
  · exact ⟨_, List.mem_map.mpr ⟨_, hedge, rfl⟩, PairNumbering.key_comm _ _⟩

/-- Numbering edges cannot fail: an element has no others than those of a mesh. -/
theorem edges_eq (hfits : ∀ element ∈ mesh.elements, element.Fits mesh.dimension mesh.vertexCount) :
    ∃ numbering, mesh.edges = .ok numbering ∧ numbering.Lists mesh.edgeKeys := by
  have hrows : ∀ edge ∈ mesh.localEdges,
      min edge.1 edge.2 < (PairNumbering.empty mesh.vertexCount).rowCount := by
    intro edge hedge
    obtain ⟨element, helement, hedge⟩ := List.mem_flatMap.mp hedge
    have hbelow := (hfits element helement).edge_lt hedge
    rw [PairNumbering.rowCount_empty]
    omega
  obtain ⟨numbering, hnumbering, hlists, -⟩ :=
    (PairNumbering.lists_empty mesh.vertexCount).insertAll hrows
  exact ⟨numbering, hnumbering, hlists⟩

/-- The mesh with the counts that its elements give. -/
def counted (mesh : ElementMesh) : ElementMesh :=
  { mesh with edgeCount := mesh.edgeKeys.length, faceCount := mesh.faceKeys.length }

theorem recount_eq
    (hfits : ∀ element ∈ mesh.elements, element.Fits mesh.dimension mesh.vertexCount) :
    mesh.recount = .ok mesh.counted := by
  obtain ⟨numbering, hnumbering, hlists⟩ := edges_eq hfits
  simp only [recount, hnumbering, faces_eq, Result.ok_bind, Result.pure_eq_ok, hlists.count_eq,
    FaceNumbering.count, counted]

/-- Elements that fit give a sound mesh, as long as no tables are kept. -/
theorem sound_counted
    (hfits : ∀ element ∈ mesh.elements, element.Fits mesh.dimension mesh.vertexCount)
    (htables : mesh.tables = .none) : mesh.counted.Sound where
  fits := hfits
  edgeCount_eq := rfl
  faceCount_eq := rfl
  tables_eq which table hkept := by
    rw [show mesh.counted.tables = .none from htables, DerivedTables.get_none] at hkept
    exact absurd hkept (by simp)

namespace Sound

/-- Each derived table can be built, and is the one its elements give. -/
theorem derive_eq (hsound : mesh.Sound) (which : DerivedTable) :
    mesh.derive which = .ok (mesh.derived which) := by
  obtain ⟨numbering, hnumbering, hlists⟩ := edges_eq hsound.fits
  cases which with
  | edgeVertex =>
      simp only [derive, edgeVertexTable, hnumbering, Result.ok_bind, Result.pure_eq_ok,
        hlists.pairs_eq]
      rfl
  | faceVertex => rfl
  | faceEdge =>
      have hedge : ∀ vertices ∈ mesh.faceRows, ∀ side ∈ sides vertices,
          numbering.edge side.1 side.2 =
            .ok (mesh.edgeKeys.idxOf (PairNumbering.key side.1 side.2)) := by
        intro vertices hrow side hside
        have hmember := side_mem_edgeKeys hrow hside
        have hfound := hlists.find?_eq_some_iff.mpr
          ((List.getElem?_idxOf hmember).trans rfl)
        rw [PairNumbering.edge, hfound]
      have hrows := Result.mapM_eq_ok fun vertices hrow =>
        Result.mapM_eq_ok (hedge vertices hrow)
      simp only [derive, faceEdgeTable, hnumbering, Result.ok_bind, hrows]
      rfl

/-- The vertices of edges and faces are vertices of the mesh. -/
theorem edgeKeys_lt (hsound : mesh.Sound) {edge : Nat} {ends : Nat × Nat}
    (hends : mesh.edgeKeys[edge]? = some ends) :
    ends.1 < mesh.vertexCount ∧ ends.2 < mesh.vertexCount := by
  obtain ⟨element, helement, pair, hpair, rfl⟩ := mem_edgeKeys.mp (List.mem_of_getElem? hends)
  have hlt := (hsound.fits element helement).edge_lt hpair
  simp only [PairNumbering.key]
  omega

theorem faceRows_lt (hsound : mesh.Sound) {face : Nat} {row : List Nat}
    (hrow : mesh.faceRows[face]? = some row) : ∀ vertex ∈ row, vertex < mesh.vertexCount := by
  obtain ⟨element, helement, hface⟩ := mem_localFaces_of_mem_faceRows (List.mem_of_getElem? hrow)
  exact (hsound.fits element helement).face_lt hface

end Sound

end ElementMesh

end MeshIncidence
