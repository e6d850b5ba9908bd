/-
# Derived tables and numberings

The edge-vertex, face-vertex and face-edge tables are built on their own ways from the
elements, and edges and faces are numbered on others. `TablesFit` says that a row of a
table is what the numberings have under the row's number: looking up the vertices of a
row gives the number of the row, and the entries of a face-edge row are the numbers of
the sides of the face.

Shapes may be mixed as far as the dimension allows, and vertices may be repeated within
an element. That the sides of a face are edges at all is a fact about the shapes.
-/

import MeshIncidence.Proofs.Mesh.Reachable

namespace MeshIncidence

/-- The side from one vertex to the next stands at the position of the vertex. -/
theorem getElem?_sides_of_getElem? {vertices : List Nat} {position first second : Nat}
    (hfirst : vertices[position]? = some first)
    (hsecond : vertices[(position + 1) % vertices.length]? = some second) :
    (sides vertices)[position]? = some (first, second) := by
  obtain ⟨hlt, -⟩ := List.getElem?_eq_some_iff.mp hfirst
  rw [sides, List.getElem?_zip_eq_some]
  refine ⟨hfirst, ?_⟩
  by_cases hlast : position + 1 < vertices.length
  · rw [Nat.mod_eq_of_lt hlast] at hsecond
    rw [List.getElem?_append_left (by rw [List.length_drop]; omega), List.getElem?_drop,
      Nat.add_comm, hsecond]
  · -- The last vertex is followed by the first one.
    have hround : position + 1 = vertices.length := by omega
    rw [hround, Nat.mod_self] at hsecond
    rw [List.getElem?_append_right (by rw [List.length_drop]; omega), List.length_drop,
      show position - (vertices.length - 1) = 0 by omega, List.getElem?_take_of_lt Nat.zero_lt_one,
      hsecond]

namespace ElementMesh

/-- The tables have a row for each edge or face, with what the numberings say of it, and
every local edge and face of an element is one of them. -/
structure TablesFit (mesh : ElementMesh) (edges : PairNumbering) (faces : FaceNumbering)
    (table : DerivedTable → IncidenceTable) : Prop where
  rowCount_edgeVertex : (table .edgeVertex).rowCount = mesh.edgeCount
  row_edgeVertex : ∀ edge < mesh.edgeCount, ∃ first second, first ≤ second ∧
    (table .edgeVertex).row edge = .ok [first, second] ∧ edges.find? first second = some edge
  rowCount_faceVertex : (table .faceVertex).rowCount = mesh.faceCount
  row_faceVertex : ∀ face < mesh.faceCount, ∃ vertices,
    (table .faceVertex).row face = .ok vertices ∧ faces.find? vertices = some face
  rowCount_faceEdge : (table .faceEdge).rowCount = mesh.faceCount
  /-- Each vertex of a face and the next one, counted around, are joined by the edge at the
  same position. -/
  row_faceEdge : ∀ face < mesh.faceCount, ∀ vertices,
    (table .faceVertex).row face = .ok vertices →
      ∃ numbers, (table .faceEdge).row face = .ok numbers ∧ numbers.length = vertices.length ∧
        ∀ position first second : Nat, vertices[position]? = some first →
          vertices[(position + 1) % vertices.length]? = some second →
            ∃ number, numbers[position]? = some number ∧ edges.find? first second = some number
  exists_edge_row : ∀ element ∈ mesh.elements, ∀ ends ∈ element.edges,
    ∃ edge < mesh.edgeCount,
      (table .edgeVertex).row edge = .ok [min ends.1 ends.2, max ends.1 ends.2]
  exists_face_row : ∀ element ∈ mesh.elements, ∀ vertices ∈ element.faces,
    ∃ face < mesh.faceCount, ∃ row, (table .faceVertex).row face = .ok row ∧ row.Perm vertices

variable {mesh : ElementMesh}

/-- The number of a face is the position of its row. -/
theorem find?_faceRow {face : Nat} {row : List Nat} (hrow : mesh.faceRows[face]? = some row) :
    FaceNumbering.find? ⟨mesh.faceKeys⟩ row = some face :=
  (find?_face_eq_some_iff (isFace_of_mem_faceRows (List.mem_of_getElem? hrow))).mpr
    (getElem?_faceKeys hrow)

/-- The row of a local face lists its vertices, in some order. -/
theorem exists_faceRow_perm {element : Element} (helement : element ∈ mesh.elements)
    {vertices : List Nat} (hface : vertices ∈ element.faces) :
    ∃ face < mesh.faceKeys.length, ∃ row, mesh.faceRows[face]? = some row ∧ row.Perm vertices := by
  have hnumber := getElem?_faceNumber (ascending_mem_faceKeys helement hface)
  obtain ⟨hlt, -⟩ := List.getElem?_eq_some_iff.mp hnumber
  have hrow := List.getElem?_eq_getElem (l := mesh.faceRows) (by rwa [length_faceRows])
  refine ⟨_, hlt, _, hrow, ?_⟩
  rw [← ascending_eq_ascending_iff]
  exact Option.some.inj ((getElem?_faceKeys hrow).symm.trans hnumber)

/-- The tables that the elements give fit the numberings. -/
theorem Sound.tablesFit (hsound : mesh.Sound) {numbering : PairNumbering}
    (hlists : numbering.Lists mesh.edgeKeys) :
    mesh.TablesFit numbering ⟨mesh.faceKeys⟩ mesh.derived where
  rowCount_edgeVertex := by
    rw [derived, IncidenceTable.rowCount_ofRows, edgeRows, List.length_map, hsound.edgeCount_eq]
  row_edgeVertex edge hedge := by
    rw [hsound.edgeCount_eq] at hedge
    have hends := List.getElem?_eq_getElem hedge
    have hkey := key_of_getElem?_edgeKeys hends
    have hordered : mesh.edgeKeys[edge].1 ≤ mesh.edgeKeys[edge].2 := by
      rw [← hkey]
      simp only [PairNumbering.key]
      omega
    refine ⟨_, _, hordered, ElementMesh.row_edgeVertex hends, hlists.find?_eq_some_iff.mpr ?_⟩
    rw [hkey, hends]
  rowCount_faceVertex := by
    rw [derived, IncidenceTable.rowCount_ofRows, length_faceRows, hsound.faceCount_eq]
  row_faceVertex face hface := by
    rw [hsound.faceCount_eq, ← length_faceRows] at hface
    have hrow := List.getElem?_eq_getElem hface
    exact ⟨_, ElementMesh.row_faceVertex hrow, find?_faceRow hrow⟩
  rowCount_faceEdge := by
    rw [derived, IncidenceTable.rowCount_ofRows, faceEdgeRows, List.length_map, length_faceRows,
      hsound.faceCount_eq]
  row_faceEdge face hface vertices hvertices := by
    rw [hsound.faceCount_eq, ← length_faceRows] at hface
    have hrow := List.getElem?_eq_getElem hface
    obtain rfl := Except.ok.inj ((ElementMesh.row_faceVertex hrow).symm.trans hvertices)
    refine ⟨_, ElementMesh.row_faceEdge hrow, by rw [List.length_map, length_sides], ?_⟩
    intro position first second hfirst hsecond
    have hside := getElem?_sides_of_getElem? hfirst hsecond
    refine ⟨mesh.edgeNumber first second, by rw [List.getElem?_map, hside, Option.map_some], ?_⟩
    exact find?_edgeNumber hlists
      (side_mem_edgeKeys (List.mem_of_getElem? hrow) (List.mem_of_getElem? hside))
  exists_edge_row element helement ends hends := by
    have hnumber := getElem?_edgeNumber (key_mem_edgeKeys helement hends)
    obtain ⟨hlt, -⟩ := List.getElem?_eq_some_iff.mp hnumber
    rw [hsound.edgeCount_eq]
    exact ⟨_, hlt, ElementMesh.row_edgeVertex hnumber⟩
  exists_face_row element helement vertices hface := by
    obtain ⟨face, hlt, row, hrow, hperm⟩ := exists_faceRow_perm helement hface
    rw [hsound.faceCount_eq]
    exact ⟨face, hlt, row, ElementMesh.row_faceVertex hrow, hperm⟩

/-- However a mesh came about, its edges and faces can be numbered, each derived table is
handed over, and the tables fit the numberings. -/
theorem Reachable.handOver_fits (hmesh : mesh.Reachable) :
    ∃ edges faces table, mesh.edges = .ok edges ∧ mesh.faces = .ok faces ∧
      (∀ which, ∃ left, mesh.handOver which = .ok (table which, left)) ∧
      mesh.TablesFit edges faces table := by
  have hsound := hmesh.sound
  obtain ⟨numbering, hnumbering, hlists⟩ := edges_eq hsound.fits
  exact ⟨numbering, ⟨mesh.faceKeys⟩, mesh.derived, hnumbering, faces_eq mesh,
    fun which => ⟨_, hsound.handOver_eq which⟩, hsound.tablesFit hlists⟩

/-- A hexahedron with one edge shrunk to a point, and a tetrahedron that shares an edge with
it. -/
def shrunkHexahedron : ElementMesh :=
  .counted ⟨3, 9, [⟨.hexahedron, [0, 1, 2, 3, 4, 5, 6, 6]⟩, ⟨.tetrahedron, [6, 2, 8, 7]⟩],
    0, 0, .none⟩

theorem reachable_shrunkHexahedron : shrunkHexahedron.Reachable := by
  have hmade : ofElements 3 9 shrunkHexahedron.elements = .ok shrunkHexahedron := by rfl
  exact .ofElements hmade

theorem handOver_fits_shrunkHexahedron :
    ∃ edges faces table, shrunkHexahedron.edges = .ok edges ∧
      shrunkHexahedron.faces = .ok faces ∧
      (∀ which, ∃ left, shrunkHexahedron.handOver which = .ok (table which, left)) ∧
      shrunkHexahedron.TablesFit edges faces table :=
  Reachable.handOver_fits reachable_shrunkHexahedron

end ElementMesh

end MeshIncidence
