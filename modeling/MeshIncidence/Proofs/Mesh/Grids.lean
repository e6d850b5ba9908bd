/-
# Counts of regular grids

A grid of quadrilaterals is a lattice of elements of a single layer, with vertices in that
layer only. So grids of both shapes are lattices of elements, and are counted together: a
local edge or face of an element is a cube of its lattice, every such cube belongs to some
element, and neighbors that share one list its vertices alike up to their order.

What depends on the shape is where its corners stand and which steps its edges and faces take;
that these fit together is checked once for each shape.
-/

import MeshIncidence.Proofs.Mesh.Lattice
import MeshIncidence.Proofs.Mesh.Reachable

namespace MeshIncidence

-- Powers are those of the core library, whatever else a module imports.
attribute [default_instance high] instPowNat

namespace CellShape

/-- How far an element of a grid reaches in each direction. -/
def extent : CellShape → LatticePoint
  | .quadrilateral => ⟨1, 1, 0⟩
  | .hexahedron => ⟨1, 1, 1⟩
  | _ => ⟨0, 0, 0⟩

/-- Where the corners of an element of a grid stand, counted from its first corner. -/
def cornerPoints : CellShape → List LatticePoint
  | .quadrilateral => [⟨0, 0, 0⟩, ⟨1, 0, 0⟩, ⟨1, 1, 0⟩, ⟨0, 1, 0⟩]
  | .hexahedron =>
    [⟨0, 0, 0⟩, ⟨1, 0, 0⟩, ⟨1, 1, 0⟩, ⟨0, 1, 0⟩, ⟨0, 0, 1⟩, ⟨1, 0, 1⟩, ⟨1, 1, 1⟩, ⟨0, 1, 1⟩]
  | _ => []

/-- The steps from the lower end of a local edge to the upper one. -/
def edgeSteps : CellShape → List LatticePoint
  | .quadrilateral => [⟨1, 0, 0⟩, ⟨0, 1, 0⟩]
  | .hexahedron => [⟨1, 0, 0⟩, ⟨0, 1, 0⟩, ⟨0, 0, 1⟩]
  | _ => []

/-- The steps from the lowest corner of a local face to the highest. -/
def faceSteps : CellShape → List LatticePoint
  | .hexahedron => [⟨0, 1, 1⟩, ⟨1, 0, 1⟩, ⟨1, 1, 0⟩]
  | _ => []

variable (shape : CellShape)

/-- Where a corner stands. -/
def cornerPoint (corner : Nat) : LatticePoint := shape.cornerPoints.getD corner ⟨0, 0, 0⟩

/-- Local pieces of an element, given by their corners, are the cubes with given steps that lie
within the element. -/
structure HasCells (pieces : List (List Nat)) (steps : List LatticePoint) : Prop where
  corner_lt : ∀ corners ∈ pieces, ∀ corner ∈ corners, corner < shape.cornerPoints.length
  nodup_steps : steps.Nodup
  step_mem : ∀ step ∈ steps, step ∈ shape.cornerPoints
  exists_cell : ∀ corners ∈ pieces, ∃ low ∈ shape.cornerPoints, ∃ step ∈ steps,
    low + step ∈ shape.cornerPoints ∧
      (corners.map shape.cornerPoint).Perm (LatticePoint.cube low step)
  exists_piece : ∀ low ∈ shape.cornerPoints, ∀ step ∈ steps, low + step ∈ shape.cornerPoints →
    ∃ corners ∈ pieces, (corners.map shape.cornerPoint).Perm (LatticePoint.cube low step)

variable {shape}

theorem hasCells_edges (hsplit : shape.IsSplit) :
    shape.HasCells shape.edgeCorners shape.edgeSteps := by
  rcases hsplit with rfl | rfl <;> constructor <;> decide

theorem hasCells_faces (hsplit : shape.IsSplit) :
    shape.HasCells shape.faces shape.faceSteps := by
  rcases hsplit with rfl | rfl <;> constructor <;> decide

theorem length_cornerPoints (hsplit : shape.IsSplit) :
    shape.cornerPoints.length = shape.cornerCount := by
  rcases hsplit with rfl | rfl <;> rfl

theorem nodup_cornerPoints (hsplit : shape.IsSplit) : shape.cornerPoints.Nodup := by
  rcases hsplit with rfl | rfl <;> decide

/-- There is a corner at every point within the extent. -/
theorem mem_cornerPoints (hsplit : shape.IsSplit) {point : LatticePoint} :
    point ∈ shape.cornerPoints ↔
      point.x ≤ shape.extent.x ∧ point.y ≤ shape.extent.y ∧ point.z ≤ shape.extent.z := by
  rcases hsplit with rfl | rfl <;> simp [cornerPoints, extent, LatticePoint.ext_iff] <;> omega

theorem extent_le_one (hsplit : shape.IsSplit) :
    shape.extent.x ≤ 1 ∧ shape.extent.y ≤ 1 ∧ shape.extent.z ≤ 1 := by
  rcases hsplit with rfl | rfl <;> decide

end CellShape

namespace ElementMesh

variable {shape : CellShape} {sizes cell : LatticePoint}

/-- The element of a lattice that stands on a point. -/
def latticeElement (shape : CellShape) (counts cell : LatticePoint) : Element :=
  ⟨shape, shape.cornerPoints.map fun point => counts.number (cell + point)⟩

/-- The mesh with an element on each point of a box, and vertices on their corners. -/
def lattice (shape : CellShape) (sizes : LatticePoint) : ElementMesh :=
  .counted ⟨shape.dimension, (sizes + shape.extent).volume,
    sizes.box.map (latticeElement shape (sizes + shape.extent)), 0, 0, .none⟩

theorem mem_elements_lattice {element : Element} :
    element ∈ (lattice shape sizes).elements ↔
      ∃ cell : LatticePoint, cell.Within sizes ∧
        latticeElement shape (sizes + shape.extent) cell = element := by
  simp only [lattice, counted, List.mem_map, LatticePoint.mem_box]

/-- Corners of elements are vertices of the lattice. -/
theorem within_corner (hsplit : shape.IsSplit) (hcell : cell.Within sizes) {point : LatticePoint}
    (hpoint : point ∈ shape.cornerPoints) : (cell + point).Within (sizes + shape.extent) := by
  obtain ⟨hx, hy, hz⟩ := (CellShape.mem_cornerPoints hsplit).mp hpoint
  obtain ⟨hcellX, hcellY, hcellZ⟩ := hcell
  exact ⟨Nat.add_lt_add_of_lt_of_le hcellX hx, Nat.add_lt_add_of_lt_of_le hcellY hy,
    Nat.add_lt_add_of_lt_of_le hcellZ hz⟩

theorem fits_latticeElement (hsplit : shape.IsSplit) (hcell : cell.Within sizes) :
    (latticeElement shape (sizes + shape.extent) cell).Fits shape.dimension
      (sizes + shape.extent).volume where
  dimension_eq := rfl
  length_eq := by
    rw [latticeElement, List.length_map, CellShape.length_cornerPoints hsplit]
  lt_vertexCount vertex hvertex := by
    obtain ⟨point, hpoint, rfl⟩ := List.mem_map.mp hvertex
    exact LatticePoint.number_lt (within_corner hsplit hcell hpoint)

theorem hasDistinctCorners_lattice (hsplit : shape.IsSplit) :
    (lattice shape sizes).HasDistinctCorners := by
  intro element helement
  obtain ⟨cell, hcell, rfl⟩ := mem_elements_lattice.mp helement
  apply (CellShape.nodup_cornerPoints hsplit).map_on
  intro first hfirst second hsecond hequal
  have hsame := LatticePoint.number_inj (within_corner hsplit hcell hfirst)
    (within_corner hsplit hcell hsecond) hequal
  exact LatticePoint.add_left_cancel hsame

/-- A piece that is a cube of the element has the vertices of a cube of the lattice. -/
theorem map_corner_latticeElement_perm {pieces : List (List Nat)} {steps : List LatticePoint}
    (hcells : shape.HasCells pieces steps) (counts cell : LatticePoint) {corners : List Nat}
    (hcorners : corners ∈ pieces) {low step : LatticePoint}
    (hperm : (corners.map shape.cornerPoint).Perm (LatticePoint.cube low step)) :
    (corners.map (latticeElement shape counts cell).corner).Perm
      (counts.cubeNumbers (cell + low) step) := by
  have hcorner : ∀ corner ∈ corners, (latticeElement shape counts cell).corner corner =
      counts.number (cell + shape.cornerPoint corner) := by
    intro corner hcorner
    have hlt := hcells.corner_lt corners hcorners corner hcorner
    simp [Element.corner, latticeElement, CellShape.cornerPoint, hlt]
  have hmoved := hperm.map fun point => counts.number (cell + point)
  rw [List.map_map] at hmoved
  rw [List.map_congr_left hcorner, LatticePoint.cubeNumbers, ← LatticePoint.map_add_cube,
    List.map_map]
  exact hmoved

/-- A point of the lattice is a corner of an element from which a given step stays within the
element, as far as it stays within the lattice. -/
theorem exists_cell_of_within (hsplit : shape.IsSplit) (hx : 0 < sizes.x) (hy : 0 < sizes.y)
    (hz : 0 < sizes.z) {point step : LatticePoint}
    (hwithin : (point + step).Within (sizes + shape.extent)) (hstep : step ∈ shape.cornerPoints) :
    ∃ cell low : LatticePoint, cell.Within sizes ∧ low ∈ shape.cornerPoints ∧
      low + step ∈ shape.cornerPoints ∧ point = cell + low := by
  obtain ⟨hstepX, hstepY, hstepZ⟩ := (CellShape.mem_cornerPoints hsplit).mp hstep
  obtain ⟨hextentX, hextentY, hextentZ⟩ := CellShape.extent_le_one hsplit
  obtain ⟨hhighX, hhighY, hhighZ⟩ := hwithin
  simp only [LatticePoint.add_x, LatticePoint.add_y, LatticePoint.add_z] at hhighX hhighY hhighZ
  -- The last point of a direction belongs to the element before it.
  refine ⟨⟨min point.x (sizes.x - 1), min point.y (sizes.y - 1), min point.z (sizes.z - 1)⟩,
    ⟨point.x - min point.x (sizes.x - 1), point.y - min point.y (sizes.y - 1),
      point.z - min point.z (sizes.z - 1)⟩, ⟨?_, ?_, ?_⟩, ?_, ?_, ?_⟩
  · simp only; omega
  · simp only; omega
  · simp only; omega
  · rw [CellShape.mem_cornerPoints hsplit]
    exact ⟨by simp only; omega, by simp only; omega, by simp only; omega⟩
  · rw [CellShape.mem_cornerPoints hsplit]
    simp only [LatticePoint.add_x, LatticePoint.add_y, LatticePoint.add_z]
    exact ⟨by omega, by omega, by omega⟩
  · ext <;> simp only [LatticePoint.add_x, LatticePoint.add_y, LatticePoint.add_z] <;> omega

section Counting

variable {pieces : List (List Nat)} {steps : List LatticePoint}

/-- Edges or faces under keys that tell the smallest and the largest of their vertices are the
cubes of the lattice with the steps of the local pieces. -/
theorem keys_perm_cells (hsplit : shape.IsSplit) (hcells : shape.HasCells pieces steps)
    (hx : 0 < sizes.x) (hy : 0 < sizes.y) (hz : 0 < sizes.z) {α : Type} {keyOf : List Nat → α}
    {keys : List α} (hsame : ∀ first second, first.Perm second → keyOf first = keyOf second)
    (htold : ∀ first second, keyOf first = keyOf second → extremes first = extremes second)
    (hnodup : keys.Nodup)
    (hkeys : ∀ key, key ∈ keys ↔ ∃ element ∈ (lattice shape sizes).elements, ∃ corners ∈ pieces,
      keyOf (corners.map element.corner) = key) :
    keys.Perm (((sizes + shape.extent).cells steps).map fun cell =>
      keyOf ((sizes + shape.extent).cubeNumbers cell.1 cell.2)) := by
  have hdifferent : (((sizes + shape.extent).cells steps).map fun cell =>
      keyOf ((sizes + shape.extent).cubeNumbers cell.1 cell.2)).Nodup := by
    apply (LatticePoint.nodup_cells hcells.nodup_steps).map_on
    intro first hfirst second hsecond hequal
    exact LatticePoint.cells_inj hfirst hsecond (htold _ _ hequal)
  rw [List.perm_ext_iff_of_nodup hnodup hdifferent]
  intro key
  rw [hkeys, List.mem_map]
  constructor
  · rintro ⟨_, helement, corners, hcorners, rfl⟩
    obtain ⟨cell, hcell, rfl⟩ := mem_elements_lattice.mp helement
    obtain ⟨low, hlow, step, hstep, hhigh, hperm⟩ := hcells.exists_cell corners hcorners
    have hvertices := map_corner_latticeElement_perm hcells (sizes + shape.extent) cell hcorners
      hperm
    refine ⟨(cell + low, step), LatticePoint.mem_cells.mpr ⟨hstep, ?_⟩,
      (hsame _ _ hvertices).symm⟩
    rw [LatticePoint.add_assoc]
    exact within_corner hsplit hcell hhigh
  · rintro ⟨⟨point, step⟩, hmember, rfl⟩
    obtain ⟨hstep, hwithin⟩ := LatticePoint.mem_cells.mp hmember
    obtain ⟨cell, low, hcell, hlow, hhigh, rfl⟩ :=
      exists_cell_of_within hsplit hx hy hz hwithin (hcells.step_mem step hstep)
    obtain ⟨corners, hcorners, hperm⟩ := hcells.exists_piece low hlow step hstep hhigh
    exact ⟨_, mem_elements_lattice.mpr ⟨cell, hcell, rfl⟩, corners, hcorners,
      hsame _ _ (map_corner_latticeElement_perm hcells _ cell hcorners hperm)⟩

theorem shape_eq_of_mem_lattice :
    ∀ element ∈ (lattice shape sizes).elements, element.shape = shape := by
  intro element helement
  obtain ⟨cell, -, rfl⟩ := mem_elements_lattice.mp helement
  rfl

theorem length_edgeKeys_lattice (hsplit : shape.IsSplit) (hx : 0 < sizes.x) (hy : 0 < sizes.y)
    (hz : 0 < sizes.z) : (lattice shape sizes).edgeKeys.length =
      ((sizes + shape.extent).cells shape.edgeSteps).length := by
  have hperm := keys_perm_cells hsplit (CellShape.hasCells_edges hsplit) hx hy hz
    (fun _ _ => extremes_perm) (fun _ _ hequal => hequal) (nodup_edgeKeys _)
    fun _ => mem_edgeKeys_iff_extremes shape_eq_of_mem_lattice
  rw [hperm.length_eq, List.length_map]

theorem length_faceKeys_lattice (hsplit : shape.IsSplit) (hx : 0 < sizes.x) (hy : 0 < sizes.y)
    (hz : 0 < sizes.z) : (lattice shape sizes).faceKeys.length =
      ((sizes + shape.extent).cells shape.faceSteps).length := by
  have hkeys : ∀ key, key ∈ (lattice shape sizes).faceKeys ↔
      ∃ element ∈ (lattice shape sizes).elements, ∃ corners ∈ shape.faces,
        ascending (corners.map element.corner) = key := by
    intro key
    rw [mem_faceKeys]
    refine exists_congr fun element => and_congr_right fun helement => ?_
    rw [Element.faces, shape_eq_of_mem_lattice element helement]
    simp only [List.mem_map, exists_exists_and_eq_and]
  have hperm := keys_perm_cells hsplit (CellShape.hasCells_faces hsplit) hx hy hz
    (fun _ _ => ascending_eq_ascending_iff.mpr)
    (fun _ _ hequal => extremes_perm (ascending_eq_ascending_iff.mp hequal)) (nodup_faceKeys _)
    hkeys
  rw [hperm.length_eq, List.length_map]

end Counting

theorem elements_quadrilateralGrid (nx ny : Nat) :
    ((List.range ny).flatMap fun j => (List.range nx).map fun i => quadrilateralAt nx i j) =
      (lattice .quadrilateral ⟨nx, ny, 1⟩).elements := by
  have hone : List.range 1 = [0] := rfl
  simp [lattice, counted, LatticePoint.map_box, hone, latticeElement, quadrilateralAt, planarVertex,
    LatticePoint.number, CellShape.cornerPoints, CellShape.extent]

theorem elements_hexahedronGrid (nx ny nz : Nat) :
    ((List.range nz).flatMap fun k => (List.range ny).flatMap fun j =>
        (List.range nx).map fun i => hexahedronAt nx ny i j k) =
      (lattice .hexahedron ⟨nx, ny, nz⟩).elements := by
  rw [lattice, counted, LatticePoint.map_box]
  rfl

/-- A lattice of elements is a mesh if there is room for its vertices. -/
theorem ofElements_lattice_eq_ok_iff (hsplit : shape.IsSplit) {vertexCount : Nat}
    (hvolume : (sizes + shape.extent).volume = vertexCount) {mesh : ElementMesh} :
    ofElements shape.dimension vertexCount (lattice shape sizes).elements = .ok mesh ↔
      vertexCount * numberedRowBytes ≤ byteBound ∧ mesh = lattice shape sizes := by
  subst hvolume
  rw [ofElements_eq_ok_iff]
  refine and_iff_right fun element helement => ?_
  obtain ⟨cell, hcell, rfl⟩ := mem_elements_lattice.mp helement
  exact fits_latticeElement hsplit hcell

/-- There is room for the elements of a grid and for numbering the edges at its vertices. -/
def HasRoom (elementCount vertexCount : Nat) : Prop :=
  elementCount * elementBytes ≤ byteBound ∧ vertexCount * numberedRowBytes ≤ byteBound

instance (elementCount vertexCount : Nat) : Decidable (HasRoom elementCount vertexCount) :=
  inferInstanceAs (Decidable (_ ∧ _))

theorem HasRoom.lt_wordBound {elementCount vertexCount : Nat}
    (hroom : HasRoom elementCount vertexCount) :
    elementCount < wordBound ∧ vertexCount < wordBound := by
  simp only [HasRoom, elementBytes, numberedRowBytes, byteBound, wordBound] at *
  omega

/-- A grid of quadrilaterals is made exactly if there is room for it. -/
theorem quadrilateralGrid_eq_ok_iff {nx ny : Nat} {mesh : ElementMesh} :
    quadrilateralGrid nx ny = .ok mesh ↔
      HasRoom (nx * ny) ((nx + 1) * (ny + 1)) ∧
        mesh = lattice .quadrilateral ⟨nx, ny, 1⟩ := by
  have hvolume : ((⟨nx, ny, 1⟩ : LatticePoint) + CellShape.quadrilateral.extent).volume =
      (nx + 1) * (ny + 1) := Nat.mul_one _
  have hmade : _ ↔ _ ∧ mesh = _ := ofElements_lattice_eq_ok_iff (.inl rfl) hvolume
  rw [quadrilateralGrid, elements_quadrilateralGrid]
  simp only [verticesAlong, Result.bind_eq_ok_iff, mulWords_eq_ok_iff, addWords_eq_ok_iff,
    reserve_eq_ok_iff]
  constructor
  · rintro ⟨_, ⟨-, rfl⟩, -, helements, _, ⟨-, rfl⟩, _, ⟨-, rfl⟩, _, ⟨-, rfl⟩, hmesh⟩
    obtain ⟨hvertices, hmesh⟩ := hmade.mp hmesh
    exact ⟨⟨helements, hvertices⟩, hmesh⟩
  · rintro ⟨hroom, hmesh⟩
    obtain ⟨helements, hvertices⟩ := hroom.lt_wordBound
    have hx : nx + 1 ≤ (nx + 1) * (ny + 1) := Nat.le_mul_of_pos_right _ (Nat.succ_pos ny)
    have hy : ny + 1 ≤ (nx + 1) * (ny + 1) := Nat.le_mul_of_pos_left _ (Nat.succ_pos nx)
    exact ⟨_, ⟨helements, rfl⟩, (), hroom.1, _, ⟨by omega, rfl⟩, _, ⟨by omega, rfl⟩, _,
      ⟨hvertices, rfl⟩, hmade.mpr ⟨hroom.2, hmesh⟩⟩

/-- A grid of hexahedra is made exactly if there is room for it. -/
theorem hexahedronGrid_eq_ok_iff {nx ny nz : Nat} {mesh : ElementMesh} :
    hexahedronGrid nx ny nz = .ok mesh ↔
      HasRoom (nx * ny * nz) ((nx + 1) * (ny + 1) * (nz + 1)) ∧
        mesh = lattice .hexahedron ⟨nx, ny, nz⟩ := by
  have hvolume : ((⟨nx, ny, nz⟩ : LatticePoint) + CellShape.hexahedron.extent).volume =
      (nx + 1) * (ny + 1) * (nz + 1) := rfl
  have hmade : _ ↔ _ ∧ mesh = _ := ofElements_lattice_eq_ok_iff (.inr rfl) hvolume
  rw [hexahedronGrid, elements_hexahedronGrid]
  simp only [verticesAlong, Result.bind_eq_ok_iff, mulWords_eq_ok_iff, addWords_eq_ok_iff,
    reserve_eq_ok_iff]
  constructor
  · rintro ⟨_, ⟨-, rfl⟩, _, ⟨-, rfl⟩, -, helements, _, ⟨-, rfl⟩, _, ⟨-, rfl⟩, _, ⟨-, rfl⟩, _,
      ⟨-, rfl⟩, _, ⟨-, rfl⟩, hmesh⟩
    obtain ⟨hvertices, hmesh⟩ := hmade.mp hmesh
    exact ⟨⟨helements, hvertices⟩, hmesh⟩
  · rintro ⟨hroom, hmesh⟩
    obtain ⟨helements, hvertices⟩ := hroom.lt_wordBound
    have hx : nx + 1 ≤ (nx + 1) * (ny + 1) := Nat.le_mul_of_pos_right _ (Nat.succ_pos ny)
    have hy : ny + 1 ≤ (nx + 1) * (ny + 1) := Nat.le_mul_of_pos_left _ (Nat.succ_pos nx)
    have hlayer : (nx + 1) * (ny + 1) ≤ (nx + 1) * (ny + 1) * (nz + 1) :=
      Nat.le_mul_of_pos_right _ (Nat.succ_pos nz)
    have hz : nz + 1 ≤ (nx + 1) * (ny + 1) * (nz + 1) :=
      Nat.le_mul_of_pos_left _ (Nat.mul_pos (Nat.succ_pos nx) (Nat.succ_pos ny))
    have hcells : nx * ny ≤ (nx + 1) * (ny + 1) :=
      Nat.mul_le_mul (Nat.le_succ nx) (Nat.le_succ ny)
    exact ⟨_, ⟨by omega, rfl⟩, _, ⟨helements, rfl⟩, (), hroom.1, _, ⟨by omega, rfl⟩, _,
      ⟨by omega, rfl⟩, _, ⟨by omega, rfl⟩, _, ⟨by omega, rfl⟩, _, ⟨hvertices, rfl⟩,
      hmade.mpr ⟨hroom.2, hmesh⟩⟩

/-- The counts of a mesh of elements with distinct corners. -/
structure HasGridCounts (mesh : ElementMesh) (vertices edges faces elements : Nat) : Prop where
  vertexCount_eq : mesh.vertexCount = vertices
  edgeCount_eq : mesh.edgeCount = edges
  faceCount_eq : mesh.faceCount = faces
  elementCount_eq : mesh.elements.length = elements
  distinct : mesh.HasDistinctCorners

/-- The counts of a lattice are numbers of points and of cubes in boxes. -/
theorem hasGridCounts_lattice (hsplit : shape.IsSplit) (hx : 0 < sizes.x) (hy : 0 < sizes.y)
    (hz : 0 < sizes.z) :
    (lattice shape sizes).HasGridCounts (sizes + shape.extent).volume
      ((sizes + shape.extent).cells shape.edgeSteps).length
      ((sizes + shape.extent).cells shape.faceSteps).length sizes.volume where
  vertexCount_eq := rfl
  edgeCount_eq := length_edgeKeys_lattice hsplit hx hy hz
  faceCount_eq := length_faceKeys_lattice hsplit hx hy hz
  elementCount_eq := by
    rw [lattice, counted, List.length_map, LatticePoint.length_box]
  distinct := hasDistinctCorners_lattice hsplit

theorem hasGridCounts_quadrilaterals {nx ny : Nat} (hx : 1 ≤ nx) (hy : 1 ≤ ny) :
    (lattice .quadrilateral ⟨nx, ny, 1⟩).HasGridCounts ((nx + 1) * (ny + 1))
      (nx * (ny + 1) + ny * (nx + 1)) 0 (nx * ny) := by
  have hcounts : (lattice .quadrilateral ⟨nx, ny, 1⟩).HasGridCounts _ _ _ _ :=
    hasGridCounts_lattice (.inl rfl) hx hy Nat.one_pos
  simpa [LatticePoint.length_cells, LatticePoint.volume, CellShape.extent, CellShape.edgeSteps,
    CellShape.faceSteps, Nat.mul_comm ny] using hcounts

theorem hasGridCounts_hexahedra {nx ny nz : Nat} (hx : 1 ≤ nx) (hy : 1 ≤ ny) (hz : 1 ≤ nz) :
    (lattice .hexahedron ⟨nx, ny, nz⟩).HasGridCounts ((nx + 1) * (ny + 1) * (nz + 1))
      (nx * (ny + 1) * (nz + 1) + (nx + 1) * ny * (nz + 1) + (nx + 1) * (ny + 1) * nz)
      ((nx + 1) * ny * nz + nx * (ny + 1) * nz + nx * ny * (nz + 1)) (nx * ny * nz) := by
  have hcounts : (lattice .hexahedron ⟨nx, ny, nz⟩).HasGridCounts _ _ _ _ :=
    hasGridCounts_lattice (.inr rfl) hx hy hz
  simpa [LatticePoint.length_cells, LatticePoint.volume, CellShape.extent, CellShape.edgeSteps,
    CellShape.faceSteps, Nat.add_assoc] using hcounts

end ElementMesh

end MeshIncidence
