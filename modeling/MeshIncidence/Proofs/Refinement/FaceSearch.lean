/-
# Finding the quarters of a face

The children of an old face are looked for without knowing which middles belong to
which corner: all pairs of middles are tried. If the vertices of each element are
distinct, only the two middles next to the corner have a face with it and the center,
so the first pair that is found at all gives the quarter at the corner.
-/

import MeshIncidence.SetCatalog.Refinement
import MeshIncidence.Proofs.Refinement.Pieces

namespace MeshIncidence

/-- A search finds the value of a hit if all hits have that value. -/
theorem findSome?_eq_some_of_agree {α β : Type} {search : α → Option β} {members : List α}
    {value : β} (hhit : ∃ member ∈ members, search member = some value)
    (hagree : ∀ member ∈ members, ∀ other, search member = some other → other = value) :
    members.findSome? search = some value := by
  cases hfound : members.findSome? search with
  | none =>
      obtain ⟨member, hmember, hvalue⟩ := hhit
      rw [List.findSome?_eq_none_iff.mp hfound member hmember] at hvalue
      exact absurd hvalue (by simp)
  | some other =>
      obtain ⟨member, hmember, hother⟩ := List.exists_of_findSome?_eq_some hfound
      rw [hagree member hmember other hother]

theorem around_eq_getD {row : List Nat} {position : Nat} (hposition : position < 4) :
    row.getD position 0 = around row position := by
  rw [around, Nat.mod_eq_of_lt hposition]

namespace SetCatalog

/-- Each pair tried has two different places around. -/
theorem exists_of_mem_middlePairs {middles : List Nat} (hlength : middles.length = 4)
    {pair : Nat × Nat} (hpair : pair ∈ middlePairs middles) :
    ∃ first second, first < 4 ∧ second < 4 ∧ first ≠ second ∧
      pair = (around middles first, around middles second) := by
  simp only [middlePairs, hlength, List.mem_flatMap, List.mem_range, List.mem_map,
    List.mem_range'_1] at hpair
  obtain ⟨first, hfirst, step, hstep, rfl⟩ := hpair
  refine ⟨first, (first + step) % 4, hfirst, by omega, by omega, ?_⟩
  rw [around_eq_getD hfirst, around_eq_getD (by omega)]

/-- Among the pairs tried are the middles after and before each corner. -/
theorem mem_middlePairs {middles : List Nat} (hlength : middles.length = 4) {position : Nat}
    (hposition : position < 4) :
    (around middles position, around middles (position + 3)) ∈ middlePairs middles := by
  simp only [middlePairs, hlength, List.mem_flatMap, List.mem_range, List.mem_map,
    List.mem_range'_1]
  refine ⟨position, hposition, 3, by omega, ?_⟩
  rw [around_eq_getD hposition, around_eq_getD (by omega), around_mod]

end SetCatalog

namespace ElementMesh

variable {mesh : ElementMesh}

/-- The middles of the sides of a face, in sequence. -/
def middles (mesh : ElementMesh) (row : List Nat) : List Nat :=
  (sides row).map fun side => mesh.middleVertex (mesh.edgeNumber side.1 side.2)

/-- The middle after a corner is that of the side from the corner to the next. -/
theorem around_middles {row : List Nat} (hlength : row.length = 4) (position : Nat) :
    around (mesh.middles row) position =
      mesh.middleVertex (mesh.edgeNumber (around row position) (around row (position + 1))) := by
  rw [around, middles, List.getD_eq_getElem?_getD, List.getElem?_map, getElem?_sides hlength,
    Option.map_some, Option.getD_some]

/-- A quarter by the middles of the sides. -/
theorem quarter_eq {row : List Nat} (hlength : row.length = 4) (face position : Nat) :
    mesh.quarter row face position =
      [around row position, around (mesh.middles row) position,
        around (mesh.middles row) (position + 3), mesh.faceVertex face] := by
  rw [quarter, around_middles hlength, around_middles hlength, around_before_succ]

theorem length_of_getElem?_faceRows (huniform : mesh.IsUniform .hexahedron) {face : Nat}
    {row : List Nat} (hrow : mesh.faceRows[face]? = some row) : row.length = 4 := by
  obtain ⟨element, index, place, corners, -, hplace, rfl, -⟩ :=
    exists_of_getElem?_faceRows huniform hrow
  rw [List.length_map]
  exact CellShape.length_of_mem_hexahedron_faces corners (List.mem_of_getElem? hplace)

/-- A mesh with a face has a row of four corners for it. -/
theorem exists_faceRow {shape : CellShape} (huniform : mesh.IsUniform shape) {face : Nat}
    (hface : face < mesh.faceKeys.length) :
    shape = .hexahedron ∧ ∃ row, mesh.faceRows[face]? = some row ∧ row.length = 4 := by
  rcases huniform.splits with rfl | rfl
  · rw [faceKeys_eq_nil huniform] at hface
    exact absurd hface (by simp)
  · rw [← length_faceRows] at hface
    have hrow := List.getElem?_eq_getElem hface
    exact ⟨rfl, _, hrow, length_of_getElem?_faceRows huniform hrow⟩

/-- Around a face, each vertex and the next are joined by an edge. -/
theorem getElem?_edgeNumber_around (huniform : mesh.IsUniform .hexahedron) {face : Nat}
    {row : List Nat} (hrow : mesh.faceRows[face]? = some row) (position : Nat) :
    mesh.edgeKeys[mesh.edgeNumber (around row position) (around row (position + 1))]? =
      some (PairNumbering.key (around row position) (around row (position + 1))) :=
  getElem?_edgeNumber (side_mem_edgeKeys (List.mem_of_getElem? hrow) (List.mem_of_getElem?
    (getElem?_sides (length_of_getElem?_faceRows huniform hrow) position)))

theorem find?_around (huniform : mesh.IsUniform .hexahedron) {numbering : PairNumbering}
    (hlists : numbering.Lists mesh.edgeKeys) {face : Nat} {row : List Nat}
    (hrow : mesh.faceRows[face]? = some row) (position : Nat) :
    numbering.find? (around row position) (around row (position + 1)) =
      some (mesh.edgeNumber (around row position) (around row (position + 1))) :=
  hlists.find?_eq_some_iff.mpr (getElem?_edgeNumber_around huniform hrow position)

theorem find?_around_before (huniform : mesh.IsUniform .hexahedron) {numbering : PairNumbering}
    (hlists : numbering.Lists mesh.edgeKeys) {face : Nat} {row : List Nat}
    (hrow : mesh.faceRows[face]? = some row) (position : Nat) :
    numbering.find? (around row position) (around row (position + 3)) =
      some (mesh.edgeNumber (around row (position + 3)) (around row position)) := by
  have hbefore := find?_around huniform hlists hrow (position + 3)
  rw [around_before_succ] at hbefore
  rw [PairNumbering.find?_comm, hbefore]

/-- In a mesh with distinct corners the vertices of a face are distinct. -/
theorem nodup_of_getElem?_faceRows (hsound : mesh.Sound) (huniform : mesh.IsUniform .hexahedron)
    (hdistinct : mesh.HasDistinctCorners) {face : Nat} {row : List Nat}
    (hrow : mesh.faceRows[face]? = some row) : row.Nodup := by
  obtain ⟨element, index, place, corners, hindex, hplace, rfl, -⟩ :=
    exists_of_getElem?_faceRows huniform hrow
  have hmember := List.mem_of_getElem? hindex
  have hcorners := List.mem_of_getElem? hplace
  have hlength := (hsound.fits element hmember).length_eq
  rw [huniform.shape_eq element hmember] at hlength
  have hlt : ∀ position ∈ corners, position < element.vertices.length := by
    rw [hlength]
    exact (CellShape.hexahedron.lt_cornerCount_of_mem_faces corners hcorners).2
  apply (CellShape.hexahedron.nodup_of_mem_faces corners hcorners).map_on
  intro first hfirst second hsecond hequal
  exact Element.corner_inj (hdistinct element hmember) (hlt first hfirst) (hlt second hsecond) hequal

theorem around_inj {row : List Nat} (hlength : row.length = 4) (hnodup : row.Nodup)
    {first second : Nat} (hequal : around row first = around row second) :
    first % 4 = second % 4 := by
  have hfirst : first % 4 < row.length := by omega
  have hsecond : second % 4 < row.length := by omega
  refine (List.getElem?_inj hfirst hnodup).mp ?_
  rw [around, around, List.getD_eq_getElem?_getD, List.getD_eq_getElem?_getD,
    List.getElem?_eq_getElem hfirst, List.getElem?_eq_getElem hsecond, Option.getD_some,
    Option.getD_some] at hequal
  rw [List.getElem?_eq_getElem hfirst, List.getElem?_eq_getElem hsecond, hequal]

theorem mem_around {row : List Nat} (hlength : row.length = 4) (position : Nat) :
    around row position ∈ row := by
  have hlt : position % 4 < row.length := by omega
  rw [around, List.getD_eq_getElem?_getD, List.getElem?_eq_getElem hlt, Option.getD_some]
  exact List.getElem_mem hlt

/-- All vertices on a face come before the centers of elements. -/
theorem lt_centerVertex_of_mem_face (hsound : mesh.Sound) (huniform : mesh.IsUniform .hexahedron)
    {face : Nat} {row : List Nat} (hrow : mesh.faceRows[face]? = some row)
    (position first second : Nat) :
    ∀ vertex ∈ [around row position, around (mesh.middles row) first,
      around (mesh.middles row) second, mesh.faceVertex face], vertex < mesh.centerVertex 0 := by
  have hlength := length_of_getElem?_faceRows huniform hrow
  have hcorner := hsound.faceRows_lt hrow _ (mem_around hlength position)
  have hmiddle (place : Nat) : around (mesh.middles row) place < mesh.vertexCount +
      mesh.edgeKeys.length := by
    rw [around_middles hlength, middleVertex]
    have hlt := (List.getElem?_eq_some_iff.mp (getElem?_edgeNumber_around huniform hrow place)).1
    omega
  have hfirst := hmiddle first
  have hsecond := hmiddle second
  have hface := (List.getElem?_eq_some_iff.mp (getElem?_faceKeys hrow)).1
  simp only [List.mem_cons, List.not_mem_nil, or_false, faceVertex, centerVertex]
  rintro vertex (rfl | rfl | rfl | rfl) <;> omega

/-- Finding a face of the mesh through a corner, two middles of sides and the center
needs the middles next to the corner. -/
theorem middles_next_of_mem_faceKeys (hsound : mesh.Sound) (huniform : mesh.IsUniform .hexahedron)
    (hdistinct : mesh.HasDistinctCorners) {face : Nat} {row : List Nat}
    (hrow : mesh.faceRows[face]? = some row) {position first second : Nat}
    (hposition : position < 4) (hfirst : first < 4) (hsecond : second < 4) (hne : first ≠ second)
    (hknown : ascending [around row position, around (mesh.middles row) first,
      around (mesh.middles row) second, mesh.faceVertex face] ∈
        (mesh.refinement .hexahedron).faceKeys) :
    first = position ∧ second = (position + 3) % 4 ∨
      second = position ∧ first = (position + 3) % 4 := by
  have hlength := length_of_getElem?_faceRows huniform hrow
  have hnodup := nodup_of_getElem?_faceRows hsound huniform hdistinct hrow
  have hold := hsound.faceRows_lt hrow _ (mem_around hlength position)
  have hbelow := lt_centerVertex_of_mem_face hsound huniform hrow position first second
  -- The corner is an end of the side of each middle, so the side is next to it.
  have hnext : ∀ place, place < 4 → around (mesh.middles row) place ∈ [around row position,
      around (mesh.middles row) first, around (mesh.middles row) second, mesh.faceVertex face] →
        place = position ∨ place = (position + 3) % 4 := by
    intro place hplace hmember
    rw [around_middles hlength place] at hmember
    have hend := end_of_mem_faceKeys hsound huniform hknown hbelow (by simp) hold hmember
      (getElem?_edgeNumber_around huniform hrow place)
    have hsame : around row position = around row place ∨
        around row position = around row (place + 1) := by
      simp only [PairNumbering.key] at hend
      omega
    rcases hsame with hsame | hsame
    · have hplaces := around_inj hlength hnodup hsame
      omega
    · have hplaces := around_inj hlength hnodup hsame
      omega
  have hfirstNext := hnext first hfirst (by simp)
  have hsecondNext := hnext second hsecond (by simp)
  omega

/-- Any pair of middles for which a face is found gives the quarter at the corner. -/
theorem ascending_eq_quarter_of_mem_faceKeys (hsound : mesh.Sound)
    (huniform : mesh.IsUniform .hexahedron) (hdistinct : mesh.HasDistinctCorners) {face : Nat}
    {row : List Nat} (hrow : mesh.faceRows[face]? = some row) {position first second : Nat}
    (hposition : position < 4) (hfirst : first < 4) (hsecond : second < 4) (hne : first ≠ second)
    (hknown : ascending [around row position, around (mesh.middles row) first,
      around (mesh.middles row) second, mesh.faceVertex face] ∈
        (mesh.refinement .hexahedron).faceKeys) :
    ascending [around row position, around (mesh.middles row) first,
      around (mesh.middles row) second, mesh.faceVertex face] =
        ascending (mesh.quarter row face position) := by
  rw [quarter_eq (length_of_getElem?_faceRows huniform hrow)]
  rcases middles_next_of_mem_faceKeys hsound huniform hdistinct hrow hposition hfirst hsecond hne
    hknown with ⟨rfl, rfl⟩ | ⟨rfl, rfl⟩
  · rw [around_mod]
  · rw [around_mod, ascending_eq_ascending_iff]
    exact (List.Perm.swap _ _ _).cons _

/-- The search finds the quarter at the corner. -/
theorem faceChild_eq (hsound : mesh.Sound) (huniform : mesh.IsUniform .hexahedron)
    (hdistinct : mesh.HasDistinctCorners) {face : Nat} {row : List Nat}
    (hrow : mesh.faceRows[face]? = some row) {position : Nat} (hposition : position < 4) :
    SetCatalog.faceChild ⟨(mesh.refinement .hexahedron).faceKeys⟩ (mesh.middles row)
        (mesh.faceVertex face) (around row position) =
      .ok ((mesh.refinement .hexahedron).faceNumber (mesh.quarter row face position)) := by
  have hlength := length_of_getElem?_faceRows huniform hrow
  have hmiddles : (mesh.middles row).length = 4 := by
    rw [middles, List.length_map, length_sides, hlength]
  have hquarter := quarter_mem_faceKeys huniform hrow hposition
  have hsearch : (SetCatalog.middlePairs (mesh.middles row)).findSome? (fun pair =>
      FaceNumbering.find? ⟨(mesh.refinement .hexahedron).faceKeys⟩
        [around row position, pair.1, pair.2, mesh.faceVertex face]) =
      some ((mesh.refinement .hexahedron).faceNumber (mesh.quarter row face position)) := by
    apply findSome?_eq_some_of_agree
    · refine ⟨_, SetCatalog.mem_middlePairs hmiddles hposition, ?_⟩
      rw [← quarter_eq hlength]
      exact find?_faceNumber (.inr rfl) hquarter
    · intro pair hpair other hother
      obtain ⟨first, second, hfirst, hsecond, hne, rfl⟩ :=
        SetCatalog.exists_of_mem_middlePairs hmiddles hpair
      rw [find?_face_eq_some_iff (.inr rfl)] at hother
      have hlt := (List.getElem?_eq_some_iff.mp hother).1
      apply (List.getElem?_inj hlt (nodup_faceKeys _)).mp
      rw [hother, getElem?_faceNumber hquarter]
      congr 1
      exact ascending_eq_quarter_of_mem_faceKeys hsound huniform hdistinct hrow hposition hfirst
        hsecond hne (List.mem_of_getElem? hother)
  rw [SetCatalog.faceChild]
  simp only [hsearch]

end ElementMesh

end MeshIncidence
