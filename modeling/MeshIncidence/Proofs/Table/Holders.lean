/-
# The holders of a column

Row `c` of a transposed table lists the rows that hold the column `c`, each as often as it holds
it. Two things determine such a list. It does not decrease, and a row stands in it as often as the
row holds the column. So the rows of a transposed table need not be compared one entry at a time,
and transposing them again can only put every row in increasing order.
-/

import MeshIncidence.Proofs.Numbering.Faces
import MeshIncidence.Proofs.Table.Stored

namespace MeshIncidence

/-- Numbers that do not decrease are known by how often each of them occurs. -/
theorem eq_of_pairwise_le_of_count {first second : List Nat} (hfirst : first.Pairwise (· ≤ ·))
    (hsecond : second.Pairwise (· ≤ ·)) (hcount : ∀ entry, first.count entry = second.count entry) :
    first = second :=
  (List.perm_iff_count.mpr hcount).eq_of_pairwise' hfirst hsecond

theorem pairwise_ascending (numbers : List Nat) : (ascending numbers).Pairwise (· ≤ ·) := by
  rw [ascending_eq_insertionSort]
  exact List.pairwise_insertionSort _ _

/-- Lists with the same numbers, none of them twice, differ in their order only. -/
theorem ascending_eq_of_mem_iff {first second : List Nat} (hfirst : first.Nodup)
    (hsecond : second.Nodup) (hordered : second.Pairwise (· ≤ ·))
    (hmem : ∀ entry, entry ∈ first ↔ entry ∈ second) : ascending first = second :=
  ((ascending_perm first).trans ((List.perm_ext_iff_of_nodup hfirst hsecond).mpr hmem)).eq_of_pairwise'
    (pairwise_ascending first) hordered

namespace IncidenceTable

/-- The rows that hold a column, each as often as it holds it. The first row has number `row`. -/
def holdersFrom (column row : Nat) : List (List Nat) → List Nat
  | [] => []
  | entries :: rows =>
    List.replicate (entries.count column) row ++ holdersFrom column (row + 1) rows

-- The first and the last row hold the column, the last one twice.
example : holdersFrom 7 0 [[7, 4], [], [7, 5, 7]] = [0, 2, 2] := by decide

theorem le_of_mem_holdersFrom {column start row : Nat} {rows : List (List Nat)}
    (hholder : row ∈ holdersFrom column start rows) : start ≤ row := by
  induction rows generalizing start with
  | nil => simp [holdersFrom] at hholder
  | cons entries rows ih =>
      obtain hfirst | hlater := List.mem_append.mp hholder
      · exact Nat.le_of_eq (List.eq_of_mem_replicate hfirst).symm
      · exact Nat.le_of_succ_le (ih hlater)

theorem pairwise_holdersFrom (column start : Nat) (rows : List (List Nat)) :
    (holdersFrom column start rows).Pairwise (· ≤ ·) := by
  induction rows generalizing start with
  | nil => exact List.Pairwise.nil
  | cons entries rows ih =>
      refine List.pairwise_append.mpr ⟨List.pairwise_replicate_of_refl, ih (start + 1), ?_⟩
      intro first hfirst later hlater
      rw [List.eq_of_mem_replicate hfirst]
      exact Nat.le_of_succ_le (le_of_mem_holdersFrom hlater)

/-- A row stands among the holders of a column as often as it holds the column. -/
theorem count_holdersFrom (column start row : Nat) (rows : List (List Nat)) :
    (holdersFrom column start rows).count (start + row) = (rows.getD row []).count column := by
  induction rows generalizing start row with
  | nil => rfl
  | cons entries rows ih =>
      rw [holdersFrom, List.count_append, List.count_replicate]
      cases row with
      | zero =>
          have hlater : start ∉ holdersFrom column (start + 1) rows := fun hmember =>
            absurd (le_of_mem_holdersFrom hmember) (Nat.not_succ_le_self start)
          simp [List.count_eq_zero_of_not_mem hlater]
      | succ row =>
          have hrest := ih (start + 1) row
          rw [Nat.add_right_comm, Nat.add_assoc] at hrest
          rw [hrest, if_neg (by simp)]
          simp

theorem count_holdersFrom_zero (column row : Nat) (rows : List (List Nat)) :
    (holdersFrom column 0 rows).count row = (rows.getD row []).count column := by
  rw [← count_holdersFrom column 0 row rows, Nat.zero_add]

/-- The rows of the transposed table, if there are to be `columnCount` of them. -/
def transposedRows (columnCount : Nat) (rows : List (List Nat)) : List (List Nat) :=
  (List.range columnCount).map (holdersFrom · 0 rows)

@[simp]
theorem length_transposedRows (columnCount : Nat) (rows : List (List Nat)) :
    (transposedRows columnCount rows).length = columnCount := by
  simp [transposedRows]

theorem getElem?_transposedRows {columnCount column : Nat} (hcolumn : column < columnCount)
    (rows : List (List Nat)) :
    (transposedRows columnCount rows)[column]? = some (holdersFrom column 0 rows) := by
  simp [transposedRows, hcolumn]

theorem count_getD_transposedRows {columnCount : Nat} {rows : List (List Nat)}
    (hcolumns : ∀ column ∈ rows.flatten, column < columnCount) (column row : Nat) :
    ((transposedRows columnCount rows).getD column []).count row =
      (rows.getD row []).count column := by
  rw [List.getD_eq_getElem?_getD]
  obtain hlt | hle := Nat.lt_or_ge column columnCount
  · rw [getElem?_transposedRows hlt, Option.getD_some, count_holdersFrom_zero]
  · -- No row holds a column that the transposed table has no row for.
    have hmissing : column ∉ rows.getD row [] := fun hmember =>
      absurd (hcolumns column (mem_flatten_of_mem_getD hmember)) (Nat.not_lt.mpr hle)
    rw [List.getElem?_eq_none (by simpa using hle), List.count_eq_zero_of_not_mem hmissing]
    rfl

theorem mem_getD_transposedRows {columnCount : Nat} {rows : List (List Nat)}
    (hcolumns : ∀ column ∈ rows.flatten, column < columnCount) {column row : Nat} :
    row ∈ (transposedRows columnCount rows).getD column [] ↔ column ∈ rows.getD row [] := by
  rw [← List.count_pos_iff, count_getD_transposedRows hcolumns, List.count_pos_iff]

theorem pairwise_getD_transposedRows (columnCount : Nat) (rows : List (List Nat)) (column : Nat) :
    ((transposedRows columnCount rows).getD column []).Pairwise (· ≤ ·) := by
  rw [List.getD_eq_getElem?_getD]
  obtain hlt | hle := Nat.lt_or_ge column columnCount
  · rw [getElem?_transposedRows hlt]
    exact pairwise_holdersFrom column 0 rows
  · rw [List.getElem?_eq_none (by simpa using hle)]
    exact List.Pairwise.nil

/-- The entries of a transposed table are numbers of rows. -/
theorem forall_lt_of_mem_transposedRows (columnCount : Nat) (rows : List (List Nat)) :
    ∀ row ∈ (transposedRows columnCount rows).flatten, row < rows.length := by
  intro row hrow
  obtain ⟨holders, hholders, hrow⟩ := List.mem_flatten.mp hrow
  obtain ⟨column, -, rfl⟩ := List.mem_map.mp hholders
  have hpositive := List.count_pos_iff.mpr hrow
  by_contra houtside
  rw [count_holdersFrom_zero, List.getD_eq_getElem?_getD,
    List.getElem?_eq_none (Nat.le_of_not_lt houtside)] at hpositive
  simp at hpositive

theorem columnsNeeded_transposedRows_le (columnCount : Nat) (rows : List (List Nat)) :
    columnsNeeded (transposedRows columnCount rows).flatten ≤ rows.length :=
  columnsNeeded_le_iff.mpr (forall_lt_of_mem_transposedRows columnCount rows)

/-- Transposing twice puts each row in increasing order. -/
theorem transposedRows_transposedRows {columnCount : Nat} {rows : List (List Nat)}
    (hcolumns : ∀ column ∈ rows.flatten, column < columnCount) :
    transposedRows rows.length (transposedRows columnCount rows) = rows.map ascending := by
  refine List.ext_getElem (by simp) fun row hrow hlt => ?_
  rw [length_transposedRows] at hrow
  have hat := getElem?_transposedRows hrow (transposedRows columnCount rows)
  rw [List.getElem?_eq_getElem (by simpa using hrow), Option.some.injEq] at hat
  rw [hat, List.getElem_map]
  refine eq_of_pairwise_le_of_count (pairwise_holdersFrom row 0 _) (pairwise_ascending _) ?_
  intro column
  rw [count_holdersFrom_zero, count_getD_transposedRows hcolumns, (ascending_perm _).count_eq,
    List.getD_eq_getElem?_getD, List.getElem?_eq_getElem hrow, Option.getD_some]

end IncidenceTable

end MeshIncidence
