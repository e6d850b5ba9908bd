/-
# The positions of labels

Labels can be taken for a table that has one column in each row. Transposing this table lists the
positions of every label, and so does a build that counts and places the labels one at a time. Both
count and place in the same order, so they give the same table wherever one of them gives any, and
each is refused or runs out of room where the other does. Only the wording differs: what is a column
to the one is a label to the other.
-/

import MeshIncidence.Proofs.Table.Transposes

namespace MeshIncidence

namespace IncidenceTable

/-- One row for each label is a table made of rows. -/
theorem ofLabels_eq_ofRows (labels : List Nat) : ofLabels labels = ofRows (labels.map ([·])) := by
  have hsizes : (labels.map ([·])).map List.length = List.replicate labels.length 1 := by
    rw [List.map_map]
    exact List.map_const'
  rw [ofRows, hsizes, flatten_map_singleton, offsetsFrom_replicate, ofLabels]
  simp

/-- The rows that hold a label are its positions. -/
theorem holdersFrom_labels (label start : Nat) (labels : List Nat) :
    holdersFrom label start (labels.map ([·])) = labels.idxsOf label start := by
  induction labels generalizing start with
  | nil => rfl
  | cons first labels ih =>
      rw [List.map_cons, holdersFrom, ih, List.idxsOf_cons, List.count_singleton]
      split <;> rfl

/-- The packed table whose row for a label lists where the label stands, in increasing order. -/
structure IsPositionsOf (labels : List Nat) (rowCount : Nat) (table : IncidenceTable) : Prop where
  isPacked_eq : table.isPacked = true
  defect?_eq_none : table.defect? = none
  rowCount_eq : table.rowCount = rowCount
  exists_row : ∀ label < rowCount, ∃ positions, table.row label = .ok positions ∧
    positions.Pairwise (· < ·) ∧ ∀ position, position ∈ positions ↔ labels[position]? = some label

theorem isPositionsOf_transposedRows (labels : List Nat) (rowCount : Nat) :
    IsPositionsOf labels rowCount (ofRows (transposedRows rowCount (labels.map ([·])))) where
  isPacked_eq := rfl
  defect?_eq_none := defect?_ofRows _
  rowCount_eq := by simp
  exists_row label hlabel := by
    refine ⟨labels.idxsOf label, ?_, List.pairwise_idxsOf, fun position => ?_⟩
    · rw [← holdersFrom_labels]
      exact row_ofRows (getElem?_transposedRows hlabel _)
    · rw [List.mem_idxsOf_iff_exists_getElem_pos, List.getElem?_eq_some_iff]
      simp only [beq_iff_eq]

section Outcomes

variable {labels : List Nat} {labelCount : Option Nat}
  (hlabels : ∀ label ∈ labels, label + 1 < wordBound)

include hlabels

theorem transpose_ofLabels_eq (labelCount : Option Nat) : (ofLabels labels).transpose labelCount =
    if labelCount.getD (columnsNeeded labels) < columnsNeeded labels then
      refuse (.layout (.columnOutside (columnsNeeded labels - 1)
        (labelCount.getD (columnsNeeded labels))))
    else empty.resize (labelCount.getD (columnsNeeded labels)) labels.length >>= fun _ =>
      .ok (ofRows (transposedRows (labelCount.getD (columnsNeeded labels))
        (labels.map ([·])))) := by
  have hrows := rows_ofRows (labels.map ([·]))
  rw [← ofLabels_eq_ofRows] at hrows
  rw [transpose, transposeOnto_eq hrows, flatten_map_singleton,
    word_eq_ok (columnsNeeded_lt_wordBound hlabels), Result.ok_bind]

theorem positionsOf_eq_ite (labelCount : Option Nat) : positionsOf labels labelCount =
    if labelCount.getD (columnsNeeded labels) < columnsNeeded labels then
      refuse (.layout (.labelOutside (columnsNeeded labels - 1)
        (labelCount.getD (columnsNeeded labels))))
    else empty.build (labelCount.getD (columnsNeeded labels)) (onceEach labels)
      (labels.zipIdx.map fun (label, position) => .one label position) := by
  rw [positionsOf_eq, columnBound_eq_word, word_eq_ok (columnsNeeded_lt_wordBound hlabels),
    Result.ok_bind]

variable (hstored : labels.length * wordBytes ≤ byteBound)
  (hwide : columnsNeeded labels ≤ labelCount.getD (columnsNeeded labels))

include hstored hwide

/-- With room for the offsets both ways give the same rows. -/
theorem positionsOf_eq_ok
    (hroom : (labelCount.getD (columnsNeeded labels) + 1) * wordBytes ≤ byteBound) :
    positionsOf labels labelCount = .ok (ofRows (transposedRows
      (labelCount.getD (columnsNeeded labels)) (labels.map ([·])))) := by
  have hplaces := placesAsCounted_labels (columnsNeeded_le_iff.mp hwide)
  rw [positionsOf_eq_ite hlabels, if_neg (Nat.not_lt.mpr hwide),
    hplaces.build_eq_ok ⟨.inr hroom, by rwa [sum_snd_onceEach]⟩, ← map_ofConnection_labels]
  simp only [placedIn_connectionsFrom]
  rfl

theorem transpose_ofLabels_eq_ok
    (hroom : (labelCount.getD (columnsNeeded labels) + 1) * wordBytes ≤ byteBound) :
    (ofLabels labels).transpose labelCount = .ok (ofRows (transposedRows
      (labelCount.getD (columnsNeeded labels)) (labels.map ([·])))) := by
  rw [transpose_ofLabels_eq hlabels, if_neg (Nat.not_lt.mpr hwide),
    resize_eq_ok ((canResize_empty_iff hstored).mpr hroom), Result.ok_bind]

theorem positionsOf_runsOut
    (hfull : ¬ (labelCount.getD (columnsNeeded labels) + 1) * wordBytes ≤ byteBound) :
    (positionsOf labels labelCount).RunsOut := by
  have hplaces := placesAsCounted_labels (columnsNeeded_le_iff.mp hwide)
  rw [positionsOf_eq_ite hlabels, if_neg (Nat.not_lt.mpr hwide)]
  refine hplaces.build_runsOut fun hroom => hfull ?_
  exact (canResize_empty_iff hstored).mp ⟨hroom.1, .inr hstored⟩

theorem transpose_ofLabels_runsOut
    (hfull : ¬ (labelCount.getD (columnsNeeded labels) + 1) * wordBytes ≤ byteBound) :
    ((ofLabels labels).transpose labelCount).RunsOut := by
  rw [transpose_ofLabels_eq hlabels, if_neg (Nat.not_lt.mpr hwide)]
  exact (resize_runsOut (mt (canResize_empty_iff hstored).mp hfull)).bind _

end Outcomes

/-- Refusing where too few are asked for, and nowhere else, takes a given number. -/
theorem exists_refuse_layout_iff {needed : Nat} {asked : Option Nat} {defect : LayoutDefect}
    {outcome : Result IncidenceTable}
    (hnarrow : asked.getD needed < needed → outcome = refuse (.layout defect))
    (hwide : needed ≤ asked.getD needed → ∀ error, outcome ≠ refuse error) :
    (∃ other, outcome = refuse (.layout other)) ↔ ∃ given, asked = some given ∧ given < needed := by
  constructor
  · rintro ⟨other, hrefused⟩
    have hless := Nat.lt_of_not_le fun hle => hwide hle _ hrefused
    cases asked with
    | none => exact absurd hless (Nat.lt_irrefl needed)
    | some given => exact ⟨given, rfl, hless⟩
  · rintro ⟨given, rfl, hless⟩
    exact ⟨defect, hnarrow hless⟩

/-- How both ways to the positions of labels end. -/
structure ListsPositionsExactly (labels : List Nat) (labelCount : Option Nat) : Prop where
  /-- One gives a table where the other does, and it is the same table. -/
  ok_iff : ∀ table, positionsOf labels labelCount = .ok table ↔
    (ofLabels labels).transpose labelCount = .ok table
  positionsOf_refused_iff : (∃ defect, positionsOf labels labelCount = refuse (.layout defect)) ↔
    ∃ given, labelCount = some given ∧ given < columnsNeeded labels
  transpose_refused_iff :
    (∃ defect, (ofLabels labels).transpose labelCount = refuse (.layout defect)) ↔
      ∃ given, labelCount = some given ∧ given < columnsNeeded labels
  refuse_eq : ∀ given, labelCount = some given → given < columnsNeeded labels →
    positionsOf labels labelCount =
        refuse (.layout (.labelOutside (columnsNeeded labels - 1) given)) ∧
      (ofLabels labels).transpose labelCount =
        refuse (.layout (.columnOutside (columnsNeeded labels - 1) given))
  /-- Otherwise all they need is room for the offsets. -/
  exists_table : ∀ rowCount, labelCount.getD (columnsNeeded labels) = rowCount →
    columnsNeeded labels ≤ rowCount → (rowCount + 1) * wordBytes ≤ byteBound →
      ∃ table, positionsOf labels labelCount = .ok table ∧
        (ofLabels labels).transpose labelCount = .ok table ∧
        IsPositionsOf labels rowCount table
  runsOut : ∀ rowCount, labelCount.getD (columnsNeeded labels) = rowCount →
    columnsNeeded labels ≤ rowCount → ¬ (rowCount + 1) * wordBytes ≤ byteBound →
      (positionsOf labels labelCount).RunsOut ∧
        ((ofLabels labels).transpose labelCount).RunsOut

/-- **The positions of labels.** Counting and placing labels one at a time comes to what transposing
their table comes to. If there is room for the offsets, the row of each label lists where the label
stands, in increasing order. -/
theorem listsPositionsExactly {labels : List Nat}
    (hlabels : ∀ label ∈ labels, label + 1 < wordBound)
    (hstored : labels.length * wordBytes ≤ byteBound) (labelCount : Option Nat) :
    ListsPositionsExactly labels labelCount where
  ok_iff table := by
    by_cases hwide : columnsNeeded labels ≤ labelCount.getD (columnsNeeded labels)
    · by_cases hroom : (labelCount.getD (columnsNeeded labels) + 1) * wordBytes ≤ byteBound
      · rw [positionsOf_eq_ok hlabels hstored hwide hroom,
          transpose_ofLabels_eq_ok hlabels hstored hwide hroom]
      · exact iff_of_false ((positionsOf_runsOut hlabels hstored hwide hroom).ne_ok table)
          ((transpose_ofLabels_runsOut hlabels hstored hwide hroom).ne_ok table)
    · rw [positionsOf_eq_ite hlabels, transpose_ofLabels_eq hlabels,
        if_pos (Nat.lt_of_not_le hwide), if_pos (Nat.lt_of_not_le hwide)]
      exact iff_of_false nofun nofun
  positionsOf_refused_iff := exists_refuse_layout_iff
    (fun hnarrow => by rw [positionsOf_eq_ite hlabels, if_pos hnarrow])
    fun hwide error => by
      by_cases hroom : (labelCount.getD (columnsNeeded labels) + 1) * wordBytes ≤ byteBound
      · rw [positionsOf_eq_ok hlabels hstored hwide hroom]
        exact nofun
      · exact (positionsOf_runsOut hlabels hstored hwide hroom).ne_refuse error
  transpose_refused_iff := exists_refuse_layout_iff
    (fun hnarrow => by rw [transpose_ofLabels_eq hlabels, if_pos hnarrow])
    fun hwide error => by
      by_cases hroom : (labelCount.getD (columnsNeeded labels) + 1) * wordBytes ≤ byteBound
      · rw [transpose_ofLabels_eq_ok hlabels hstored hwide hroom]
        exact nofun
      · exact (transpose_ofLabels_runsOut hlabels hstored hwide hroom).ne_refuse error
  refuse_eq := by
    rintro given rfl hnarrow
    rw [positionsOf_eq_ite hlabels, transpose_ofLabels_eq hlabels]
    exact ⟨if_pos hnarrow, if_pos hnarrow⟩
  exists_table := by
    rintro rowCount rfl hwide hroom
    exact ⟨_, positionsOf_eq_ok hlabels hstored hwide hroom,
      transpose_ofLabels_eq_ok hlabels hstored hwide hroom, isPositionsOf_transposedRows labels _⟩
  runsOut := by
    rintro rowCount rfl hwide hfull
    exact ⟨positionsOf_runsOut hlabels hstored hwide hfull,
      transpose_ofLabels_runsOut hlabels hstored hwide hfull⟩

theorem listsPositionsExactly_four : (∀ label ∈ [1, 0, 1, 1], label + 1 < wordBound) ∧
    [1, 0, 1, 1].length * wordBytes ≤ byteBound ∧
    positionsOf [1, 0, 1, 1] (some 1) = refuse (.layout (.labelOutside 1 1)) ∧
    ∃ table, positionsOf [1, 0, 1, 1] (some 3) = .ok table ∧
      IsPositionsOf [1, 0, 1, 1] 3 table := by
  have hlabels : ∀ label ∈ [1, 0, 1, 1], label + 1 < wordBound := by decide
  have hstored : [1, 0, 1, 1].length * wordBytes ≤ byteBound := by decide
  obtain ⟨table, hok, -, htable⟩ :=
    (listsPositionsExactly hlabels hstored (some 3)).exists_table 3 rfl (by decide) (by decide)
  exact ⟨hlabels, hstored,
    ((listsPositionsExactly hlabels hstored (some 1)).refuse_eq 1 rfl (by decide)).1,
    table, hok, htable⟩

-- The label 2 stands nowhere.
example : positionsOf [1, 0, 1, 1] (some 3) = .ok ⟨#[0, 1, 4, 4], #[1, 0, 2, 3], none⟩ := by decide

/-- A row for each word that is not the last takes more offsets than any allocation holds, so there
is no table even for no label at all, and none is refused. -/
theorem positionsOf_all_labels :
    (∀ defect, positionsOf [] (some (wordBound - 1)) ≠ refuse (.layout defect)) ∧
    (¬ ∃ table, positionsOf [] (some (wordBound - 1)) = .ok table) ∧
    (∀ defect, (ofLabels []).transpose (some (wordBound - 1)) ≠ refuse (.layout defect)) ∧
    ¬ ∃ table, (ofLabels []).transpose (some (wordBound - 1)) = .ok table := by
  have hplacing : (positionsOf [] (some (wordBound - 1))).RunsOut := .inl (by decide)
  have htransposing : ((ofLabels []).transpose (some (wordBound - 1))).RunsOut := .inl (by decide)
  exact ⟨fun _ => hplacing.ne_refuse _, fun ⟨table, hok⟩ => hplacing.ne_ok table hok,
    fun _ => htransposing.ne_refuse _, fun ⟨table, hok⟩ => htransposing.ne_ok table hok⟩

end IncidenceTable

end MeshIncidence
