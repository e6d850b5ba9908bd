/-
# Transposed tables

Counting and scattering are the two passes of a build, without its checks: what is counted for a
column is what is placed for it, so the cursors keep to their rows, and every slot of the table
written over is written. `IncidenceTable.transposeOnto_eq` therefore gives the outcome in terms of
the rows and of nothing else the target held.

A transposed table needs an offset more than it has rows, and this is where it may fail: a column
that is a valid entry may ask for more offsets than any allocation can hold.
-/

import MeshIncidence.Proofs.Table.Builds
import MeshIncidence.Proofs.Table.Holders

namespace MeshIncidence

namespace IncidenceTable

section Passes

variable {table target : IncidenceTable} {rows : List (List Nat)}

/-- The second entries of the connections are the columns of the rows. -/
theorem map_snd_connectionsFrom (row : Nat) (rows : List (List Nat)) :
    (connectionsFrom row rows).map Prod.snd = rows.flatten := by
  induction rows generalizing row with
  | nil => rfl
  | cons entries rows ih => simp [connectionsFrom, ih, Function.comp_def]

/-- An amount of one for each column, as often as it is listed. -/
def onceEach (columns : List Nat) : List (Nat × Nat) := columns.map (·, 1)

theorem forall_mem_onceEach {columns : List Nat} {bound : Nat} :
    (∀ entry ∈ onceEach columns, entry.1 < bound) ↔ ∀ column ∈ columns, column < bound := by
  rw [onceEach, List.forall_mem_map]

theorem sum_snd_onceEach (columns : List Nat) :
    ((onceEach columns).map Prod.snd).sum = columns.length := by
  rw [onceEach, List.map_map, Function.comp_def, List.map_const', List.sum_replicate_nat,
    Nat.mul_one]

theorem amountFor_onceEach_succ (columns : List Nat) (column : Nat) :
    amountFor (column + 1) (onceEach (columns.map (· + 1))) =
      amountFor column (onceEach columns) := by
  induction columns with
  | nil => rfl
  | cons first columns ih =>
      rw [onceEach, onceEach] at ih
      simp only [onceEach, List.map_cons, amountFor, ih, Nat.add_right_cancel_iff]

/-- Counting one place to the right leaves the first count at zero. -/
theorem exists_countColumns {columnCount : Nat} {columns : List Nat}
    (hcolumns : ∀ column ∈ columns, column < columnCount) :
    ∃ counts, countColumns (Array.replicate (columnCount + 1) 0) columns = .ok counts ∧
      counts.toList = 0 :: countedSizes columnCount (onceEach columns) := by
  -- Each count is short of its total by the columns that are still to come.
  have hcounts : ∃ counts, countColumns (Array.replicate (columnCount + 1) 0) columns = .ok counts ∧
      counts.size = columnCount + 1 ∧ (∀ column ∈ ([] : List Nat), column < columnCount) ∧
        IsShort (amountFor · (onceEach (columns.map (· + 1)))) [] counts := by
    unfold countColumns
    refine Result.exists_foldlM (fun pending counts => counts.size = columnCount + 1 ∧
      (∀ column ∈ pending, column < columnCount) ∧ IsShort
        (amountFor · (onceEach (columns.map (· + 1)))) (onceEach (pending.map (· + 1))) counts)
      ⟨Array.size_replicate, hcolumns, IsShort.replicate _ _⟩ ?_
    rintro column pending counts ⟨hsize, hlt, hshort⟩
    have hcolumn : column + 1 < counts.size := by
      have hbound := hlt column (by simp)
      omega
    have hentry : counts[column + 1]? = some counts[column + 1] :=
      Array.getElem?_eq_getElem hcolumn
    refine ⟨counts.setIfInBounds (column + 1) (counts[column + 1] + 1), ?_, ?_,
      fun later hlater => hlt later (List.mem_cons_of_mem _ hlater), hshort.add hentry⟩
    · rw [entryAt_eq_ok_iff.mpr hentry, Result.ok_bind, replaceAt, if_pos hcolumn]
    · rw [Array.size_setIfInBounds, hsize]
  obtain ⟨counts, hcounted, hsize, -, hshort⟩ := hcounts
  refine ⟨counts, hcounted, ?_⟩
  rw [hshort.toList_eq, hsize, List.range_succ_eq_map, List.map_cons, List.map_map]
  have hfirst : amountFor 0 (onceEach (columns.map (· + 1))) = 0 :=
    amountFor_eq_zero (by simp [onceEach])
  rw [hfirst, countedSizes]
  simp only [Function.comp_def, Nat.succ_eq_add_one, amountFor_onceEach_succ]

/-- The row of a connection is placed among the holders of its column. -/
def Placement.ofConnection : Nat × Nat → Placement
  | (row, column) => .one column row

theorem map_entry_ofConnection (connections : List (Nat × Nat)) :
    (connections.map Placement.ofConnection).map Placement.entry =
      onceEach (connections.map Prod.snd) := by
  rw [onceEach, List.map_map, List.map_map]
  rfl

/-- What is placed for a column are its holders. -/
theorem placedIn_connectionsFrom (column row : Nat) (rows : List (List Nat)) :
    placedIn column ((connectionsFrom row rows).map Placement.ofConnection) =
      holdersFrom column row rows := by
  induction rows generalizing row with
  | nil => rfl
  | cons entries rows ih =>
      have hown : placedIn column ((entries.map (row, ·)).map Placement.ofConnection) =
          List.replicate (entries.count column) row := by
        clear ih
        induction entries with
        | nil => rfl
        | cons entry entries ih =>
            rw [List.map_cons, List.map_cons, placedIn, ih, List.count_cons]
            by_cases hsame : entry = column
            · simp [hsame, Placement.ofConnection, Placement.entry, Placement.columns,
                List.replicate_succ]
            · simp [hsame, Placement.ofConnection, Placement.entry]
      rw [connectionsFrom, List.map_append, placedIn_append, hown, ih, holdersFrom]

theorem placesAsCounted_connections {columnCount : Nat}
    (hcolumns : ∀ column ∈ rows.flatten, column < columnCount) :
    PlacesAsCounted columnCount (onceEach rows.flatten)
      ((connectionsFrom 0 rows).map Placement.ofConnection) := by
  have hentries := map_entry_ofConnection (connectionsFrom 0 rows)
  rw [map_snd_connectionsFrom] at hentries
  have hlt := forall_mem_onceEach.mpr hcolumns
  refine ⟨hlt, fun placement hplacement => ?_, fun row _ => by rw [hentries]⟩
  have hentry := List.mem_map_of_mem (f := Placement.entry) hplacement
  rw [hentries] at hentry
  exact hlt _ hentry

theorem sum_countedSizes_onceEach {columnCount : Nat} {columns : List Nat}
    (hcolumns : ∀ column ∈ columns, column < columnCount) :
    (countedSizes columnCount (onceEach columns)).sum = columns.length := by
  rw [countedSizes, sum_amountFor (forall_mem_onceEach.mpr hcolumns), sum_snd_onceEach]

/-- Transposing neither loses nor adds an entry. -/
theorem length_flatten_transposedRows {columnCount : Nat}
    (hcolumns : ∀ column ∈ rows.flatten, column < columnCount) :
    (transposedRows columnCount rows).flatten.length = rows.flatten.length := by
  have hsizes := (placesAsCounted_connections hcolumns).countedSizes_eq
  simp only [placedIn_connectionsFrom] at hsizes
  rw [List.length_flatten, transposedRows, ← hsizes, sum_countedSizes_onceEach hcolumns]

/-- Scattering a connection is placing it. -/
theorem scatter_cons {row column : Nat} {after : IncidenceTable}
    (hplaced : table.place column row = .ok after) (connections : List (Nat × Nat)) :
    scatter table.offsets table.columns ((row, column) :: connections) =
      scatter after.offsets after.columns connections := by
  obtain ⟨cursor, hcursor, hrest⟩ := Result.bind_eq_ok_iff.mp hplaced
  split at hrest
  · obtain ⟨columns, hcolumns, hafter⟩ := Result.bind_eq_ok_iff.mp hrest
    obtain rfl := Except.ok.inj hafter
    rw [scatter, List.foldlM_cons]
    simp only [hcursor, hcolumns, Result.ok_bind]
    rfl
  · cases hrest

/-- Scattering is a second pass: no cursor leaves its row. -/
theorem Filling.exists_scatter {sizes : List Nat} {early : List Placement}
    {connections : List (Nat × Nat)}
    (hfilling : Filling sizes early (connections.map Placement.ofConnection) table) :
    ∃ placed, scatter table.offsets table.columns connections =
        .ok (placed.offsets, placed.columns) ∧
      Filling sizes (early ++ connections.map Placement.ofConnection) [] placed := by
  induction connections generalizing table early with
  | nil => exact ⟨table, rfl, by rwa [List.map_nil, List.append_nil]⟩
  | cons connection connections ih =>
      obtain ⟨row, column⟩ := connection
      obtain ⟨after, happly, hafter⟩ := hfilling.exists_apply
      obtain ⟨placed, hplaced, hfinished⟩ := ih hafter
      refine ⟨placed, ?_, ?_⟩
      · rw [scatter_cons happly, hplaced]
      · rwa [List.append_assoc, List.singleton_append] at hfinished

/-- Once the target has its size, both passes succeed, and nothing of what it held is left. -/
theorem scatter_resized {columnCount : Nat}
    (hcolumns : ∀ column ∈ rows.flatten, column < columnCount)
    (hsizes : HasSizes columnCount rows.flatten.length target) :
    (countColumns (Array.replicate target.offsets.size 0) rows.flatten >>= fun counts =>
      scatter (sumCounts counts) target.columns (connectionsFrom 0 rows) >>= fun arrays =>
        .ok (restoreStarts { target with offsets := arrays.1, columns := arrays.2 })) =
      .ok (ofRows (transposedRows columnCount rows)) := by
  obtain ⟨counts, hcounted, hcounts⟩ := exists_countColumns hcolumns
  have hstarts : sumCounts counts =
      (offsetsFrom 0 (countedSizes columnCount (onceEach rows.flatten))).toArray := by
    rw [sumCounts, hcounts]
  have hslots : target.columns.size = (countedSizes columnCount (onceEach rows.flatten)).sum := by
    rw [hsizes.size_columns, sum_countedSizes_onceEach hcolumns]
  obtain ⟨placed, hplaced, hfinished⟩ :=
    ((placesAsCounted_connections hcolumns).filling hslots).exists_scatter
  have hlength : (countedSizes columnCount (onceEach rows.flatten)).length = columnCount := by
    simp [countedSizes]
  have hpacked : { target with offsets := placed.offsets, columns := placed.columns } = placed := by
    rw [hsizes.isPacked, ← hfinished.isPacked]
  rw [hsizes.size_offsets, hcounted, Result.ok_bind, hstarts, hplaced, Result.ok_bind, hpacked,
    hfinished.restoreStarts_eq, hlength, List.nil_append]
  simp only [placedIn_connectionsFrom]
  rfl

/-- Transposing in terms of the rows: it may fail in finding the width and in making room, and is
refused in between. -/
theorem transposeOnto_eq (hrows : table.rows = .ok rows) (target : IncidenceTable)
    (columnCount : Option Nat) :
    table.transposeOnto target columnCount = word (columnsNeeded rows.flatten) >>= fun width =>
      if columnCount.getD width < width then
        refuse (.layout (.columnOutside (width - 1) (columnCount.getD width)))
      else target.resize (columnCount.getD width) rows.flatten.length >>= fun _ =>
        .ok (ofRows (transposedRows (columnCount.getD width) rows)) := by
  rw [transposeOnto, width_eq hrows, word]
  split
  · rw [Result.ok_bind, Result.ok_bind]
    dsimp only
    split
    · rfl
    · rename_i hwide
      rw [hrows, Result.ok_bind]
      exact resize_bind_eq fun resized hsizes =>
        scatter_resized (columnsNeeded_le_iff.mp (Nat.le_of_not_lt hwide)) hsizes
  · rfl

/-- The transposed table has as many rows as there are columns, of the sizes counted. -/
theorem HasCapacities.answers_transposeOnto {capacities : List Nat}
    (htable : table.HasCapacities capacities) (target : IncidenceTable)
    (columnCount : Option Nat) :
    (table.transposeOnto target columnCount).Answers fun after =>
      ∃ sizes, after.HasCapacities sizes := by
  obtain ⟨rows, hrows, -⟩ := htable.exists_rows
  rw [transposeOnto_eq hrows]
  refine (answers_word _).bind fun width _ => ?_
  split
  · exact Result.answers_refuse _ _
  · exact (resize_answers _ _ _).bind fun _ _ => ⟨_, hasCapacities_ofRows _⟩

theorem hasCapacities_empty : empty.HasCapacities [] := ⟨rfl, rfl, by simp [empty]⟩

/-- Listing the positions of labels is a build that counts and places one column a label. -/
theorem positionsOf_eq (labels : List Nat) (labelCount : Option Nat) :
    positionsOf labels labelCount = columnBound labels >>= fun width =>
      if labelCount.getD width < width then
        refuse (.layout (.labelOutside (width - 1) (labelCount.getD width)))
      else empty.build (labelCount.getD width) (onceEach labels)
        (labels.zipIdx.map fun (label, position) => .one label position) := by
  simp only [positionsOf, build, onceEach, List.foldlM_map, Placement.apply]

/-- A label is placed like the only column of a row. -/
theorem map_ofConnection_labels (row : Nat) (labels : List Nat) :
    (connectionsFrom row (labels.map ([·]))).map Placement.ofConnection =
      (labels.zipIdx row).map fun (label, position) => .one label position := by
  induction labels generalizing row with
  | nil => rfl
  | cons label labels ih =>
      rw [List.map_cons, connectionsFrom, List.map_append, ih, List.zipIdx_cons, List.map_cons]
      rfl

theorem flatten_map_singleton (labels : List Nat) : (labels.map ([·])).flatten = labels := by
  rw [← List.flatMap_def, List.flatMap_singleton']

theorem placesAsCounted_labels {labels : List Nat} {labelCount : Nat}
    (hlabels : ∀ label ∈ labels, label < labelCount) :
    PlacesAsCounted labelCount (onceEach labels)
      (labels.zipIdx.map fun (label, position) => .one label position) := by
  rw [← map_ofConnection_labels]
  nth_rewrite 1 [← flatten_map_singleton labels]
  exact placesAsCounted_connections (by rwa [flatten_map_singleton])

theorem answers_positionsOf (labels : List Nat) (labelCount : Option Nat) :
    (positionsOf labels labelCount).Answers fun table => ∃ sizes, table.HasCapacities sizes := by
  rw [positionsOf_eq]
  refine (answers_columnBound labels).bind fun width hwidth => ?_
  split
  · exact Result.answers_refuse _ _
  · rename_i hwide
    have hplaces : PlacesAsCounted (labelCount.getD width) (onceEach labels) _ :=
      placesAsCounted_labels fun label hlabel => by
        have hbound := hwidth label hlabel
        omega
    exact (answers_build hplaces.count_lt hplaces.placement_lt hplaces.amountFor_eq).mono
      fun _ hbuilt => ⟨_, hbuilt⟩

end Passes

/-- Where there is room for the slots, all a new table needs is room for the offsets. -/
theorem canResize_empty_iff {rows slots : Nat} (hslots : slots * wordBytes ≤ byteBound) :
    empty.CanResize rows slots ↔ (rows + 1) * wordBytes ≤ byteBound := by
  refine ⟨fun hroom => ?_, fun hroom => ⟨.inr hroom, .inr hslots⟩⟩
  obtain rfl | hroom := hroom.1
  · decide
  · exact hroom

namespace Stores

variable {table : IncidenceTable} {rows : List (List Nat)}

/-- The entries take no more room in the transposed table, so only its offsets matter. -/
theorem canResize_empty_iff (hstores : table.Stores rows) {columnCount : Nat} :
    empty.CanResize columnCount rows.flatten.length ↔
      (columnCount + 1) * wordBytes ≤ byteBound :=
  IncidenceTable.canResize_empty_iff hstores.length_flatten_le

theorem transpose_eq (hstores : table.Stores rows) (columnCount : Option Nat) :
    table.transpose columnCount =
      if columnCount.getD (columnsNeeded rows.flatten) < columnsNeeded rows.flatten then
        refuse (.layout (.columnOutside (columnsNeeded rows.flatten - 1)
          (columnCount.getD (columnsNeeded rows.flatten))))
      else empty.resize (columnCount.getD (columnsNeeded rows.flatten)) rows.flatten.length >>=
        fun _ => .ok (IncidenceTable.ofRows
          (transposedRows (columnCount.getD (columnsNeeded rows.flatten)) rows)) := by
  rw [transpose, transposeOnto_eq hstores.rows_eq, word_eq_ok hstores.columnsNeeded_lt,
    Result.ok_bind]

theorem transpose_eq_ok (hstores : table.Stores rows) {columnCount : Option Nat} {rowCount : Nat}
    (hcount : columnCount.getD (columnsNeeded rows.flatten) = rowCount)
    (hwide : columnsNeeded rows.flatten ≤ rowCount)
    (hroom : (rowCount + 1) * wordBytes ≤ byteBound) :
    table.transpose columnCount = .ok (IncidenceTable.ofRows (transposedRows rowCount rows)) := by
  rw [hstores.transpose_eq, hcount, if_neg (Nat.not_lt.mpr hwide),
    resize_eq_ok (hstores.canResize_empty_iff.mpr hroom), Result.ok_bind]

theorem transpose_some_eq_ok (hstores : table.Stores rows) {rowCount : Nat}
    (hwide : columnsNeeded rows.flatten ≤ rowCount)
    (hroom : (rowCount + 1) * wordBytes ≤ byteBound) :
    table.transpose (some rowCount) = .ok (IncidenceTable.ofRows (transposedRows rowCount rows)) :=
  hstores.transpose_eq_ok rfl hwide hroom

theorem transpose_runsOut (hstores : table.Stores rows) {columnCount : Option Nat} {rowCount : Nat}
    (hcount : columnCount.getD (columnsNeeded rows.flatten) = rowCount)
    (hwide : columnsNeeded rows.flatten ≤ rowCount)
    (hfull : ¬ (rowCount + 1) * wordBytes ≤ byteBound) :
    (table.transpose columnCount).RunsOut := by
  rw [hstores.transpose_eq, hcount, if_neg (Nat.not_lt.mpr hwide)]
  exact (resize_runsOut fun hroom => hfull (hstores.canResize_empty_iff.mp hroom)).bind _

/-- Transposed tables are tables again. -/
theorem ofRows_transposedRows (hstores : table.Stores rows) {columnCount : Nat}
    (hwide : columnsNeeded rows.flatten ≤ columnCount)
    (hroom : (columnCount + 1) * wordBytes ≤ byteBound) :
    (IncidenceTable.ofRows (transposedRows columnCount rows)).Stores
      (transposedRows columnCount rows) := by
  refine .ofRows (by rwa [length_transposedRows]) ?_ fun row hrow => ?_
  · rw [length_flatten_transposedRows (columnsNeeded_le_iff.mp hwide)]
    exact hstores.length_flatten_le
  · have hlt := forall_lt_of_mem_transposedRows columnCount rows row hrow
    have hbound := lt_wordBound_of_mul_le hstores.length_le
    omega

end Stores

/-- The packed table with `columnCount` rows that says of each column which rows hold it. -/
structure IsTransposeOf (rows : List (List Nat)) (columnCount : Nat)
    (transposed : IncidenceTable) : Prop where
  isPacked_eq : transposed.isPacked = true
  defect?_eq_none : transposed.defect? = none
  rowCount_eq : transposed.rowCount = columnCount
  /-- The holders of a column do not decrease, and each is repeated as often as it holds it. -/
  exists_row : ∀ column < columnCount, ∃ holders, transposed.row column = .ok holders ∧
    holders.Pairwise (· ≤ ·) ∧ ∀ row, holders.count row = (rows.getD row []).count column
  exists_rows : ∃ others, transposed.rows = .ok others ∧
    others.flatten.length = rows.flatten.length
  transpose_eq : transposed.transpose (some rows.length) = .ok (ofRows (rows.map ascending))

theorem Stores.isTransposeOf {table : IncidenceTable} {rows : List (List Nat)}
    (hstores : table.Stores rows) {columnCount : Nat}
    (hwide : columnsNeeded rows.flatten ≤ columnCount)
    (hroom : (columnCount + 1) * wordBytes ≤ byteBound) :
    IsTransposeOf rows columnCount (IncidenceTable.ofRows (transposedRows columnCount rows)) where
  isPacked_eq := rfl
  defect?_eq_none := defect?_ofRows _
  rowCount_eq := by simp
  exists_row column hcolumn :=
    ⟨_, row_ofRows (getElem?_transposedRows hcolumn rows), pairwise_holdersFrom _ _ _,
      fun row => count_holdersFrom_zero column row rows⟩
  exists_rows :=
    ⟨_, rows_ofRows _, length_flatten_transposedRows (columnsNeeded_le_iff.mp hwide)⟩
  transpose_eq := by
    rw [(hstores.ofRows_transposedRows hwide hroom).transpose_some_eq_ok
      (columnsNeeded_transposedRows_le columnCount rows) hstores.length_le,
      transposedRows_transposedRows (columnsNeeded_le_iff.mp hwide)]

/-- What transposing a table with the given rows comes to, whether or not a number of columns is
asked for. -/
structure TransposesExactly (table : IncidenceTable) (rows : List (List Nat))
    (columnCount : Option Nat) : Prop where
  width_eq : table.width = .ok (columnsNeeded rows.flatten)
  /-- It is refused exactly if fewer columns are asked for than the entries need. -/
  refused_iff : (∃ defect, table.transpose columnCount = refuse (.layout defect)) ↔
    ∃ given, columnCount = some given ∧ given < columnsNeeded rows.flatten
  refuse_eq : ∀ given, columnCount = some given → given < columnsNeeded rows.flatten →
    table.transpose columnCount =
      refuse (.layout (.columnOutside (columnsNeeded rows.flatten - 1) given))
  /-- Otherwise all it needs is room for the offsets. -/
  exists_transposed : ∀ rowCount, columnCount.getD (columnsNeeded rows.flatten) = rowCount →
    columnsNeeded rows.flatten ≤ rowCount → (rowCount + 1) * wordBytes ≤ byteBound →
      ∃ transposed, table.transpose columnCount = .ok transposed ∧
        IsTransposeOf rows rowCount transposed
  runsOut : ∀ rowCount, columnCount.getD (columnsNeeded rows.flatten) = rowCount →
    columnsNeeded rows.flatten ≤ rowCount → ¬ (rowCount + 1) * wordBytes ≤ byteBound →
      (table.transpose columnCount).RunsOut

/-- **Transposing.** A table is refused if its columns do not fit. Otherwise, if there is room for
the offsets, the transposed table lists the rows that hold each column, in order and as often as
they hold it, and transposing it again gives the rows of the table in increasing order. -/
theorem Stores.transposesExactly {table : IncidenceTable} {rows : List (List Nat)}
    (hstores : table.Stores rows) (columnCount : Option Nat) :
    table.TransposesExactly rows columnCount where
  width_eq := hstores.width_eq_ok
  refused_iff := by
    constructor
    · rintro ⟨defect, hrefused⟩
      by_cases hnarrow :
          columnCount.getD (columnsNeeded rows.flatten) < columnsNeeded rows.flatten
      · cases columnCount with
        | none => exact absurd hnarrow (Nat.lt_irrefl _)
        | some given => exact ⟨given, rfl, hnarrow⟩
      · have hwide := Nat.le_of_not_lt hnarrow
        by_cases hroom :
            (columnCount.getD (columnsNeeded rows.flatten) + 1) * wordBytes ≤ byteBound
        · rw [hstores.transpose_eq_ok rfl hwide hroom] at hrefused
          cases hrefused
        · exact absurd hrefused ((hstores.transpose_runsOut rfl hwide hroom).ne_refuse _)
    · rintro ⟨given, rfl, hnarrow⟩
      rw [hstores.transpose_eq]
      exact ⟨_, if_pos hnarrow⟩
  refuse_eq := by
    rintro given rfl hnarrow
    rw [hstores.transpose_eq]
    exact if_pos hnarrow
  exists_transposed rowCount hcount hwide hroom :=
    ⟨_, hstores.transpose_eq_ok hcount hwide hroom, hstores.isTransposeOf hwide hroom⟩
  runsOut rowCount hcount hwide hfull := hstores.transpose_runsOut hcount hwide hfull

theorem transposesExactly_repeatingTable : repeatingTable.Stores [[1, 3, 1], [], [4, 1]] ∧
    repeatingTable.transpose (some 4) = refuse (.layout (.columnOutside 4 4)) ∧
    ∃ transposed, repeatingTable.transpose (some 6) = .ok transposed ∧
      IsTransposeOf [[1, 3, 1], [], [4, 1]] 6 transposed :=
  ⟨stores_repeatingTable,
    (stores_repeatingTable.transposesExactly (some 4)).refuse_eq 4 rfl (by decide),
    (stores_repeatingTable.transposesExactly (some 6)).exists_transposed 6 rfl (by decide)
      (by decide)⟩

/-- The largest column that can be counted takes more offsets than there are words, so a table with
this one entry is not refused and has no transposed table either. -/
theorem transpose_largest_column : (ofRows [[wordBound - 2]]).Stores [[wordBound - 2]] ∧
    (ofRows [[wordBound - 2]]).width = .ok (wordBound - 1) ∧
    (∀ defect, (ofRows [[wordBound - 2]]).transpose none ≠ refuse (.layout defect)) ∧
    ¬ ∃ transposed, (ofRows [[wordBound - 2]]).transpose none = .ok transposed := by
  have hstores : (ofRows [[wordBound - 2]]).Stores [[wordBound - 2]] :=
    .ofRows (by decide) (by decide) (by decide)
  have hrunsOut : ((ofRows [[wordBound - 2]]).transpose none).RunsOut := .inl (by decide)
  exact ⟨hstores, by decide, fun _ => hrunsOut.ne_refuse _, fun ⟨transposed, hok⟩ =>
    hrunsOut.ne_ok transposed hok⟩

end IncidenceTable

end MeshIncidence
