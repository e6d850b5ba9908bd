/-
# Laws of products

Products are associative: what is reached over two tables is reached first in the same order,
whether the middle steps are put together first or last. Leaving out repetitions early does not
change this, since what a repeated row leads to has been reached already.

Transposing turns products around. The rows on both sides hold the same entries, none of them twice;
the transposed product has them in increasing order, the product of the transposed tables in the
order in which they are reached.

Both laws are about lists of rows first. The tables on the way to either side need room, and where
there is room for those of one side there may be none for those of the other.
-/

import MeshIncidence.Proofs.Table.ProductPasses
import MeshIncidence.Proofs.Table.Transposes

namespace MeshIncidence

namespace IncidenceTable

section Reached

variable {sources middles targets : List (List Nat)}

/-- What is reached over a product is reached in two steps. -/
theorem reachedFrom_productOf (middles targets : List (List Nat)) (entries : List Nat) :
    reachedFrom (productOf middles targets) entries =
      reachedFrom targets (reachedFrom middles entries) := by
  calc reachedFrom (productOf middles targets) entries
      = seenAfter [] (entries.flatMap fun entry =>
          seenAfter [] ((middles.getD entry []).flatMap (targets.getD · []))) := by
        rw [reachedFrom, funext (getD_productOf middles targets)]
        rfl
    _ = seenAfter [] ((entries.flatMap (middles.getD · [])).flatMap (targets.getD · [])) := by
        rw [seenAfter_flatMap_nil, List.flatMap_assoc]
    _ = reachedFrom targets (reachedFrom middles entries) := by
        rw [reachedFrom, reachedFrom, seenAfter_flatMap_seenAfter, List.nil_append]

theorem productOf_productOf (sources middles targets : List (List Nat)) :
    productOf (productOf sources middles) targets =
      productOf sources (productOf middles targets) := by
  rw [productOf, productOf, productOf, List.map_map]
  exact List.map_congr_left fun entries _ => (reachedFrom_productOf middles targets entries).symm

end Reached

section Reversed

variable {sources targets : List (List Nat)} {columnCount : Nat}

theorem nodup_getD_transposedRows_productOf
    (htargets : ∀ column ∈ targets.flatten, column < columnCount) (column : Nat) :
    ((transposedRows columnCount (productOf sources targets)).getD column []).Nodup := by
  refine List.nodup_iff_count_le_one.mpr fun row => ?_
  rw [count_getD_transposedRows (forall_lt_of_mem_productOf htargets)]
  exact List.nodup_iff_count_le_one.mp (nodup_getD_productOf row) column

variable (hsources : ∀ column ∈ sources.flatten, column < targets.length)
  (htargets : ∀ column ∈ targets.flatten, column < columnCount)

include hsources htargets

/-- A column of a product is held by the rows that reach it from the other side. -/
theorem mem_getD_productOf_transposedRows {column row : Nat} :
    row ∈ (productOf (transposedRows columnCount targets)
        (transposedRows targets.length sources)).getD column [] ↔
      row ∈ (transposedRows columnCount (productOf sources targets)).getD column [] := by
  rw [mem_getD_transposedRows (forall_lt_of_mem_productOf htargets), mem_getD_productOf,
    mem_getD_productOf]
  refine exists_congr fun middle => ?_
  rw [mem_getD_transposedRows htargets, mem_getD_transposedRows hsources, and_comm]

theorem ascending_getD_productOf_transposedRows (column : Nat) :
    ascending ((productOf (transposedRows columnCount targets)
        (transposedRows targets.length sources)).getD column []) =
      (transposedRows columnCount (productOf sources targets)).getD column [] :=
  ascending_eq_of_mem_iff (nodup_getD_productOf column)
    (nodup_getD_transposedRows_productOf htargets column)
    (pairwise_getD_transposedRows _ _ column)
    fun _ => mem_getD_productOf_transposedRows hsources htargets

/-- The product of the transposed rows in the other order, with each row put in increasing order,
is the transposed product. -/
theorem map_ascending_productOf_transposedRows :
    (productOf (transposedRows columnCount targets)
        (transposedRows targets.length sources)).map ascending =
      transposedRows columnCount (productOf sources targets) := by
  refine List.ext_getElem (by simp [length_productOf]) fun column hleft hright => ?_
  have hrow := ascending_getD_productOf_transposedRows hsources htargets column
  rw [List.length_map] at hleft
  rwa [List.getD_eq_getElem?_getD, List.getElem?_eq_getElem hleft, Option.getD_some,
    List.getD_eq_getElem?_getD, List.getElem?_eq_getElem hright, Option.getD_some,
    ← List.getElem_map ascending] at hrow

/-- Both sides have as many entries. -/
theorem length_flatten_productOf_transposedRows :
    (productOf (transposedRows columnCount targets)
        (transposedRows targets.length sources)).flatten.length =
      (productOf sources targets).flatten.length := by
  have hsizes : ∀ rows : List (List Nat),
      (rows.map ascending).flatten.length = rows.flatten.length := fun rows => by
    simp only [List.length_flatten, List.map_map, Function.comp_def, (ascending_perm _).length_eq]
  rw [← hsizes, map_ascending_productOf_transposedRows hsources htargets,
    length_flatten_transposedRows (forall_lt_of_mem_productOf htargets)]

end Reversed

section Laws

variable {first second third : IncidenceTable} {sources middles targets : List (List Nat)}

/-- The columns of the first table are rows of the second. -/
def Fits (first second : IncidenceTable) : Prop :=
  ∀ width, first.width = .ok width → width ≤ second.rowCount

theorem Stores.fits_iff (hfirst : first.Stores sources) (hsecond : second.Stores targets) :
    first.Fits second ↔ columnsNeeded sources.flatten ≤ targets.length := by
  rw [Fits, hfirst.width_eq_ok, length_of_rows_eq_ok hsecond.rows_eq]
  refine ⟨fun hfits => hfits _ rfl, fun hle width hwidth => ?_⟩
  rwa [← Except.ok.inj hwidth]

/-- Products are tables again. -/
theorem Stores.ofRows_productOf (hfirst : first.Stores sources) (hsecond : second.Stores targets)
    (hroom : CanMultiply sources targets) :
    (IncidenceTable.ofRows (productOf sources targets)).Stores (productOf sources targets) := by
  refine .ofRows ?_ hroom.2 fun column hcolumn => ?_
  · rw [length_productOf]
    exact hfirst.length_le
  · exact hsecond.column_lt column (mem_flatten_of_mem_productOf hcolumn)

/-- The product of three tables, of which the first two are multiplied first. -/
def multiplyLeft (first second third : IncidenceTable) : Result IncidenceTable := do
  let product ← first.multiply second
  product.multiply third

/-- The product of three tables, of which the last two are multiplied first. -/
def multiplyRight (first second third : IncidenceTable) : Result IncidenceTable := do
  let product ← second.multiply third
  first.multiply product

/-- There is room for what is multiplied on either way. -/
structure CanCompose (sources middles targets : List (List Nat)) : Prop where
  canMultiply_first : CanMultiply sources middles
  canMultiply_last : CanMultiply middles targets
  canMultiply_all : CanMultiply (productOf sources middles) targets

/-- The markers for the last table are enough for its columns that are reached. -/
theorem CanCompose.canMultiply_right (hroom : CanCompose sources middles targets) :
    CanMultiply sources (productOf middles targets) := by
  refine ⟨Nat.le_trans (Nat.mul_le_mul_right _ ?_) hroom.canMultiply_last.1, ?_⟩
  · exact columnsNeeded_productOf_le middles targets
  · rw [← productOf_productOf]
    exact hroom.canMultiply_all.2

section Composed

variable (hfirst : first.Stores sources) (hsecond : second.Stores middles)
  (hthird : third.Stores targets) (hfits : first.Fits second) (hfollows : second.Fits third)

include hfirst hsecond hthird hfits hfollows

theorem Stores.multiplyLeft_eq_ok (hroom : CanMultiply sources middles)
    (hall : CanMultiply (productOf sources middles) targets) :
    multiplyLeft first second third =
      .ok (IncidenceTable.ofRows (productOf (productOf sources middles) targets)) := by
  have hle := (hfirst.fits_iff hsecond).mp hfits
  have hwide := Nat.le_trans (columnsNeeded_productOf_le sources middles)
    ((hsecond.fits_iff hthird).mp hfollows)
  rw [multiplyLeft, hfirst.multiply_eq_ok hsecond hle hroom, Result.ok_bind,
    (hfirst.ofRows_productOf hsecond hroom).multiply_eq_ok hthird hwide hall]

theorem Stores.multiplyLeft_runsOut
    (hfull : ¬ (CanMultiply sources middles ∧ CanMultiply (productOf sources middles) targets)) :
    (multiplyLeft first second third).RunsOut := by
  have hle := (hfirst.fits_iff hsecond).mp hfits
  have hwide := Nat.le_trans (columnsNeeded_productOf_le sources middles)
    ((hsecond.fits_iff hthird).mp hfollows)
  rw [multiplyLeft]
  by_cases hroom : CanMultiply sources middles
  · rw [hfirst.multiply_eq_ok hsecond hle hroom, Result.ok_bind]
    exact (hfirst.ofRows_productOf hsecond hroom).multiply_runsOut hthird hwide
      fun hall => hfull ⟨hroom, hall⟩
  · exact (hfirst.multiply_runsOut hsecond hle hroom).bind _

theorem Stores.multiplyRight_eq_ok (hroom : CanCompose sources middles targets) :
    multiplyRight first second third =
      .ok (IncidenceTable.ofRows (productOf sources (productOf middles targets))) := by
  have hlast := hroom.canMultiply_last
  have hwide := (hsecond.fits_iff hthird).mp hfollows
  have hle : columnsNeeded sources.flatten ≤ (productOf middles targets).length := by
    rw [length_productOf]
    exact (hfirst.fits_iff hsecond).mp hfits
  rw [multiplyRight, hsecond.multiply_eq_ok hthird hwide hlast, Result.ok_bind,
    hfirst.multiply_eq_ok (hsecond.ofRows_productOf hthird hlast) hle hroom.canMultiply_right]

end Composed

/-- What multiplying three tables with given rows comes to. -/
structure ComposesEitherWay (first second third : IncidenceTable)
    (sources middles targets : List (List Nat)) : Prop where
  /-- Both ways give one table, the columns of its rows in one order. -/
  exists_product : CanCompose sources middles targets → ∃ product,
    multiplyLeft first second third = .ok product ∧ multiplyRight first second third = .ok product
  runsOut : ¬ CanCompose sources middles targets →
    (multiplyLeft first second third).RunsOut ∨ (multiplyRight first second third).RunsOut

/-- **Products are associative.** If there is room for what is multiplied on the way, three tables
that follow each other have the same product either way, down to the order in each row. -/
theorem Stores.composesEitherWay (hfirst : first.Stores sources) (hsecond : second.Stores middles)
    (hthird : third.Stores targets) (hfits : first.Fits second) (hfollows : second.Fits third) :
    ComposesEitherWay first second third sources middles targets where
  exists_product hroom :=
    ⟨_, hfirst.multiplyLeft_eq_ok hsecond hthird hfits hfollows hroom.canMultiply_first
        hroom.canMultiply_all,
      productOf_productOf sources middles targets ▸
        hfirst.multiplyRight_eq_ok hsecond hthird hfits hfollows hroom⟩
  runsOut hfull := by
    by_cases hleft : CanMultiply sources middles ∧ CanMultiply (productOf sources middles) targets
    · refine .inr ((hsecond.multiply_runsOut hthird ((hsecond.fits_iff hthird).mp hfollows)
        fun hlast => hfull ⟨hleft.1, hlast, hleft.2⟩).bind _)
    · exact .inl (hfirst.multiplyLeft_runsOut hsecond hthird hfits hfollows hleft)

theorem composesEitherWay_repeatingTable : repeatingTable.Stores [[1, 3, 1], [], [4, 1]] ∧
    (ofRows fiveRows).Stores fiveRows ∧
    (ofRows (fiveRows ++ fiveRows)).Stores (fiveRows ++ fiveRows) ∧
    repeatingTable.Fits (ofRows fiveRows) ∧ (ofRows fiveRows).Fits (ofRows (fiveRows ++ fiveRows)) ∧
    ∃ product, multiplyLeft repeatingTable (ofRows fiveRows) (ofRows (fiveRows ++ fiveRows)) =
        .ok product ∧
      multiplyRight repeatingTable (ofRows fiveRows) (ofRows (fiveRows ++ fiveRows)) =
        .ok product := by
  have hthird : (ofRows (fiveRows ++ fiveRows)).Stores (fiveRows ++ fiveRows) :=
    .ofRows (by decide) (by decide) (by decide)
  have hfits := (stores_repeatingTable.fits_iff stores_fiveRows).mpr (by decide)
  have hfollows := (stores_fiveRows.fits_iff hthird).mpr (by decide)
  refine ⟨stores_repeatingTable, stores_fiveRows, hthird, hfits, hfollows, ?_⟩
  exact (stores_repeatingTable.composesEitherWay stores_fiveRows hthird hfits hfollows).exists_product
    ⟨⟨by decide, by decide⟩, ⟨by decide, by decide⟩, ⟨by decide, by decide⟩⟩

/-- Without room for the markers of the last table there is no product either way. -/
theorem multiplyLeft_largest_column : (ofRows [[0]]).Stores [[0]] ∧
    (ofRows [[wordBound - 2]]).Stores [[wordBound - 2]] ∧
    (ofRows [[0]]).Fits (ofRows [[0]]) ∧ (ofRows [[0]]).Fits (ofRows [[wordBound - 2]]) ∧
    (¬ ∃ product, multiplyLeft (ofRows [[0]]) (ofRows [[0]]) (ofRows [[wordBound - 2]]) =
      .ok product) ∧
    ¬ ∃ product, multiplyRight (ofRows [[0]]) (ofRows [[0]]) (ofRows [[wordBound - 2]]) =
      .ok product := by
  have hzero : (ofRows [[0]]).Stores [[0]] := .ofRows (by decide) (by decide) (by decide)
  have hlargest : (ofRows [[wordBound - 2]]).Stores [[wordBound - 2]] :=
    .ofRows (by decide) (by decide) (by decide)
  have hfits := (hzero.fits_iff hzero).mpr (by decide)
  have hfollows := (hzero.fits_iff hlargest).mpr (by decide)
  have hleft := hzero.multiplyLeft_runsOut hzero hlargest hfits hfollows
    fun hroom => absurd hroom.2.1 (by decide)
  have hright : (multiplyRight (ofRows [[0]]) (ofRows [[0]]) (ofRows [[wordBound - 2]])).RunsOut :=
    (hzero.multiply_runsOut hlargest (by decide) fun hroom => absurd hroom.1 (by decide)).bind _
  exact ⟨hzero, hlargest, hfits, hfollows, fun ⟨product, hok⟩ => hleft.ne_ok product hok,
    fun ⟨product, hok⟩ => hright.ne_ok product hok⟩

/-- Transpose two tables and multiply them in the other order. -/
def multiplyTransposes (first second : IncidenceTable) (columnCount : Nat) :
    Result IncidenceTable := do
  let left ← second.transpose (some columnCount)
  let right ← first.transpose (some second.rowCount)
  left.multiply right

/-- Multiply two tables and transpose the product. -/
def transposeProduct (first second : IncidenceTable) (columnCount : Nat) :
    Result IncidenceTable := do
  let product ← first.multiply second
  product.transpose (some columnCount)

/-- There is room for the product, and for a marker for each row of the first table up to the last
one with entries. -/
structure CanReverse (sources targets : List (List Nat)) : Prop where
  canMultiply : CanMultiply sources targets
  markers_le :
    columnsNeeded (transposedRows targets.length sources).flatten * markerBytes ≤ byteBound

/-- Where markers have room, offsets have. -/
theorem offsets_le_of_markers_le {columnCount : Nat}
    (hmarkers : columnCount * markerBytes ≤ byteBound) :
    (columnCount + 1) * wordBytes ≤ byteBound := by
  unfold markerBytes byteBound wordBytes at *
  omega

theorem Stores.transposeProduct_eq_ok (hfirst : first.Stores sources)
    (hsecond : second.Stores targets) (hfits : first.Fits second)
    (hroom : CanMultiply sources targets) :
    transposeProduct first second (columnsNeeded targets.flatten) =
      .ok (IncidenceTable.ofRows
        (transposedRows (columnsNeeded targets.flatten) (productOf sources targets))) := by
  rw [transposeProduct, hfirst.multiply_eq_ok hsecond ((hfirst.fits_iff hsecond).mp hfits) hroom,
    Result.ok_bind, (hfirst.ofRows_productOf hsecond hroom).transpose_some_eq_ok
      (columnsNeeded_productOf_le sources targets) (offsets_le_of_markers_le hroom.1)]

section Transposes

variable (hfirst : first.Stores sources) (hsecond : second.Stores targets)
  (hfits : first.Fits second) (hroom : CanMultiply sources targets)

include hfirst hsecond hfits hroom

/-- The product of the transposed tables needs no more room for entries than the product. -/
theorem Stores.canMultiply_transposedRows_iff :
    CanMultiply (transposedRows (columnsNeeded targets.flatten) targets)
        (transposedRows targets.length sources) ↔
      columnsNeeded (transposedRows targets.length sources).flatten * markerBytes ≤ byteBound := by
  have hsources := columnsNeeded_le_iff.mp ((hfirst.fits_iff hsecond).mp hfits)
  rw [CanMultiply, length_flatten_productOf_transposedRows hsources fun _ => lt_columnsNeeded]
  exact and_iff_left hroom.2

/-- The transposed tables are there, and the rows of one are the columns of the other. -/
theorem Stores.exists_transposes : ∃ left right : IncidenceTable,
    left.Stores (transposedRows (columnsNeeded targets.flatten) targets) ∧
      right.Stores (transposedRows targets.length sources) ∧
      columnsNeeded (transposedRows (columnsNeeded targets.flatten) targets).flatten ≤
        (transposedRows targets.length sources).length ∧
      multiplyTransposes first second (columnsNeeded targets.flatten) = left.multiply right := by
  have hle := (hfirst.fits_iff hsecond).mp hfits
  have hoffsets := offsets_le_of_markers_le hroom.1
  refine ⟨_, _, hsecond.ofRows_transposedRows (Nat.le_refl _) hoffsets,
    hfirst.ofRows_transposedRows hle hsecond.length_le, ?_, ?_⟩
  · rw [length_transposedRows]
    exact columnsNeeded_transposedRows_le _ _
  · rw [multiplyTransposes, hsecond.transpose_some_eq_ok (Nat.le_refl _) hoffsets, Result.ok_bind,
      ← length_of_rows_eq_ok hsecond.rows_eq, hfirst.transpose_some_eq_ok hle hsecond.length_le,
      Result.ok_bind]

theorem Stores.multiplyTransposes_eq_ok
    (hmarkers : columnsNeeded (transposedRows targets.length sources).flatten * markerBytes ≤
      byteBound) :
    multiplyTransposes first second (columnsNeeded targets.flatten) =
      .ok (IncidenceTable.ofRows (productOf (transposedRows (columnsNeeded targets.flatten) targets)
        (transposedRows targets.length sources))) := by
  obtain ⟨left, right, hleft, hright, hfollows, hequal⟩ :=
    hfirst.exists_transposes hsecond hfits hroom
  rw [hequal]
  exact hleft.multiply_eq_ok hright hfollows
    ((hfirst.canMultiply_transposedRows_iff hsecond hfits hroom).mpr hmarkers)

theorem Stores.multiplyTransposes_runsOut
    (hfull : ¬ columnsNeeded (transposedRows targets.length sources).flatten * markerBytes ≤
      byteBound) :
    (multiplyTransposes first second (columnsNeeded targets.flatten)).RunsOut := by
  obtain ⟨left, right, hleft, hright, hfollows, hequal⟩ :=
    hfirst.exists_transposes hsecond hfits hroom
  rw [hequal]
  exact hleft.multiply_runsOut hright hfollows
    (mt (hfirst.canMultiply_transposedRows_iff hsecond hfits hroom).mp hfull)

end Transposes

/-- Both tables have the same rows, each without repetitions; those of the second are in order. -/
structure SortsTo (table sorted : IncidenceTable) : Prop where
  rowCount_eq : table.rowCount = sorted.rowCount
  exists_row : ∀ row < table.rowCount, ∃ entries others, table.row row = .ok entries ∧
    sorted.row row = .ok others ∧ entries.Nodup ∧ others.Nodup ∧
      ∀ entry, entry ∈ entries ↔ entry ∈ others
  exists_rows : ∃ rows, table.rows = .ok rows ∧ sorted = ofRows (rows.map ascending)

theorem sortsTo_ofRows {rows : List (List Nat)} (hnodup : ∀ row, (rows.getD row []).Nodup) :
    SortsTo (ofRows rows) (ofRows (rows.map ascending)) where
  rowCount_eq := by simp
  exists_row row hrow := by
    rw [rowCount_ofRows] at hrow
    have hentries := List.getElem?_eq_getElem hrow
    have hown := hnodup row
    rw [List.getD_eq_getElem?_getD, hentries, Option.getD_some] at hown
    refine ⟨rows[row], ascending rows[row], row_ofRows hentries,
      row_ofRows (by rw [List.getElem?_map, hentries, Option.map_some]), hown,
      (ascending_perm _).nodup_iff.mpr hown, fun entry => (ascending_perm _).mem_iff.symm⟩
  exists_rows := ⟨rows, rows_ofRows rows, rfl⟩

/-- What transposing a product comes to, and multiplying the transposed tables. -/
structure ReversesProduct (first second : IncidenceTable) (sources targets : List (List Nat))
    (columnCount : Nat) : Prop where
  /-- The rows on both sides are the same up to their order. -/
  exists_tables : CanReverse sources targets → ∃ product reversed,
    multiplyTransposes first second columnCount = .ok product ∧
      transposeProduct first second columnCount = .ok reversed ∧ SortsTo product reversed
  runsOut : ¬ CanReverse sources targets →
    (multiplyTransposes first second columnCount).RunsOut ∨
      (transposeProduct first second columnCount).RunsOut

/-- **Transposing turns products around.** If there is room for what is multiplied, the product of
the transposed tables in the other order has the rows of the transposed product, without
repetitions, and putting each of them in order gives the transposed product. -/
theorem Stores.reversesProduct (hfirst : first.Stores sources) (hsecond : second.Stores targets)
    (hfits : first.Fits second) {columnCount : Nat} (hwidth : second.width = .ok columnCount) :
    ReversesProduct first second sources targets columnCount := by
  obtain rfl := Except.ok.inj (hsecond.width_eq_ok.symm.trans hwidth)
  have hle := (hfirst.fits_iff hsecond).mp hfits
  refine ⟨fun hroom => ?_, fun hfull => ?_⟩
  · refine ⟨_, _, hfirst.multiplyTransposes_eq_ok hsecond hfits hroom.canMultiply hroom.markers_le,
      hfirst.transposeProduct_eq_ok hsecond hfits hroom.canMultiply, ?_⟩
    rw [← map_ascending_productOf_transposedRows (columnsNeeded_le_iff.mp hle)
      fun _ => lt_columnsNeeded]
    exact sortsTo_ofRows nodup_getD_productOf
  · by_cases hmultiply : CanMultiply sources targets
    · exact .inl (hfirst.multiplyTransposes_runsOut hsecond hfits hmultiply
        fun hmarkers => hfull ⟨hmultiply, hmarkers⟩)
    · exact .inr ((hfirst.multiply_runsOut hsecond hle hmultiply).bind _)

theorem reversesProduct_repeatingTable : repeatingTable.Stores [[1, 3, 1], [], [4, 1]] ∧
    (ofRows fiveRows).Stores fiveRows ∧ repeatingTable.Fits (ofRows fiveRows) ∧
    (ofRows fiveRows).width = .ok 10 ∧
    ∃ product reversed, multiplyTransposes repeatingTable (ofRows fiveRows) 10 = .ok product ∧
      transposeProduct repeatingTable (ofRows fiveRows) 10 = .ok reversed ∧
      SortsTo product reversed := by
  have hfits := (stores_repeatingTable.fits_iff stores_fiveRows).mpr (by decide)
  have hwidth : (ofRows fiveRows).width = .ok 10 := by decide
  refine ⟨stores_repeatingTable, stores_fiveRows, hfits, hwidth, ?_⟩
  exact (stores_repeatingTable.reversesProduct stores_fiveRows hfits hwidth).exists_tables
    ⟨⟨by decide, by decide⟩, by decide⟩

/-- A table with the largest column that can be counted is not transposed and not multiplied. -/
theorem multiplyTransposes_largest_column : (ofRows [[0]]).Stores [[0]] ∧
    (ofRows [[wordBound - 2]]).Stores [[wordBound - 2]] ∧
    (ofRows [[0]]).Fits (ofRows [[wordBound - 2]]) ∧
    (ofRows [[wordBound - 2]]).width = .ok (wordBound - 1) ∧
    (¬ ∃ product, multiplyTransposes (ofRows [[0]]) (ofRows [[wordBound - 2]]) (wordBound - 1) =
      .ok product) ∧
    ¬ ∃ reversed, transposeProduct (ofRows [[0]]) (ofRows [[wordBound - 2]]) (wordBound - 1) =
      .ok reversed := by
  have hzero : (ofRows [[0]]).Stores [[0]] := .ofRows (by decide) (by decide) (by decide)
  have hlargest : (ofRows [[wordBound - 2]]).Stores [[wordBound - 2]] :=
    .ofRows (by decide) (by decide) (by decide)
  have hfits := (hzero.fits_iff hlargest).mpr (by decide)
  have hleft : (multiplyTransposes (ofRows [[0]]) (ofRows [[wordBound - 2]])
      (wordBound - 1)).RunsOut :=
    (hlargest.transpose_runsOut rfl (by decide) (by decide)).bind _
  have hright : (transposeProduct (ofRows [[0]]) (ofRows [[wordBound - 2]])
      (wordBound - 1)).RunsOut :=
    (hzero.multiply_runsOut hlargest (by decide) fun hroom => absurd hroom.1 (by decide)).bind _
  exact ⟨hzero, hlargest, hfits, by decide, fun ⟨product, hok⟩ => hleft.ne_ok product hok,
    fun ⟨reversed, hok⟩ => hright.ne_ok reversed hok⟩

end Laws

end IncidenceTable

end MeshIncidence
