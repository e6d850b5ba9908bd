/-
# A saved table is read back packed

The saved form gives the rows of a table and nothing else: their number, where each starts if
they are put one after the other, and their columns. Its tokens are the decimal digits of these
numbers, so reading them back gives the table made of the rows, and this is the packed table.

Numbers are read back as long as they are machine words. `IncidenceTable.HasWords` says so of
the columns of a table and of its positions; all other numbers written are less than these.
-/

import MeshIncidence.Proofs.SetFile.Words
import MeshIncidence.Proofs.Table.Packing

namespace MeshIncidence

theorem splitWords_append {token : List Char} (hblank : ∀ c ∈ token, isBlank c = false)
    (rest : List Char) :
    splitWords (token ++ rest) = (token ++ (splitWords rest).1, (splitWords rest).2) := by
  induction token with
  | nil => rfl
  | cons c token ih =>
      obtain ⟨hc, htoken⟩ := List.forall_mem_cons.mp hblank
      rw [List.cons_append, splitWords, ih htoken, hc]
      rfl

/-- A token ends at the blank after it. -/
theorem words_append {token : List Char} (htoken : IsToken token) {blank : Char}
    (hblank : isBlank blank = true) (rest : List Char) :
    words (token ++ blank :: rest) = token :: words rest := by
  have hrest : splitWords (blank :: rest) = ([], words rest) := by
    simp only [splitWords, hblank, if_true, words]
  rw [words, splitWords_append htoken.not_blank, hrest, List.append_nil]
  exact if_neg (by simpa using htoken.ne_nil)

/-- Numbers on lines of their own are the tokens of the text. -/
theorem words_numberLines (numbers : List Nat) :
    words (String.join (numbers.map numberLine)).toList = numbers.map (Nat.toDigits 10) := by
  induction numbers with
  | nil => rfl
  | cons number numbers ih =>
      have hline : (numberLine number).toList = Nat.toDigits 10 number ++ ['\n'] := by
        simp [numberLine]
      rw [String.toList_join] at ih ⊢
      rw [List.map_cons, List.flatMap_cons, hline, List.append_assoc, List.singleton_append,
        words_append (isToken_toDigits number) (by decide), ih, List.map_cons]

/-- Offsets do not exceed the room for all rows. -/
theorem le_of_mem_offsetsFrom {start offset : Nat} {sizes : List Nat}
    (hoffset : offset ∈ offsetsFrom start sizes) : offset ≤ start + sizes.sum := by
  induction sizes generalizing start with
  | nil =>
      obtain rfl : offset = start := by simpa [offsetsFrom] using hoffset
      exact Nat.le_add_right _ _
  | cons size sizes ih =>
      rw [List.sum_cons]
      rcases List.mem_cons.mp hoffset with rfl | hlater
      · exact Nat.le_add_right _ _
      · have hle := ih hlater
        omega

namespace IncidenceTable

/-- The columns are machine words, and so are the numbers of offsets and of slots. -/
structure HasWords (table : IncidenceTable) : Prop where
  size_offsets_lt : table.offsets.size < wordBound
  size_columns_lt : table.columns.size < wordBound
  column_lt : ∀ column ∈ table.columns.toList, column < wordBound

theorem readEntry_toDigits (field : Field) {number : Nat} (hlt : number < wordBound)
    (tokens : List (List Char)) :
    readEntry field (Nat.toDigits 10 number :: tokens) = .ok (number, tokens) := by
  rw [readEntry, readWord?_toDigits hlt]

/-- As many numbers are read as there are before the rest. -/
theorem readEntries_toDigits (field : Field) {numbers : List Nat}
    (hlt : ∀ number ∈ numbers, number < wordBound) (tokens : List (List Char)) :
    readEntries field numbers.length (numbers.map (Nat.toDigits 10) ++ tokens) =
      .ok (numbers, tokens) := by
  induction numbers with
  | nil => rfl
  | cons number numbers ih =>
      obtain ⟨hnumber, hnumbers⟩ := List.forall_mem_cons.mp hlt
      simp only [List.length_cons, readEntries, List.map_cons, List.cons_append,
        readEntry_toDigits field hnumber, ih hnumbers, Result.ok_bind, Result.pure_eq_ok]

theorem checked_ofRows (rows : List (List Nat)) : (ofRows rows).checked = .ok (ofRows rows) :=
  checked_eq_ok (defect?_ofRows rows)

/-- The saved numbers of some rows are read as the table made of them. -/
theorem ofWords_savedNumbers {rows : List (List Nat)}
    (hlt : ∀ number ∈ savedNumbers rows, number < wordBound) :
    ofWords ((savedNumbers rows).map (Nat.toDigits 10)) = .ok (ofRows rows) := by
  obtain ⟨hcount, hlater⟩ := List.forall_mem_cons.mp hlt
  obtain ⟨hoffsets, hcolumns⟩ := List.forall_mem_append.mp hlater
  have hreadOffsets := readEntries_toDigits .rowOffset hoffsets
    (rows.flatten.map (Nat.toDigits 10))
  rw [length_offsetsFrom, List.length_map] at hreadOffsets
  have hreadColumns := readEntries_toDigits .columnIndex hcolumns []
  rw [List.append_nil] at hreadColumns
  have hlast : (offsetsFrom 0 (rows.map List.length)).getLastD 0 = rows.flatten.length := by
    have hend := slotCount_ofRows rows
    rwa [slotCount, ofRows, List.back?_toArray, ← List.getLastD_eq_getLast?] at hend
  simp only [ofWords, savedNumbers, List.map_cons, List.map_append, readEntry_toDigits _ hcount,
    hreadOffsets, hlast, hreadColumns, Result.ok_bind]
  exact checked_ofRows rows

theorem mem_of_mem_flatten_slices {columns starts sizes : List Nat} {column : Nat}
    (hcolumn : column ∈ (slices columns starts sizes).flatten) : column ∈ columns := by
  obtain ⟨entries, hentries, hcolumn⟩ := List.mem_flatten.mp hcolumn
  rw [slices, ← List.map_uncurry_zip_eq_zipWith] at hentries
  obtain ⟨⟨start, size⟩, -, rfl⟩ := List.mem_map.mp hentries
  exact List.mem_of_mem_drop (List.mem_of_mem_take hcolumn)

/-- All numbers that are written are machine words if those of the table are. -/
theorem HasCapacities.savedNumbers_lt {table : IncidenceTable} {capacities : List Nat}
    (htable : table.HasCapacities capacities) (hwords : table.HasWords) :
    ∀ number ∈ savedNumbers (slices table.columns.toList (offsetsFrom 0 capacities)
      (table.usedSizes capacities)), number < wordBound := by
  have hoffsets := hwords.size_offsets_lt
  have hcolumns := hwords.size_columns_lt
  have hsizes := htable.usedSizes_le
  rw [htable.size_offsets] at hoffsets
  rw [htable.size_columns] at hcolumns
  have hroom : 0 + capacities.sum ≤ table.columns.toList.length := by
    rw [Nat.zero_add, Array.length_toList, htable.size_columns]
  intro number hnumber
  rw [savedNumbers, map_length_slices hsizes hroom, List.mem_cons, List.mem_append] at hnumber
  rcases hnumber with rfl | hoffset | hcolumn
  · rw [htable.length_slices, htable.rowCount_eq]
    omega
  · have hle := le_of_mem_offsetsFrom hoffset
    have hused := hsizes.sum_le_sum
    omega
  · exact hwords.column_lt number (mem_of_mem_flatten_slices hcolumn)

/-- Saving a table without defect and loading the text gives the packed table, which is the table
made of its rows. The text names their number, their offsets and the columns in use, and
nothing of the slots that are free. -/
theorem load_saved {table : IncidenceTable} (hsound : table.defect? = none)
    (hwords : table.HasWords) :
    ∃ rows text, table.rows = .ok rows ∧ table.saved = .ok text ∧
      words text.toList = (savedNumbers rows).map (Nat.toDigits 10) ∧
      table.pack = .ok (ofRows rows) ∧ load text.toUTF8 = .ok (ofRows rows) := by
  obtain ⟨capacities, htable⟩ := defect?_eq_none_iff.mp hsound
  have hsaved := words_numberLines (savedNumbers (slices table.columns.toList
    (offsetsFrom 0 capacities) (table.usedSizes capacities)))
  refine ⟨_, _, htable.rows_eq, ?_, hsaved, htable.pack_eq, ?_⟩
  · rw [saved, htable.rows_eq]
    rfl
  · rw [load, decodeText_toUTF8, Result.ok_bind, hsaved]
    exact ofWords_savedNumbers (htable.savedNumbers_lt hwords)

/-- A table with rows of different capacities: the first is full, the second has no slots, and
of the last two, one is filled in part and the other not at all. -/
def unevenTable : IncidenceTable :=
  ⟨#[0, 2, 2, 5, 6], #[7, 0, 12, 7, 99, 98], some #[2, 0, 2, 0]⟩

theorem load_saved_unevenTable :
    ∃ rows text, unevenTable.rows = .ok rows ∧ unevenTable.saved = .ok text ∧
      words text.toList = (savedNumbers rows).map (Nat.toDigits 10) ∧
      unevenTable.pack = .ok (ofRows rows) ∧ load text.toUTF8 = .ok (ofRows rows) :=
  load_saved (by decide) ⟨by decide, by decide, by decide⟩

end IncidenceTable

end MeshIncidence
