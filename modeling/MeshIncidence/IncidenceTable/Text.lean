/-
# Incidence tables as text

A table has two written forms. The listing is for reading: a heading for each
row and its columns in fields of equal width. The saved form is for loading
again: the number of rows, the offsets, and the columns, one number a line. Free
slots are in neither, so both describe the packed table.

Loading takes the saved form with any blanks between the numbers and does not
look at what follows them. The numbers of offsets and columns to come are part
of the text and may promise more than it holds.
-/

import MeshIncidence.IncidenceTable.Basic
import MeshIncidence.Text.Scan

namespace MeshIncidence

/-- How a listing of a table is laid out. -/
structure ListingLayout where
  /-- How many columns stand on a line. -/
  perLine : Nat
  /-- How many characters each of them takes at least. -/
  fieldWidth : Nat
deriving DecidableEq, Repr

/-- Columns stand to the right of fields of five characters, four on a line
unless said otherwise. -/
def ListingLayout.standard : ListingLayout := ⟨4, 5⟩

/-- A number at the right of a field. A number longer than the field is written
in full. -/
def rightAligned (width number : Nat) : String :=
  let digits := toString number
  String.ofList (List.replicate (width - digits.length) ' ') ++ digits

/-- A number on a line of its own. -/
def numberLine (number : Nat) : String := toString number ++ "\n"

namespace IncidenceTable

/-- The fields of a row, with a line feed after each full line and at the end. -/
def listingFields (layout : ListingLayout) (entries : List Nat) : String :=
  let perLine := max layout.perLine 1
  let fields := entries.zipIdx.map fun (column, position) =>
    rightAligned layout.fieldWidth column ++ if (position + 1) % perLine = 0 then "\n" else ""
  String.join fields ++ if entries.length % perLine ≠ 0 then "\n" else ""

/-- The listing of a table. -/
def listing (table : IncidenceTable) (layout : ListingLayout) : Result String := do
  let rows ← table.rows
  let blocks := rows.zipIdx.map fun (entries, row) =>
    s!"[row {row}]\n" ++ listingFields layout entries
  return String.join blocks

/-- The numbers of the saved form, in order. -/
def savedNumbers (rows : List (List Nat)) : List Nat :=
  rows.length :: (offsetsFrom 0 (rows.map List.length) ++ rows.flatten)

/-- The saved form of a table. -/
def saved (table : IncidenceTable) : Result String := do
  let rows ← table.rows
  return String.join ((savedNumbers rows).map numberLine)

/-- Read one number of a saved table. -/
def readEntry (field : Field) : List (List Char) → Result (Nat × List (List Char))
  | [] => refuse (.text (.missing field))
  | token :: tokens =>
    match readWord? token with
    | some entry => .ok (entry, tokens)
    | none => refuse (.text (.invalidEntry (String.ofList token)))

/-- Read as many numbers of a saved table as are due. -/
def readEntries (field : Field) :
    Nat → List (List Char) → Result (List Nat × List (List Char))
  | 0, tokens => .ok ([], tokens)
  | count + 1, tokens => do
    let (entry, tokens) ← readEntry field tokens
    let (entries, tokens) ← readEntries field count tokens
    return (entry :: entries, tokens)

/-- Read a saved table from its tokens. -/
def ofWords (tokens : List (List Char)) : Result IncidenceTable := do
  let (rowCount, tokens) ← readEntry .rowCount tokens
  let (offsets, tokens) ← readEntries .rowOffset (rowCount + 1) tokens
  let (columns, _) ← readEntries .columnIndex (offsets.getLastD 0) tokens
  checked ⟨offsets.toArray, columns.toArray, none⟩

/-- Read a saved table from a text stored in UTF-8. -/
def load (bytes : ByteArray) : Result IncidenceTable := do
  let text ← decodeText bytes
  ofWords (words text)

end IncidenceTable

end MeshIncidence
