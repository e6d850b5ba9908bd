/-
# Numbered pairs

The edges of a mesh are pairs of vertices, and each gets a number the first time
it is met: the first pair gets zero, and every new one the next number. Meeting
the same elements in the same order gives every edge the same number again.

A pair of row and column is kept in its row. An edge has no direction, so it is
kept with its smaller vertex as the row; the operations on directed pairs are
there as well, and a numbering may mix both.
-/

import MeshIncidence.Journal

namespace MeshIncidence

/-- Pairs of row and column with numbers in the order of their first occurrence. -/
structure PairNumbering where
  /-- For each row, its columns and the numbers of the pairs, as they came. -/
  rows : Array (List (Nat × Nat))
  /-- How many numbers are in use. -/
  count : Nat
deriving DecidableEq, Repr

/-- Bytes of one row without its entries. -/
def numberedRowBytes : Nat := 24

namespace PairNumbering

/-- The numbering without pairs that has a number of rows. -/
def empty (rowCount : Nat) : PairNumbering := ⟨Array.replicate rowCount [], 0⟩

/-- The numbering without pairs, if there is room for its rows. -/
def allocate (rowCount : Nat) : Result PairNumbering := do
  reserve rowCount numberedRowBytes
  return empty rowCount

variable (numbering : PairNumbering)

/-- Number of rows. -/
def rowCount : Nat := numbering.rows.size

/-- The columns of a row with their numbers; none past the last row. -/
def row (row : Nat) : List (Nat × Nat) := numbering.rows.getD row []

/-- The number of a directed pair. A row past the end has no pairs. -/
def directed? (row column : Nat) : Option Nat :=
  ((numbering.row row).find? fun entry => entry.1 == column).map Prod.snd

/-- The number of an undirected pair. -/
def find? (first second : Nat) : Option Nat :=
  if first ≤ second then numbering.directed? first second
  else numbering.directed? second first

/-- An undirected pair has one number, whichever of its members is named first. -/
theorem find?_comm (first second : Nat) :
    numbering.find? first second = numbering.find? second first := by
  unfold find?
  grind

/-- Find a directed pair or give it the next number. -/
def insertDirected (row column : Nat) : Result (Nat × PairNumbering) :=
  if numbering.rowCount ≤ row then refuse (.rowOutOfRange row numbering.rowCount)
  else
    match numbering.directed? row column with
    | some number => .ok (number, numbering)
    | none =>
      .ok (numbering.count,
        { rows := numbering.rows.setIfInBounds row
            (numbering.row row ++ [(column, numbering.count)])
          count := numbering.count + 1 })

/-- Find an undirected pair or give it the next number. -/
def insert (first second : Nat) : Result (Nat × PairNumbering) :=
  if first ≤ second then numbering.insertDirected first second
  else numbering.insertDirected second first

/-- Put an entry behind those of a row. -/
def addEntry (row column number : Nat) : PairNumbering :=
  { numbering with
    rows := numbering.rows.setIfInBounds row (numbering.row row ++ [(column, number)]) }

/-- Insert a directed pair into the numbering at hand: the pair is kept first, and its
number is in use afterwards. -/
def insertDirectedInPlace (row column : Nat) : Action PairNumbering Nat := do
  let numbering ← Action.state
  if numbering.rowCount ≤ row then
    Action.ofResult (refuse (.rowOutOfRange row numbering.rowCount))
  else
    match numbering.directed? row column with
    | some number => return number
    | none =>
      let number := numbering.count
      Action.change fun numbering => .ok (numbering.addEntry row column number)
      Action.change fun numbering => .ok { numbering with count := numbering.count + 1 }
      return number

/-- Insert an undirected pair into the numbering at hand. -/
def insertInPlace (first second : Nat) : Action PairNumbering Nat :=
  if first ≤ second then insertDirectedInPlace first second
  else insertDirectedInPlace second first

/-- Number some undirected pairs, in order. -/
def insertAll (pairs : List (Nat × Nat)) : Result PairNumbering :=
  pairs.foldlM
    (fun numbering pair => do
      let (_, numbering) ← numbering.insert pair.1 pair.2
      return numbering)
    numbering

/-- Every row, column and number, row by row. -/
def triples : List (Nat × Nat × Nat) :=
  numbering.rows.toList.zipIdx.flatMap fun (entries, row) =>
    entries.map fun (column, number) => (row, column, number)

/-- The pairs in the order of their numbers, each as its row and column. -/
def pairs : List (List Nat) :=
  (numbering.triples.foldl
    (fun pairs (row, column, number) => pairs.setIfInBounds number [row, column])
    (Array.replicate numbering.count [])).toList

/-- Go through triples, given the numbers met before: the numbers met in the end, or
the defect of the first triple whose number was met already or never handed out. -/
def checkNumbers (count : Nat) :
    List Nat → List (Nat × Nat × Nat) → Except InvariantDefect (List Nat)
  | seen, [] => .ok seen
  | seen, (row, column, number) :: triples =>
    if count ≤ number then .error (.numberOutside number row column count)
    else if number ∈ seen then .error (.numberRepeated number row column)
    else checkNumbers count (number :: seen) triples

/-- The first defect: every number below the count has to be used exactly once. -/
def defect? : Option Error :=
  match checkNumbers numbering.count [] numbering.triples with
  | .error defect => some (.invariant defect)
  | .ok seen =>
    ((List.range numbering.count).find? fun number => !seen.contains number).map
      fun number => .invariant (.numberMissing number)

end PairNumbering

end MeshIncidence
