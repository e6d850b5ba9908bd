/-
# Writing set files

A set file starts with a title and the dimension and goes on with one block for
each kind of entity the dimension admits. A block has a header and the number of
its sets, and each set a name, the number of its members and the members:
vertices and elements by their numbers, edges by their two vertices, faces by a
tag and their vertices. The tag is one less than the number of vertices.

A name is written as it is, so only names without line feeds keep their place.
-/

import MeshIncidence.SetCatalog.Basic
import MeshIncidence.Text.Scan

namespace MeshIncidence

/-- The first line of a set file. -/
def setFileTitle : String := "MFEM sets v1.0"

/-- The word before the dimension of a set file. -/
def dimensionKeyword : String := "dimension"

/-- The kinds of entity that have a block in a set file of a given dimension. -/
def Kind.hasBlock (dimension : Nat) : Kind → Bool
  | .edge => 1 < dimension
  | .face => 2 < dimension
  | _ => true

/-- Numbers divided by spaces. -/
def spaced (numbers : List Nat) : String := " ".intercalate (numbers.map toString)

/-- The lines that open a block. -/
def blockOpening (kind : Kind) (sets : Nat) : String := s!"{kind.header}\n{sets}\n\n"

/-- The lines that open a set. -/
def setOpening (name : String) (members : Nat) : String := s!"{name}\n{members}\n"

/-- The two vertices of an edge. -/
def edgeText : List Nat → Result String
  | first :: second :: _ => .ok (spaced [first, second])
  | _ => stop .outOfRange

/-- The line of a face. -/
def faceLine (vertices : List Nat) : Result String :=
  if vertices.isEmpty then stop .overflow
  else .ok (s!"{vertices.length - 1} " ++ spaced vertices ++ "\n")

namespace SetCatalog

variable (catalog : SetCatalog)

/-- The row of a copied table that stands for a member. -/
def memberRow (which : DerivedTable) (member : Nat) : Result (List Nat) :=
  match catalog.tables.get which with
  | none => refuse (.missingTables [which])
  | some table =>
    if table.rowCount ≤ member then refuse (.rowOutOfRange member table.rowCount)
    else table.row member

/-- The text of a set written by numbers. A set without members has no line for
them. -/
def numberSet (set : NamedSet Nat) : String :=
  setOpening set.name set.members.length ++
    if set.members.isEmpty then "" else spaced set.members ++ "\n\n"

/-- The block of a kind, written by numbers. -/
def numberBlock (kind : Kind) : String :=
  blockOpening kind (catalog.sets.count kind) ++
    String.join ((catalog.sets.get kind).map numberSet)

/-- The text of an edge set. A set without members has no line for them. -/
def edgeSet (set : NamedSet Nat) : Result String := do
  let pairs ← set.members.mapM fun edge => do
    edgeText (← catalog.memberRow .edgeVertex edge)
  return setOpening set.name set.members.length ++
    if set.members.isEmpty then "" else " ".intercalate pairs ++ "\n\n"

/-- The block of the edge sets. -/
def edgeBlock : Result String := do
  let sets ← catalog.sets.edge.mapM catalog.edgeSet
  return blockOpening .edge (catalog.sets.count .edge) ++ String.join sets

/-- The text of a face set: a line for each face, and an empty line in any case. -/
def faceSet (set : NamedSet Nat) : Result String := do
  let lines ← set.members.mapM fun face => do
    faceLine (← catalog.memberRow .faceVertex face)
  return setOpening set.name set.members.length ++ String.join lines ++ "\n"

/-- The block of the face sets. -/
def faceBlock : Result String := do
  let sets ← catalog.sets.face.mapM catalog.faceSet
  return blockOpening .face (catalog.sets.count .face) ++ String.join sets

/-- The block of a kind as a set file has it. -/
def block (kind : Kind) : Result String :=
  match kind with
  | .vertex => .ok (catalog.numberBlock .vertex)
  | .edge => catalog.edgeBlock
  | .face => catalog.faceBlock
  | .element => .ok (catalog.numberBlock .element)

/-- The set file of a catalog. -/
def render : Result String := do
  let blocks ← (Kind.all.filter (Kind.hasBlock catalog.dimension)).mapM catalog.block
  return s!"{setFileTitle}\n\n{dimensionKeyword}\n{catalog.dimension}\n\n" ++
    String.join blocks

end SetCatalog

end MeshIncidence
