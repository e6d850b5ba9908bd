/-
# Reading set files

Reading takes the title and the names by lines and everything else by tokens.
Remark lines may stand before the dimension and before every block header. The
counts are only promises: each set and each member takes up some of the text, so
reading ends with the text whatever the counts say.

Edges and faces are found in the mesh by their vertices; a mesh is asked for them
only when there are sets that need them. A text without the title is no set file
and is passed over. A set file that cannot be read changes nothing.
-/

import MeshIncidence.SetCatalog.Printer
import MeshIncidence.Mesh.Refinement

namespace MeshIncidence

/-- A number of an entity among so many. -/
def inRange (limit number : Nat) : Result Nat :=
  if number < limit then .ok number else refuse (.rowOutOfRange number limit)

namespace Scan

/-- Read a member of a vertex set. -/
def vertex (limit : Nat) : Scan Nat := do
  ofResult (inRange limit (← word .vertexIndex))

/-- Read a member of an element set. -/
def element (limit : Nat) : Scan Nat := do
  ofResult (inRange limit (← word .elementIndex))

/-- Read a member of an edge set. -/
def edge (edges : PairNumbering) : Scan Nat := do
  let first ← word .edgeVertex
  let second ← word .edgeVertex
  ofResult (edges.edge first second)

/-- Read a member of a face set. -/
def face (faces : FaceNumbering) : Scan Nat := do
  let tag ← signed .faceGeometry
  match CellShape.ofFaceTag? tag with
  | none => ofResult (refuse (.unknownFaceTag tag))
  | some shape =>
    let vertices ← times (word .faceVertex) shape.cornerCount
    ofResult (faces.face vertices)

variable {M : Type} [Connectivity M]

/-- How the members of a kind are read for a mesh. -/
def member (mesh : M) (kind : Kind) : Result (Scan Nat) :=
  match kind with
  | .vertex => .ok (vertex (Connectivity.vertexCount mesh))
  | .edge => (Connectivity.edges mesh).map edge
  | .face => (Connectivity.faces mesh).map face
  | .element => .ok (element (Connectivity.elementCount mesh))

/-- Read a set with a given way to read its members. -/
def namedSet (kind : Kind) (member : Scan Nat) : Scan (NamedSet Nat) := do
  blanks
  match ← line? with
  | none => fail (.missing (.setName kind))
  | some name =>
    let count ← word .entityCount
    let members ← times member count
    return ⟨String.ofList name, members⟩

/-- Read the block of a kind. -/
def block (mesh : M) (kind : Kind) : Scan (List (NamedSet Nat)) := do
  remarks
  keyword kind.header
  let count ← word .setCount
  if count = 0 then return []
  else
    let member ← ofResult (member mesh kind)
    times (namedSet kind member) count

/-- Read the block of a kind if a file of the given dimension has one. -/
def blockOf (mesh : M) (dimension : Nat) (kind : Kind) : Scan (List (NamedSet Nat)) :=
  if kind.hasBlock dimension then block mesh kind else return []

/-- Read all that follows the title of a set file. -/
def catalogSets (mesh : M) : Scan (SetsByKind Nat) := do
  remarks
  keyword dimensionKeyword
  let dimension ← word .dimension
  let vertex ← blockOf mesh dimension .vertex
  let edge ← blockOf mesh dimension .edge
  let face ← blockOf mesh dimension .face
  let element ← blockOf mesh dimension .element
  return ⟨vertex, edge, face, element⟩

end Scan

/-- The first line of a text after leading blanks, and what follows it. A text of
blanks has an empty first line. -/
def titleLine (text : List Char) : List Char × List Char :=
  (takeLine? (skipBlanks text)).getD ([], [])

namespace Bound

variable {M : Type} [Connectivity M]

/-- Replace the sets of a catalog by those of a set file stored in UTF-8, and bind
the catalog to the mesh. -/
def load (bytes : ByteArray) : Action (Bound M) Unit := do
  let bound ← Action.state
  let text ← Action.ofResult (decodeText bytes)
  let (title, rest) := titleLine text
  if String.ofList title ≠ setFileTitle then
    Action.note (.notSetFile (String.ofList title))
  else
    let (sets, _) ← Action.ofResult ((Scan.catalogSets bound.mesh).run rest)
    Action.setState { bound with catalog := { bound.catalog with sets := sets } }
    Action.note (.loaded sets.counts)
    rebind

end Bound

end MeshIncidence
