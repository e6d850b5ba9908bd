/-
# Ways an operation can fail

An operation ends in one of four ways. It succeeds; it refuses its input with an
`Error`, whose cause the caller can act on; it finds one of its own data
structures broken; or it runs into a `Fault`, a demand that has no answer at all,
such as an entry past the end of an array or a number that no machine word holds.

Errors are recorded by cause. The wording is in `Error.message` and in the
message functions of the causes, and nowhere else.
-/

import MeshIncidence.Entity.Kind
import MeshIncidence.Entity.CellShape

namespace MeshIncidence

/-- The tables a mesh derives from its elements. -/
inductive DerivedTable
  | edgeVertex
  | faceVertex
  | faceEdge
deriving DecidableEq, Repr

/-- The words used for a derived table in messages. -/
def DerivedTable.name : DerivedTable → String
  | .edgeVertex => "edge-vertex"
  | .faceVertex => "face-vertex"
  | .faceEdge => "face-edge"

/-- Why offsets and columns do not lay out a table. -/
inductive LayoutDefect
  /-- There is not even the first offset. -/
  | noOffsets
  /-- The first row does not start at the first slot. -/
  | firstOffset (offset : Nat)
  /-- A row ends before it starts. -/
  | descent (row : Nat)
  /-- The last row ends elsewhere than the stored columns. -/
  | endMismatch (lastOffset stored : Nat)
  /-- A column has no row in a transposed table of the requested size. -/
  | columnOutside (column rows : Nat)
  /-- A label has no row in a transposed table of the requested size. -/
  | labelOutside (label rows : Nat)
deriving DecidableEq, Repr

/-- The wording of a layout defect. -/
def LayoutDefect.message : LayoutDefect → String
  | .noOffsets => "empty offset array"
  | .firstOffset offset => s!"offsets[0] = {offset}, expected 0"
  | .descent row => s!"offsets decrease at row {row}"
  | .endMismatch lastOffset stored =>
    s!"offsets end at {lastOffset} but {stored} columns are stored"
  | .columnOutside column rows => s!"column {column} does not fit in {rows} transposed rows"
  | .labelOutside label rows => s!"label {label} does not fit in {rows} transposed rows"

/-- The places of a text at which a reader expects a value. -/
inductive Field
  | rowCount
  | rowOffset
  | columnIndex
  | dimension
  | setCount
  | setName (kind : Kind)
  | entityCount
  | vertexIndex
  | elementIndex
  | edgeVertex
  | faceGeometry
  | faceVertex
deriving DecidableEq, Repr

/-- The words used for a place of a text in messages. -/
def Field.name : Field → String
  | .rowCount => "row count"
  | .rowOffset => "row offset"
  | .columnIndex => "column index"
  | .dimension => "dimension"
  | .setCount => "number of sets"
  | .setName kind => s!"{kind.name} set name"
  | .entityCount => "number of entities"
  | .vertexIndex => "vertex index"
  | .elementIndex => "element index"
  | .edgeVertex => "edge vertex"
  | .faceGeometry => "face geometry type"
  | .faceVertex => "face vertex"

/-- Why a text is not a table or a set file. -/
inductive TextDefect
  /-- The text ends where a value is due. -/
  | missing (field : Field)
  /-- A token of a set file is not the number that is due. -/
  | invalid (field : Field) (token : String)
  /-- A token of a saved table is not a number. -/
  | invalidEntry (token : String)
  /-- A token differs from the keyword that is due. -/
  | unexpected (keyword token : String)
  /-- The text ends where a keyword is due. -/
  | missingKeyword (keyword : String)
deriving DecidableEq, Repr

/-- The wording of a text defect. -/
def TextDefect.message : TextDefect → String
  | .missing field => s!"missing {field.name}"
  | .invalid field token => s!"invalid {field.name}: `{token}`"
  | .invalidEntry token => s!"invalid table entry: {token}"
  | .unexpected keyword token => s!"expected `{keyword}`, found `{token}`"
  | .missingKeyword keyword => s!"missing `{keyword}`"

/-- Why an operation does not apply to a mesh. -/
inductive MeshDefect
  /-- An element has another dimension than the mesh. -/
  | wrongDimension (element : Nat) (shape : CellShape) (dimension : Nat)
  /-- An element has more or fewer vertices than its shape has corners. -/
  | wrongCornerCount (element : Nat) (shape : CellShape) (vertices : Nat)
  /-- Only meshes of quadrilaterals or of hexahedra are refined uniformly. -/
  | notUniform
  /-- A face is neither a triangle nor a quadrilateral. -/
  | faceSize (vertices : Nat)
  /-- A face to be split is no quadrilateral. -/
  | faceNotQuadrilateral (face vertices : Nat)
deriving DecidableEq, Repr

/-- The wording of a mesh defect. -/
def MeshDefect.message : MeshDefect → String
  | .wrongDimension element shape dimension =>
    s!"element {element} is a {shape.name} in a {dimension}D mesh"
  | .wrongCornerCount element shape vertices =>
    s!"element {element} has {vertices} vertices, a {shape.name} needs {shape.cornerCount}"
  | .notUniform => "uniform refinement needs an all-quad 2D or all-hex 3D mesh"
  | .faceSize vertices => s!"face with {vertices} vertices"
  | .faceNotQuadrilateral face vertices =>
    s!"face {face} has {vertices} vertices, uniform hex refinement needs quads"

/-- Why a data structure contradicts itself. -/
inductive InvariantDefect
  /-- A preallocated table has another number of fill counters than rows. -/
  | fillCount (counters rows : Nat)
  /-- A fill counter exceeds the capacity of its row. -/
  | overfilled (row used : Nat)
  /-- Two pairs have the same number. -/
  | numberRepeated (number row column : Nat)
  /-- A pair has a number that was never handed out. -/
  | numberOutside (number row column count : Nat)
  /-- No pair has a number that was handed out. -/
  | numberMissing (number : Nat)
  /-- A set holds an entity that its mesh does not have. -/
  | memberOutside (kind : Kind) (set : String) (member limit : Nat)
  /-- An entity of a snapshot has no vertex in a slot that its kind needs. -/
  | slotMissing (kind : Kind) (entity set slot : Nat)
deriving DecidableEq, Repr

/-- The wording of an invariant defect. -/
def InvariantDefect.message : InvariantDefect → String
  | .fillCount counters rows => s!"{counters} fill counters for {rows} rows"
  | .overfilled row used => s!"row {row} holds {used} entries beyond its capacity"
  | .numberRepeated number row column =>
    s!"index {number} assigned twice (at ({row}, {column}))"
  | .numberOutside number row column count =>
    s!"index {number} at ({row}, {column}) exceeds entry count {count}"
  | .numberMissing number => s!"index {number} never assigned"
  | .memberOutside kind set member limit =>
    s!"{kind.name} set `{set}` holds index {member}, limit is {limit}"
  | .slotMissing kind entity set slot =>
    s!"{kind.name} {entity} of set {set} lacks vertex slot {slot}"

/-- Why an operation refuses its input. -/
inductive Error
  | rowOutOfRange (row rows : Nat)
  | rowFull (row column : Nat)
  | shapeMismatch (columns rows : Nat)
  | layout (defect : LayoutDefect)
  | text (defect : TextDefect)
  | unknownFaceTag (tag : Int)
  | unknownEntity (kind : Kind) (vertices : List Nat)
  | unknownSetName (kind : Kind) (name : String)
  | missingTables (tables : List DerivedTable)
  | mesh (defect : MeshDefect)
  | invariant (defect : InvariantDefect)
  | notUnicode
deriving DecidableEq, Repr

/-- Numbers in brackets, divided by commas. -/
def bracketed (numbers : List Nat) : String :=
  "[" ++ ", ".intercalate (numbers.map toString) ++ "]"

/-- The wording of an error. -/
def Error.message : Error → String
  | .rowOutOfRange row rows => s!"row {row} out of range for table with {rows} rows"
  | .rowFull row column => s!"table row {row} is full; cannot insert column {column}"
  | .shapeMismatch columns rows =>
    s!"table shape mismatch: A has {columns} columns but B has {rows} rows"
  | .layout defect => s!"invalid CSR layout: {defect.message}"
  | .text defect => s!"entity set parse error: {defect.message}"
  | .unknownFaceTag tag => s!"unknown face geometry type: {tag}"
  | .unknownEntity kind vertices =>
    s!"no {kind.name} with vertices {bracketed vertices} in mesh"
  | .unknownSetName kind name => s!"unrecognized set name `{name}` for entity type {kind.name}"
  | .missingTables tables =>
    "missing " ++ "/".intercalate (tables.map DerivedTable.name) ++ " table"
  | .mesh defect => s!"unsupported mesh operation: {defect.message}"
  | .invariant defect => s!"invariant violated: {defect.message}"
  | .notUnicode => "stream did not contain valid UTF-8"

/-- A demand that has no answer. -/
inductive Fault
  /-- An entry past the end of an array, or a row that ends before it starts. -/
  | outOfRange
  /-- A number outside the machine word. -/
  | overflow
  /-- An array larger than any allocation. -/
  | storage
  /-- One more column than was counted for a row. -/
  | rowOverflow
deriving DecidableEq, Repr

/-- How an operation ends when it does not succeed. -/
inductive Failure
  /-- The input is refused; what the operation works on can be used further. -/
  | refused (error : Error)
  /-- A data structure contradicts itself. -/
  | broken (error : Error)
  /-- The demand has no answer. -/
  | fault (fault : Fault)
deriving DecidableEq, Repr

/-- The outcome of an operation. -/
abbrev Result (α : Type) := Except Failure α

/-- Refuse the input. -/
def refuse {α : Type} (error : Error) : Result α := .error (.refused error)

/-- Stop at a demand without an answer. -/
def stop {α : Type} (fault : Fault) : Result α := .error (.fault fault)

/-- The outcome of asking for the first defect of a data structure. -/
def accept : Option Error → Result Unit
  | none => .ok ()
  | some error => refuse error

/-- The outcome of relying on a data structure that may have a defect. -/
def insist : Option Error → Result Unit
  | none => .ok ()
  | some error => .error (.broken error)

end MeshIncidence
