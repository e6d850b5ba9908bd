/-
# Meshes given by their elements

A mesh is a list of elements, each with a shape and its corner vertices. Edges
and faces are not given; they are the local edges and faces of the elements,
numbered in the order in which they are met first. Two elements share an edge or
a face when they have the same vertices there.

The counts of edges and faces are kept with the mesh. Derived tables are built on
demand and may be kept as well; `ElementMesh.edgeVertexTable` and the two
builders beside it say what they hold.
-/

import MeshIncidence.Mesh.Connectivity

namespace MeshIncidence

/-- An element of a mesh. -/
structure Element where
  shape : CellShape
  /-- The vertices at the corners, in the order of the shape's corners. -/
  vertices : List Nat
deriving DecidableEq, Repr

namespace Element

variable (element : Element)

/-- The vertex at a corner. Elements of a mesh have a vertex at each corner of
their shape. -/
def corner (position : Nat) : Nat := element.vertices.getD position 0

/-- The edges of the element by their vertices, in numbering order. -/
def edges : List (Nat × Nat) :=
  element.shape.edges.map fun (first, second) =>
    (element.corner first, element.corner second)

/-- The faces of the element by their vertices, in numbering order. -/
def faces : List (List Nat) :=
  element.shape.faces.map fun corners => corners.map element.corner

/-- The first defect of an element in a mesh of given dimension and number of
vertices. -/
def defect? (index dimension vertexCount : Nat) : Option Error :=
  if element.shape.dimension ≠ dimension then
    some (.mesh (.wrongDimension index element.shape dimension))
  else if element.vertices.length ≠ element.shape.cornerCount then
    some (.mesh (.wrongCornerCount index element.shape element.vertices.length))
  else
    (element.vertices.find? fun vertex => vertexCount ≤ vertex).map fun vertex =>
      .rowOutOfRange vertex vertexCount

end Element

/-- A mesh of elements. -/
structure ElementMesh where
  dimension : Nat
  vertexCount : Nat
  elements : List Element
  /-- Number of different local edges. -/
  edgeCount : Nat
  /-- Number of different local faces. -/
  faceCount : Nat
  /-- The derived tables kept with the mesh. -/
  tables : DerivedTables
deriving DecidableEq, Repr

/-- The sides of a face: each vertex with the next, and the last with the first. -/
def sides (vertices : List Nat) : List (Nat × Nat) :=
  vertices.zip (vertices.drop 1 ++ vertices.take 1)

/-- The number of the edge between two vertices. -/
def PairNumbering.edge (numbering : PairNumbering) (first second : Nat) : Result Nat :=
  match numbering.find? first second with
  | some number => .ok number
  | none => refuse (.unknownEntity .edge [first, second])

/-- Of some faces, those met for the first time, as they are met. The numbering
holds `count` faces before. -/
def firstFaces (count : Nat) : FaceNumbering → List (List Nat) → List (List Nat)
  | _, [] => []
  | numbering, vertices :: faces =>
    match numbering.insert? vertices with
    | some (number, numbering) =>
      if number = count then vertices :: firstFaces (count + 1) numbering faces
      else firstFaces count numbering faces
    | none => firstFaces count numbering faces

namespace ElementMesh

variable (mesh : ElementMesh)

/-- The local edges of all elements, in numbering order. -/
def localEdges : List (Nat × Nat) := mesh.elements.flatMap Element.edges

/-- The local faces of all elements, in numbering order. -/
def localFaces : List (List Nat) := mesh.elements.flatMap Element.faces

/-- Number the edges. -/
def edges : Result PairNumbering :=
  (PairNumbering.empty mesh.vertexCount).insertAll mesh.localEdges

/-- Number the faces. -/
def faces : Result FaceNumbering := FaceNumbering.empty.insertAll mesh.localFaces

/-- Count the edges and faces anew. -/
def recount : Result ElementMesh := do
  let edges ← mesh.edges
  let faces ← mesh.faces
  return { mesh with edgeCount := edges.count, faceCount := faces.count }

/-- A mesh of given elements. Every element has to be of the mesh's dimension,
with a vertex of the mesh at each corner; vertices may be repeated. There has to be
room for numbering the edges at as many vertices as are named, used or not. -/
def ofElements (dimension vertexCount : Nat) (elements : List Element) :
    Result ElementMesh := do
  accept <| elements.zipIdx.findSome? fun (element, index) =>
    element.defect? index dimension vertexCount
  reserve vertexCount numberedRowBytes
  recount ⟨dimension, vertexCount, elements, 0, 0, .none⟩

/-- Build the table of the two vertices of each edge, the smaller one first. -/
def edgeVertexTable : Result IncidenceTable := do
  let edges ← mesh.edges
  return .ofRows edges.pairs

/-- The vertices of each face, as the first element with that face lists them. -/
def faceRows : List (List Nat) := firstFaces 0 .empty mesh.localFaces

/-- Build the table of the vertices of each face. -/
def faceVertexTable : IncidenceTable := .ofRows mesh.faceRows

/-- Build the table of the edges of each face: the edge from each vertex of the
face to the next. -/
def faceEdgeTable : Result IncidenceTable := do
  let edges ← mesh.edges
  let rows ← mesh.faceRows.mapM fun vertices =>
    (sides vertices).mapM fun (first, second) => edges.edge first second
  return .ofRows rows

/-- Build a derived table. -/
def derive : DerivedTable → Result IncidenceTable
  | .edgeVertex => mesh.edgeVertexTable
  | .faceVertex => .ok mesh.faceVertexTable
  | .faceEdge => mesh.faceEdgeTable

/-- Keep all derived tables with the mesh; those of faces only in a mesh of
solids. -/
def keepTables : Result ElementMesh := do
  let edgeVertex ← mesh.derive .edgeVertex
  if 2 < mesh.dimension then
    let faceVertex ← mesh.derive .faceVertex
    let faceEdge ← mesh.derive .faceEdge
    return { mesh with tables := ⟨some edgeVertex, some faceVertex, some faceEdge⟩ }
  else
    return { mesh with tables := mesh.tables.set .edgeVertex (some edgeVertex) }

/-- Hand a derived table over, the kept one or else a new one. -/
def handOver (which : DerivedTable) : Result (IncidenceTable × ElementMesh) :=
  match mesh.tables.get which with
  | some table => .ok (table, { mesh with tables := mesh.tables.set which none })
  | none => do
    let table ← mesh.derive which
    return (table, mesh)

instance : Connectivity ElementMesh where
  dimension := dimension
  vertexCount := vertexCount
  edgeCount := edgeCount
  faceCount := faceCount
  elementCount mesh := mesh.elements.length
  edges := edges
  faces := faces
  kept := tables
  handOver which mesh := mesh.handOver which

end ElementMesh

end MeshIncidence
