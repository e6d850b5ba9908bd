/-
# Sets of refined meshes

After a mesh has been refined uniformly, its catalog still holds the numbers of
the old mesh, together with the old tables and counts. They tell where the new
vertices are: the middle of an edge follows after the old vertices, in the order
of the old edges, and the center of a face after those. An old entity is replaced
by its children, which are looked up in the refined mesh by their vertices.

In a set of `n` members the first child of a member takes its place, and the
other children of all members follow from position `n` on, family by family. When
a child cannot be found, the sets stay as they are at that moment: sets before
are done, sets after are untouched, and in the set at hand the children not found
yet leave the old number, or zero where none was.
-/

import MeshIncidence.SetCatalog.Basic
import MeshIncidence.Mesh.Refinement

namespace MeshIncidence

/-- The values of some outcomes up to the first failure. -/
def upToFailure {α : Type} : List (Result α) → List α × Option Failure
  | [] => ([], none)
  | .error failure :: _ => ([], some failure)
  | .ok value :: rest =>
    let (values, failure) := upToFailure rest
    (value :: values, failure)

/-- The families of some members up to the first child that is not found; the
last family is then incomplete. -/
def familiesUpToFailure (children : Nat → List (Result Nat)) :
    List Nat → List (List Nat) × Option Failure
  | [] => ([], none)
  | member :: members =>
    match upToFailure (children member) with
    | (family, some failure) => ([family], some failure)
    | (family, none) =>
      let (families, failure) := familiesUpToFailure children members
      (family :: families, failure)

/-- The members of a set with room for `size` children in each family, as far as
the families are known. Without failure every family is complete, and this is
`firstChildrenFirst`. -/
def spreadFamilies (size : Nat) (members : List Nat) (families : List (List Nat)) :
    List Nat :=
  let firsts := families.filterMap List.head?
  let others := families.flatMap List.tail
  firsts ++ members.drop firsts.length ++ others ++
    List.replicate ((size - 1) * members.length - others.length) 0

/-- Replace the members of some sets by their children, up to the first child
that is not found. The notes are those of the sets begun. -/
def splitSets (size : Nat) (children : Nat → List (Result Nat)) (noteOf : Nat → Note) :
    List (NamedSet Nat) → List (NamedSet Nat) × List Note × Option Failure
  | [] => ([], [], none)
  | set :: sets =>
    let (families, failure) := familiesUpToFailure children set.members
    let split := { set with members := spreadFamilies size set.members families }
    let note := noteOf set.members.length
    match failure with
    | some failure => (split :: sets, [note], some failure)
    | none =>
      let (rest, notes, failure) := splitSets size children noteOf sets
      (split :: rest, note :: notes, failure)

/-- An entry of a row. -/
def rowEntry (entries : List Nat) (position : Nat) : Result Nat :=
  match entries[position]? with
  | some entry => .ok entry
  | none => stop .outOfRange

namespace SetCatalog

variable (catalog : SetCatalog)

/-- The two halves of an old edge: from each of its vertices to its middle. -/
def edgeChildren (edgeVertex : IncidenceTable) (edges : PairNumbering) (edge : Nat) :
    List (Result Nat) :=
  match edgeVertex.row edge with
  | .error failure => [.error failure]
  | .ok ends =>
    [0, 1].map fun position => do
      let vertex ← rowEntry ends position
      let middle ← addWords catalog.vertexCount edge
      edges.edge vertex middle

/-- All pairs of different places in a list of middles, each with the next ones
after it, going around. -/
def middlePairs (middles : List Nat) : List (Nat × Nat) :=
  (List.range middles.length).flatMap fun first =>
    (List.range' 1 (middles.length - 1)).map fun step =>
      (middles.getD first 0, middles.getD ((first + step) % middles.length) 0)

/-- The child of an old face at a corner: the first face through the corner, two
of the middles and the center. -/
def faceChild (faces : FaceNumbering) (middles : List Nat) (center corner : Nat) :
    Result Nat :=
  let found := (middlePairs middles).findSome? fun (first, second) =>
    faces.find? [corner, first, second, center]
  match found with
  | some face => .ok face
  | none => refuse (.unknownEntity .face [corner, center])

/-- The corners of an old face, the middles of its edges, and its center, for a
quadrilateral. -/
def facePoints (faceVertex faceEdge : IncidenceTable) (firstCenter face : Nat) :
    Result (List Nat × List Nat × Nat) := do
  let corners ← faceVertex.row face
  if corners.length ≠ 4 then
    refuse (.mesh (.faceNotQuadrilateral face corners.length))
  else do
    let edges ← faceEdge.row face
    let middles ← edges.mapM (addWords catalog.vertexCount)
    let center ← addWords firstCenter face
    return (corners, middles, center)

/-- The four children of an old face, at each of its corners. -/
def faceChildren (faceVertex faceEdge : IncidenceTable) (faces : FaceNumbering)
    (firstCenter face : Nat) : List (Result Nat) :=
  match catalog.facePoints faceVertex faceEdge firstCenter face with
  | .error failure => [.error failure]
  | .ok (corners, middles, center) => corners.map (faceChild faces middles center)

/-- The children of an old element, of which it has `size`. -/
def elementFamily (size element : Nat) : Result (List Nat) := do
  let first ← addWords catalog.elementCount (← mulWords (size - 1) element)
  let others ← (List.range (size - 1)).mapM (addWords first)
  return element :: others

/-- Replace old elements by their children. -/
def splitElementSets (size : Nat) : Result (List (NamedSet Nat)) :=
  catalog.sets.element.mapM fun set => do
    let families ← set.members.mapM (catalog.elementFamily size)
    return { set with members := firstChildrenFirst families }

end SetCatalog

namespace Bound

variable {M : Type} [Connectivity M]

/-- Split the sets of a kind as far as their children are found. -/
def applySplit (kind : Kind)
    (split : List (NamedSet Nat) × List Note × Option Failure) : Action (Bound M) Unit := do
  let (sets, notes, failure) := split
  let bound ← Action.state
  notes.forM Action.note
  Action.setState { bound with
    catalog := { bound.catalog with sets := bound.catalog.sets.set kind sets } }
  match failure with
  | some failure => throw failure
  | none => return ()

/-- Replace old edges by their halves. -/
def splitEdgeSets : Action (Bound M) Unit := do
  let { catalog, mesh } ← Action.state
  if 0 < catalog.sets.count .edge then
    let edges ← Action.ofResult (Connectivity.edges mesh)
    match catalog.tables.edgeVertex with
    | none => throw (.refused (.missingTables [.edgeVertex]))
    | some edgeVertex =>
      applySplit .edge <|
        splitSets 2 (catalog.edgeChildren edgeVertex edges) .splitEdges catalog.sets.edge

/-- Replace old faces by their quarters. -/
def splitFaceSets : Action (Bound M) Unit := do
  let { catalog, mesh } ← Action.state
  if 0 < catalog.sets.count .face then
    let faces ← Action.ofResult (Connectivity.faces mesh)
    let firstCenter ← Action.ofResult (addWords catalog.vertexCount catalog.edgeCount)
    match catalog.tables.faceVertex, catalog.tables.faceEdge with
    | some faceVertex, some faceEdge =>
      applySplit .face <|
        splitSets 4 (catalog.faceChildren faceVertex faceEdge faces firstCenter)
          .splitFaces catalog.sets.face
    | _, _ => throw (.refused (.missingTables [.faceVertex, .faceEdge]))

/-- Replace old elements by their children, of which each has `size`. -/
def splitElementSets (size : Nat) : Action (Bound M) Unit := do
  let bound ← Action.state
  Action.note (.splitElements size bound.catalog.elementCount)
  let sets ← Action.ofResult (bound.catalog.splitElementSets size)
  Action.setState { bound with
    catalog := { bound.catalog with sets := bound.catalog.sets.set .element sets } }

/-- Let the sets follow a mesh of quadrilaterals that has been refined. -/
def followQuadrilaterals : Action (Bound M) Unit := do
  splitEdgeSets
  splitElementSets 4
  rebind

/-- Let the sets follow a mesh of hexahedra that has been refined. -/
def followHexahedra : Action (Bound M) Unit := do
  splitEdgeSets
  splitFaceSets
  splitElementSets 8
  rebind

end Bound

end MeshIncidence
