/-
# Descendants of mesh entities

When a mesh is refined in some places only, its edges and faces are numbered
anew, and an entity of the old mesh has become some entities of the new one. A
`Lineage` answers which. Old entities are named by their vertices, elements by
their old numbers. Nothing is assumed about the answers; in particular an entity
may have no descendants, and the same one may descend from several.
-/

namespace MeshIncidence

/-- What has become of the entities of an old mesh. -/
structure Lineage where
  /-- The edge that joins two vertices, if there is one. -/
  joins : Nat → Nat → Option Nat
  /-- The edges that an edge has become. -/
  edges : Nat → Nat → List Nat
  /-- The faces that a face of three or four vertices has become. -/
  faces : Nat → Nat → Nat → Option Nat → List Nat
  /-- The elements that an element has become. -/
  elements : Nat → List Nat

namespace Lineage

/-- The descendants written down for the first entry with a given key. -/
def lookUp {α : Type} [BEq α] (entries : List (α × List Nat)) (key : α) : List Nat :=
  (entries.lookup key).getD []

/-- A lineage written down. Two vertices are joined by the first edge with these
vertices in either order; descendants are found under the vertices in just the
order written down. -/
def tabulated (edges : List (Nat × Nat)) (edgeChildren : List ((Nat × Nat) × List Nat))
    (faceChildren : List ((Nat × Nat × Nat × Option Nat) × List Nat))
    (elementChildren : List (Nat × List Nat)) : Lineage where
  joins first second :=
    edges.findIdx? fun edge => edge == (first, second) || edge == (second, first)
  edges first second := lookUp edgeChildren (first, second)
  faces first second third fourth := lookUp faceChildren (first, second, third, fourth)
  elements element := lookUp elementChildren element

end Lineage

end MeshIncidence
