import DomBuilder.Document.Basic

/-!
# Walks along the links

This file fixes the two ways through a document that its links give:

* `children`: from the first child along the next siblings;
* `path`: from a node along the parents; `isInclusiveAncestor` asks whether a node lies on it.

No walk in a tree meets a node twice, so the number of nodes bounds both.
-/

namespace DomBuilder.Document

/-! ## 1. Children -/

/-- At most `n` nodes from `start` along the next siblings. -/
def siblingsFrom (d : Document) : Nat → Option NodeId → List NodeId
  | 0, _ => []
  | _ + 1, none => []
  | n + 1, some id =>
    match d.get? id with
    | none => []
    | some node => id :: d.siblingsFrom n node.nextSibling

/-- The children of a node in order. -/
def children (d : Document) (id : NodeId) : List NodeId :=
  d.siblingsFrom d.size ((d.get? id).bind (·.firstChild))

def childCount (d : Document) (id : NodeId) : Nat := (d.children id).length

/-! ## 2. Ancestors -/

/-- At most `n` nodes from `id` along the parents. -/
def pathFrom (d : Document) : Nat → NodeId → List NodeId
  | 0, _ => []
  | n + 1, id =>
    match d.get? id with
    | none => []
    | some node =>
      match node.parent with
      | none => [id]
      | some p => id :: d.pathFrom n p

/-- The node and its ancestors, upward. -/
def path (d : Document) (id : NodeId) : List NodeId := d.pathFrom d.size id

/-- `ancestor` is `id` or lies above it. -/
def isInclusiveAncestor (d : Document) (ancestor id : NodeId) : Bool :=
  (d.path id).contains ancestor

end DomBuilder.Document
