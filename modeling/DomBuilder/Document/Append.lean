import DomBuilder.Document.Walk

/-!
# Moving nodes

This file fixes how a node gets its place and loses it:

* `detach`: takes a node out from between its siblings; a node without a parent stays as it is;
* `checkAppend`: the conditions of an append in the order in which they are reported. Both nodes
  exist; text has no children; the document is nobody's child; no node comes under itself; the
  document has no text and at most one element;
* `append`: makes a node the last child of another, out of its old place first.
-/

namespace DomBuilder.Document

/-! ## 1. Links -/

/-- Closes the gap that `id`, at the place of `node`, leaves under `parent`. -/
def unlink (d : Document) (id : NodeId) (node : Node) (parent : NodeId) : Document :=
  let d := match node.prevSibling with
    | some prev => d.update prev fun n => { n with nextSibling := node.nextSibling }
    | none => d.update parent fun n => { n with firstChild := node.nextSibling }
  let d := match node.nextSibling with
    | some next => d.update next fun n => { n with prevSibling := node.prevSibling }
    | none => d.update parent fun n => { n with lastChild := node.prevSibling }
  d.update id fun n => { n with parent := none, prevSibling := none, nextSibling := none }

/-- Puts `child` behind the last child of `parent`. -/
def link (d : Document) (parent child : NodeId) : Document :=
  let last := (d.get? parent).bind (·.lastChild)
  let d := d.update child fun n =>
    { n with parent := some parent, prevSibling := last, nextSibling := none }
  let d := match last with
    | some l => d.update l fun n => { n with nextSibling := some child }
    | none => d.update parent fun n => { n with firstChild := some child }
  d.update parent fun n => { n with lastChild := some child }

/-! ## 2. Detaching -/

/-- Takes a node from its parent. -/
def detach (id : NodeId) : DomM Unit := do
  let d ← .read
  match d.get? id with
  | none => .fail (.notFound id)
  | some node =>
    match node.parent with
    | none => pure ()
    | some parent => .modify fun d => d.unlink id node parent

/-- Detaching fails only where there is no node, and then it changes nothing. -/
theorem run_detach (id : NodeId) (d : Document) :
    (detach id).run d =
      match d.get? id with
      | none => (.error (.notFound id), d)
      | some node =>
        match node.parent with
        | none => (.ok (), d)
        | some parent => (.ok (), d.unlink id node parent) := by
  unfold detach
  simp only [Operation.run_bind, Operation.run_read]
  cases d.get? id with
  | none => rfl
  | some node => cases h : node.parent <;> simp [h]

/-! ## 3. Appending -/

/-- The first rule of the tree's shape that `child` under `parent` would break. -/
def hierarchyFault? (d : Document) (parent child : NodeId) (p c : NodeContent) :
    Option HierarchyFault :=
  if p.isText then some .textParent
  else if c.isDocument then some .documentChild
  else if d.isInclusiveAncestor child parent then some .containment
  else if p.isDocument ∧ c.isText then some .textUnderDocument
  else if p.isDocument ∧ (d.children parent).any (fun id => (d.element? id).isSome && id ≠ child)
  then some .secondElement
  else none

/-- Accepts an append that leaves a tree of possible shape. -/
def checkAppend (d : Document) (parent child : NodeId) : Except DomError Unit :=
  match d.get? parent with
  | none => .error (.notFound parent)
  | some p =>
    match d.get? child with
    | none => .error (.notFound child)
    | some c =>
      match d.hierarchyFault? parent child p.content c.content with
      | some fault => .error (.hierarchyFault fault)
      | none => .ok ()

/-- Takes a node from its parent, if it has one. -/
def leaveParent (id : NodeId) : DomM Unit := do
  let d ← .read
  if (d.parent? id).isSome then detach id else pure ()

/-- Makes `child` the last child of `parent`. -/
def append (parent child : NodeId) : DomM NodeId := do
  let d ← .read
  .ofExcept (d.checkAppend parent child)
  leaveParent child
  .modify fun d => d.link parent child
  return child

/-- An append is the check, the way out of the old place and the way into the new one. -/
theorem run_append (parent child : NodeId) (d : Document) :
    (append parent child).run d =
      match d.checkAppend parent child with
      | .error e => (.error e, d)
      | .ok () =>
        match (leaveParent child).run d with
        | (.error e, d') => (.error e, d')
        | (.ok (), d') => (.ok child, d'.link parent child) := by
  unfold append
  simp only [Operation.run_bind, Operation.run_read, Operation.run_ofExcept]
  cases d.checkAppend parent child with
  | error e => rfl
  | ok u => rcases h : (leaveParent child).run d with ⟨_ | _, d'⟩ <;> simp [h]

end DomBuilder.Document
