import DomBuilder.Document.Append

/-!
# The links of a document, one by one

A node carries five links. This file fixes a view for each, so that a change of the document can be
told link by link and no later proof opens an update:

* `first?`, `last?`, `prev?`, `next?` beside `parent?`; a node that is not there has no links;
* `Detached`, `Linked`: what the node at `id` becomes when `c` leaves its place, and when `c` is put
  behind the last child of `p`; `get?_unlink` and `get?_link` say that this is all that happens;
* `detached`: the document in which `c` has no place, whether it had one or not.
-/

namespace DomBuilder

attribute [ext] Node

namespace Document

/-! ## 1. Views -/

def first? (d : Document) (id : NodeId) : Option NodeId := (d.get? id).bind (·.firstChild)

def last? (d : Document) (id : NodeId) : Option NodeId := (d.get? id).bind (·.lastChild)

def prev? (d : Document) (id : NodeId) : Option NodeId := (d.get? id).bind (·.prevSibling)

def next? (d : Document) (id : NodeId) : Option NodeId := (d.get? id).bind (·.nextSibling)

def content? (d : Document) (id : NodeId) : Option NodeContent := (d.get? id).map (·.content)

theorem contains_iff {d : Document} {id : NodeId} :
    d.contains id = true ↔ ∃ n, d.get? id = some n := by
  rw [contains, Option.isSome_iff_exists]

theorem contains_iff_lt {d : Document} {id : NodeId} : d.contains id = true ↔ id.index < d.size := by
  simp [contains, get?, size]

theorem get?_of_not_contains {d : Document} {id : NodeId} (h : ¬ d.contains id = true) :
    d.get? id = none := by
  simpa [contains] using h

theorem contains_of_parent? {d : Document} {id p : NodeId} (h : d.parent? id = some p) :
    d.contains id = true := by
  obtain ⟨n, hn, _⟩ := Option.bind_eq_some_iff.mp h
  exact contains_iff.mpr ⟨n, hn⟩

theorem contains_of_first? {d : Document} {id p : NodeId} (h : d.first? id = some p) :
    d.contains id = true := by
  obtain ⟨n, hn, _⟩ := Option.bind_eq_some_iff.mp h
  exact contains_iff.mpr ⟨n, hn⟩

theorem contains_of_content? {d : Document} {id : NodeId} {c : NodeContent}
    (h : d.content? id = some c) : d.contains id = true := by
  obtain ⟨n, hn, _⟩ := Option.map_eq_some_iff.mp h
  exact contains_iff.mpr ⟨n, hn⟩

theorem exists_content? {d : Document} {id : NodeId} (h : d.contains id = true) :
    ∃ k, d.content? id = some k := by
  obtain ⟨n, hn⟩ := contains_iff.mp h
  exact ⟨n.content, by rw [content?, hn]; rfl⟩

theorem element?_eq_some_iff {d : Document} {id : NodeId} {e : Element} :
    d.element? id = some e ↔ d.content? id = some (.element e) := by
  simp [element?, content?, Option.bind_eq_some_iff]

theorem contains_of_element? {d : Document} {id : NodeId} {e : Element}
    (h : d.element? id = some e) : d.contains id = true :=
  contains_of_content? (element?_eq_some_iff.mp h)

theorem text?_eq_some_iff {d : Document} {id : NodeId} {s : String} :
    d.text? id = some s ↔ d.content? id = some (.text s) := by
  unfold text? content?
  cases d.get? id with
  | none => simp
  | some n => cases hc : n.content <;> simp [NodeContent.text?, hc]

theorem element?_eq_content? (d : Document) (id : NodeId) :
    d.element? id = (d.content? id).bind NodeContent.element? := by
  unfold element? content?
  cases d.get? id <;> rfl

theorem isSome_element? {d : Document} {id : NodeId} {k : NodeContent}
    (h : d.content? id = some k) : (d.element? id).isSome = k.isElement := by
  rw [element?_eq_content?, h]
  cases k <;> rfl

theorem text?_eq_content? (d : Document) (id : NodeId) :
    d.text? id = (d.content? id).bind NodeContent.text? := by
  unfold text? content?
  cases d.get? id <;> rfl

/-- Every node of an updated document is the old one or its update. -/
theorem get?_update_map (d : Document) (id : NodeId) (f : Node → Node) (x : NodeId) :
    (d.update id f).get? x = (d.get? x).map fun n => if x = id then f n else n := by
  rw [get?_update]
  by_cases h : x = id
  · simp [h]
  · simp [h]

/-! ## 2. Out of a place -/

/-- The node `n` at `x` after `c`, whose node was `node`, has left its place under `p`. -/
def Detached (c : NodeId) (node : Node) (p x : NodeId) (n : Node) : Node :=
  { n with
    parent := if x = c then none else n.parent
    firstChild := if x = p ∧ node.prevSibling = none then node.nextSibling else n.firstChild
    lastChild := if x = p ∧ node.nextSibling = none then node.prevSibling else n.lastChild
    prevSibling :=
      if x = c then none else if node.nextSibling = some x then node.prevSibling else n.prevSibling
    nextSibling :=
      if x = c then none else if node.prevSibling = some x then node.nextSibling else n.nextSibling }

theorem get?_unlink (d : Document) (c : NodeId) (node : Node) (p x : NodeId) :
    (d.unlink c node p).get? x = (d.get? x).map (Detached c node p x) := by
  unfold unlink
  cases hp : node.prevSibling <;> cases hn : node.nextSibling <;>
    simp only [get?_update_map, Option.map_map] <;> congr 1 <;> funext n <;> ext1 <;>
    simp only [Function.comp_apply, Detached, hp, hn, Option.some.injEq] <;> grind

@[simp] theorem parent?_unlink (d : Document) (c : NodeId) (node : Node) (p x : NodeId) :
    (d.unlink c node p).parent? x = if x = c then none else d.parent? x := by
  unfold parent?
  rw [get?_unlink]
  by_cases h : x = c
  · rw [if_pos h]
    cases d.get? x with
    | none => rfl
    | some n => exact if_pos h
  · rw [if_neg h]
    cases d.get? x with
    | none => rfl
    | some n => exact if_neg h

section Views

variable {d : Document} {c p x : NodeId} {node : Node} (hx : d.contains x = true)
include hx

theorem first?_unlink : (d.unlink c node p).first? x =
    if x = p ∧ node.prevSibling = none then node.nextSibling else d.first? x := by
  obtain ⟨n, hn⟩ := contains_iff.mp hx
  simp [first?, get?_unlink, hn, Detached]

theorem last?_unlink : (d.unlink c node p).last? x =
    if x = p ∧ node.nextSibling = none then node.prevSibling else d.last? x := by
  obtain ⟨n, hn⟩ := contains_iff.mp hx
  simp [last?, get?_unlink, hn, Detached]

theorem prev?_unlink : (d.unlink c node p).prev? x =
    if x = c then none else if node.nextSibling = some x then node.prevSibling else d.prev? x := by
  obtain ⟨n, hn⟩ := contains_iff.mp hx
  simp [prev?, get?_unlink, hn, Detached]

theorem next?_unlink : (d.unlink c node p).next? x =
    if x = c then none else if node.prevSibling = some x then node.nextSibling else d.next? x := by
  obtain ⟨n, hn⟩ := contains_iff.mp hx
  simp [next?, get?_unlink, hn, Detached]

end Views

@[simp] theorem size_unlink (d : Document) (c : NodeId) (node : Node) (p : NodeId) :
    (d.unlink c node p).size = d.size := by
  unfold unlink
  cases node.prevSibling <;> cases node.nextSibling <;> simp

@[simp] theorem symbols_unlink (d : Document) (c : NodeId) (node : Node) (p : NodeId) :
    (d.unlink c node p).symbols = d.symbols := by
  unfold unlink
  cases node.prevSibling <;> cases node.nextSibling <;> rfl

/-- The document with `c` out of its place. -/
def detached (d : Document) (c : NodeId) : Document :=
  match d.get? c with
  | none => d
  | some node =>
    match node.parent with
    | none => d
    | some p => d.unlink c node p

theorem detached_of_parent? {d : Document} {c p : NodeId} {node : Node} (hc : d.get? c = some node)
    (hp : node.parent = some p) : d.detached c = d.unlink c node p := by
  simp only [detached, hc, hp]

theorem detached_of_no_parent {d : Document} {c : NodeId} (h : d.parent? c = none) :
    d.detached c = d := by
  unfold detached
  cases hc : d.get? c with
  | none => rfl
  | some node =>
    have hn : node.parent = none := by simpa [parent?, hc] using h
    simp only [hn]

theorem parent?_detached (d : Document) (c x : NodeId) :
    (d.detached c).parent? x = if x = c then none else d.parent? x := by
  cases hc : d.parent? c with
  | none =>
    rw [detached_of_no_parent hc]
    by_cases hx : x = c
    · rw [if_pos hx, hx, hc]
    · rw [if_neg hx]
  | some p =>
    obtain ⟨node, hnode, hp⟩ := Option.bind_eq_some_iff.mp hc
    rw [detached_of_parent? hnode hp, parent?_unlink]

theorem snd_run_detach (d : Document) (c : NodeId) : ((detach c).run d).2 = d.detached c := by
  rw [run_detach, detached]
  cases d.get? c with
  | none => rfl
  | some node => cases hp : node.parent <;> simp only [hp]

@[simp] theorem size_detached (d : Document) (c : NodeId) : (d.detached c).size = d.size := by
  unfold detached
  split
  · rfl
  · split <;> simp

@[simp] theorem symbols_detached (d : Document) (c : NodeId) :
    (d.detached c).symbols = d.symbols := by
  unfold detached
  split
  · rfl
  · split <;> simp

/-! ## 3. Into a place -/

/-- The node `n` at `x` after `c` was put behind `last`, the last child of `p`. -/
def Linked (p c : NodeId) (last : Option NodeId) (x : NodeId) (n : Node) : Node :=
  { n with
    parent := if x = c then some p else n.parent
    firstChild := if x = p ∧ last = none then some c else n.firstChild
    lastChild := if x = p then some c else n.lastChild
    prevSibling := if x = c then last else n.prevSibling
    nextSibling := if last = some x then some c else if x = c then none else n.nextSibling }

theorem get?_link (d : Document) (p c x : NodeId) :
    (d.link p c).get? x = (d.get? x).map (Linked p c (d.last? p) x) := by
  unfold link last?
  cases (d.get? p).bind (·.lastChild) <;>
    simp only [get?_update_map, Option.map_map] <;> congr 1 <;> funext n <;> ext1 <;>
    simp only [Function.comp_apply, Linked, Option.some.injEq] <;> grind

theorem parent?_link {d : Document} {c : NodeId} (hc : d.contains c = true) (p x : NodeId) :
    (d.link p c).parent? x = if x = c then some p else d.parent? x := by
  by_cases hx : x = c
  · obtain ⟨n, hn⟩ := contains_iff.mp hc
    simp [parent?, get?_link, hx, hn, Linked]
  · unfold parent?
    rw [get?_link, if_neg hx]
    cases d.get? x with
    | none => rfl
    | some n => exact if_neg hx

section Views

variable {d : Document} {p c x : NodeId} (hx : d.contains x = true)
include hx

theorem first?_link : (d.link p c).first? x =
    if x = p ∧ d.last? p = none then some c else d.first? x := by
  obtain ⟨n, hn⟩ := contains_iff.mp hx
  simp [first?, get?_link, hn, Linked]

theorem last?_link : (d.link p c).last? x = if x = p then some c else d.last? x := by
  obtain ⟨n, hn⟩ := contains_iff.mp hx
  simp [last?, get?_link, hn, Linked]

theorem prev?_link : (d.link p c).prev? x = if x = c then d.last? p else d.prev? x := by
  obtain ⟨n, hn⟩ := contains_iff.mp hx
  simp [prev?, get?_link, hn, Linked]

theorem next?_link : (d.link p c).next? x =
    if d.last? p = some x then some c else if x = c then none else d.next? x := by
  obtain ⟨n, hn⟩ := contains_iff.mp hx
  simp [next?, get?_link, hn, Linked]

end Views

@[simp] theorem size_link (d : Document) (p c : NodeId) : (d.link p c).size = d.size := by
  unfold link
  cases (d.get? p).bind (·.lastChild) <;> simp

@[simp] theorem symbols_link (d : Document) (p c : NodeId) : (d.link p c).symbols = d.symbols := by
  unfold link
  cases (d.get? p).bind (·.lastChild) <;> rfl

/-! ## 4. The views after a change -/

/-- A change of links leaves every content as it is. -/
@[simp] theorem content?_detached (d : Document) (c x : NodeId) :
    (d.detached c).content? x = d.content? x := by
  unfold detached
  split
  · rfl
  · split
    · rfl
    · simp [content?, get?_unlink, Function.comp_def, Detached]

@[simp] theorem content?_link (d : Document) (p c x : NodeId) :
    (d.link p c).content? x = d.content? x := by
  simp [content?, get?_link, Function.comp_def, Linked]

@[simp] theorem contains_detached (d : Document) (c x : NodeId) :
    (d.detached c).contains x = d.contains x := by
  rw [Bool.eq_iff_iff, contains_iff_lt, contains_iff_lt, size_detached]

@[simp] theorem contains_link (d : Document) (p c x : NodeId) :
    (d.link p c).contains x = d.contains x := by
  rw [Bool.eq_iff_iff, contains_iff_lt, contains_iff_lt, size_link]

end Document

end DomBuilder
