import DomBuilder.Node
import DomBuilder.Operation

/-!
# Documents

A document keeps all its nodes in one array and never drops one; an id is a place in it. This file
fixes:

* `Document`: the nodes and the symbols of their names. A fresh document has its document node only;
* `get?`, `update`: one node by its id; updating a node that is not there changes nothing;
* `push`: a new node gets the next id;
* `DomM`: the operations on a document.
-/

namespace DomBuilder

/-- Nodes by id, and the table that their symbols belong to. -/
structure Document where
  nodes : Array Node
  symbols : SymbolTable

/-- An operation on a document. -/
abbrev DomM := Operation Document

namespace Document

/-- The document with nothing in it. -/
def fresh : Document := { nodes := #[{ content := .document }], symbols := SymbolTable.initial }

def size (d : Document) : Nat := d.nodes.size

/-- There is no node but the document node. -/
def isEmpty (d : Document) : Bool := d.size ≤ 1

/-! ## 1. One node -/

def get? (d : Document) (id : NodeId) : Option Node := d.nodes[id.index]?

def contains (d : Document) (id : NodeId) : Bool := (d.get? id).isSome

/-- Applies `f` to the node. -/
def update (d : Document) (id : NodeId) (f : Node → Node) : Document :=
  { d with nodes := d.nodes.modify id.index f }

@[simp] theorem size_update (d : Document) (id : NodeId) (f : Node → Node) :
    (d.update id f).size = d.size := by
  simp [update, size]

@[simp] theorem symbols_update (d : Document) (id : NodeId) (f : Node → Node) :
    (d.update id f).symbols = d.symbols := rfl

/-- Updating touches the node with that id and no other. -/
theorem get?_update (d : Document) (id : NodeId) (f : Node → Node) (other : NodeId) :
    (d.update id f).get? other = if other = id then (d.get? other).map f else d.get? other := by
  by_cases h : other = id
  · subst h
    simp [update, get?, Array.getElem?_modify]
  · have : id.index ≠ other.index := fun e => h (NodeId.index_inj.1 e).symm
    simp [update, get?, Array.getElem?_modify, h, this]

/-! ## 2. What a node is -/

def element? (d : Document) (id : NodeId) : Option Element :=
  (d.get? id).bind (·.content.element?)

def text? (d : Document) (id : NodeId) : Option String := (d.get? id).bind (·.content.text?)

def parent? (d : Document) (id : NodeId) : Option NodeId := (d.get? id).bind (·.parent)

/-- The text of a symbol of the document. -/
def symbolText (d : Document) (y : Symbol) : String := d.symbols.text y

def localName? (d : Document) (id : NodeId) : Option String :=
  (d.element? id).map fun e => d.symbolText e.localName

def nsUri? (d : Document) (id : NodeId) : Option String :=
  (d.element? id).bind fun e => e.nsUri.map d.symbolText

/-- The element is in the HTML namespace: its symbol is the one that URI has. The write of a plain
    attribute asks for a namespace and for that symbol, markup for that symbol alone. The two agree,
    because the URI has a symbol in every document (`Tabled.nsUri_eq_lookup_iff`), so that an element
    without a namespace passes neither. -/
def isHtml (d : Document) (e : Element) : Bool :=
  e.nsUri.isSome && e.nsUri = d.symbols.lookup Namespace.html

/-! ## 3. New nodes and symbols -/

/-- Adds a node without a place. -/
def push (content : NodeContent) : DomM NodeId :=
  .step fun d => (NodeId.ofNat d.size, { d with nodes := d.nodes.push { content } })

/-- The symbol of `s`, new if need be. -/
def intern (s : String) : DomM Symbol :=
  .step fun d => ((d.symbols.intern s).1, { d with symbols := (d.symbols.intern s).2 })

@[simp] theorem run_push (content : NodeContent) (d : Document) :
    (push content).run d =
      (.ok (NodeId.ofNat d.size), { d with nodes := d.nodes.push { content } }) := rfl

@[simp] theorem run_intern (s : String) (d : Document) :
    (intern s).run d =
      (.ok (d.symbols.intern s).1, { d with symbols := (d.symbols.intern s).2 }) := rfl

end Document

end DomBuilder
