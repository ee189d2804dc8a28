import DomBuilder.Attribute
import DomBuilder.NodeId
import DomBuilder.SymbolTable

/-!
# Nodes

This file fixes what a document stores for each node:

* its place: parent, first and last child, previous and next sibling, each an id or nothing. The
  last child makes appending independent of the number of children;
* its content: the document itself, text, or an element. An element's names are symbols of the
  document's table, and never change; its attributes are texts, and do.
-/

namespace DomBuilder

/-- Names and attributes of an element. -/
structure Element where
  nsUri : Option Symbol
  nsPrefix : Option Symbol
  localName : Symbol
  attributes : AttributeList := {}
  deriving DecidableEq, Repr

/-- What a node is. -/
inductive NodeContent where
  | document
  | text (s : String)
  | element (e : Element)
  deriving DecidableEq, Repr

/-- A node and its place. -/
structure Node where
  content : NodeContent
  parent : Option NodeId := none
  firstChild : Option NodeId := none
  lastChild : Option NodeId := none
  prevSibling : Option NodeId := none
  nextSibling : Option NodeId := none
  deriving DecidableEq, Repr

namespace NodeContent

def isDocument : NodeContent → Bool
  | document => true
  | _ => false

def isText : NodeContent → Bool
  | text _ => true
  | _ => false

def isElement : NodeContent → Bool
  | element _ => true
  | _ => false

def element? : NodeContent → Option Element
  | element e => some e
  | _ => none

def text? : NodeContent → Option String
  | text s => some s
  | _ => none

@[simp] theorem isText_text (s : String) : (text s).isText = true := rfl

@[simp] theorem isElement_element (e : Element) : (element e).isElement = true := rfl

@[simp] theorem element?_eq_some_iff (c : NodeContent) (e : Element) :
    c.element? = some e ↔ c = element e := by
  cases c <;> simp [element?]

end NodeContent

end DomBuilder
