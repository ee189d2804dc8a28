import DomBuilder.AttributeMap
import DomBuilder.Scalar

/-!
# Arguments

What goes into a new element is described by one argument, which may nest. This file fixes the
kinds, and how other values become arguments:

* nothing at all, text, an existing node, a list of arguments, an attribute map;
* a scalar is text as pages show it, except that a node id is the node;
* a missing optional value is nothing.
-/

namespace DomBuilder

/-- One item, or many, to put into an element. -/
inductive Argument where
  /-- Adds nothing. -/
  | empty
  /-- A text node. -/
  | text (s : String)
  /-- A node of the document, moved to the element. -/
  | node (id : NodeId)
  /-- Each in turn. -/
  | list (items : List Argument)
  /-- Attributes; a map without keys is the text it reads as. -/
  | attributes (m : AttributeMap)
  deriving Inhabited, Repr

namespace Argument

def isEmpty : Argument → Bool
  | empty => true
  | _ => false

def ofScalar : Scalar → Argument
  | .node id => node id
  | s => text s.toPageText

def ofOption : Option Argument → Argument
  | none => empty
  | some a => a

end Argument

end DomBuilder
