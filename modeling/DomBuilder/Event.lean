import DomBuilder.NodeId
import DomBuilder.Text.Quoted

/-!
# Events

While it builds, a builder notes what it does. This file fixes the events, the level of each and the
text of its message:

* the start and the end of a call, and a prefix that is not in the table, are of level `debug`;
* each step of a call, and a node that leaves its place for another, is of level `trace`.
-/

namespace DomBuilder

inductive Level where
  | debug
  | trace
  deriving DecidableEq, Repr

/-- Something that was done or is about to be. -/
inductive Event where
  /-- An element was made. -/
  | building (tag : String) (id : NodeId)
  /-- An element is complete. -/
  | built (tag : String) (children : Nat)
  /-- A text is about to be appended. -/
  | appendingText (text : String) (element : NodeId)
  /-- The items of a list are about to be appended. -/
  | appendingList (size : Nat) (element : NodeId)
  /-- A node is about to be appended. -/
  | appendingNode (child element : NodeId)
  /-- A node is about to leave `source` for `target`. -/
  | moving (child source target : NodeId)
  /-- A prefix stands for itself. -/
  | unboundPrefix (p : String)
  /-- An attribute is about to be set. -/
  | setting (localName : String) (element : NodeId) (nsUri : Option String)
  deriving DecidableEq, Repr

namespace Event

def level : Event → Level
  | building .. | built .. | unboundPrefix _ => .debug
  | _ => .trace

def message : Event → String
  | building tag id => "Building <" ++ tag ++ "> as " ++ id.toString
  | built tag children => "Built <" ++ tag ++ ">: " ++ Nat.repr children ++ " children"
  | appendingText text element =>
    "Appending text " ++ Text.quote text ++ " to " ++ element.toString
  | appendingList size element =>
    "Appending list of " ++ Nat.repr size ++ " to " ++ element.toString
  | appendingNode child element =>
    "Appending node " ++ child.toString ++ " to " ++ element.toString
  | moving child source target =>
    "Re-parenting " ++ child.toString ++ " from " ++ source.toString ++ " to " ++ target.toString
  | unboundPrefix p =>
    "Namespace prefix " ++ Text.quote p ++ " is not in the table, using it as the URI"
  | setting localName element nsUri =>
    "Setting " ++ Text.quote localName ++ " on " ++ element.toString ++
      " (namespace " ++ Text.quoteOption nsUri ++ ")"

end Event

end DomBuilder
