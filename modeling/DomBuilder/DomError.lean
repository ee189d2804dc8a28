import DomBuilder.NodeId
import DomBuilder.Text.Quoted

/-!
# Why a document operation fails

Each failure is one of the causes below, and carries what its message shows. This file fixes:

* `NamespaceFault`: a name and a namespace that do not go together;
* `HierarchyFault`: an append that would give a tree of impossible shape;
* `DomError`: these, and the causes that need no list of their own;
* `DomError.message`: the one text of each cause.
-/

namespace DomBuilder

/-- How a qualified name and its namespace disagree. -/
inductive NamespaceFault where
  /-- The name has a prefix, and there is no namespace for it to stand for. -/
  | prefixUnbound (name : String)
  /-- The prefix `xml` with another namespace than its own. -/
  | xmlPrefix
  /-- A name `xmlns` or a prefix `xmlns` without its namespace, or that namespace without either. -/
  | xmlnsName
  deriving DecidableEq, Repr

/-- How a node does not fit under another. -/
inductive HierarchyFault where
  | textParent
  | documentChild
  | containment
  | textUnderDocument
  | secondElement
  deriving DecidableEq, Repr

/-- The cause of a failed document operation. -/
inductive DomError where
  /-- The name, or the part of it that is shown, is no XML name. -/
  | invalidCharacter (name : String)
  | namespaceFault (fault : NamespaceFault)
  | hierarchyFault (fault : HierarchyFault)
  /-- The operation needs an element, and the node is none. -/
  | notAnElement (id : NodeId)
  /-- The document has no such node. -/
  | notFound (id : NodeId)
  /-- The document is lent to someone else. -/
  | treeInUse
  deriving DecidableEq, Repr

def NamespaceFault.message : NamespaceFault → String
  | prefixUnbound name => "prefix " ++ Text.quote name ++ " requires a namespace"
  | xmlPrefix => "the xml prefix is bound to the XML namespace"
  | xmlnsName => "xmlns names and the XMLNS namespace go together"

def HierarchyFault.message : HierarchyFault → String
  | textParent => "text nodes cannot have children"
  | documentChild => "the document cannot be appended"
  | containment => "a node cannot contain itself"
  | textUnderDocument => "text cannot be a child of the document"
  | secondElement => "the document already has an element"

def DomError.message : DomError → String
  | invalidCharacter name => "Invalid character in name: " ++ Text.quote name
  | namespaceFault f => "Namespace error: " ++ f.message
  | hierarchyFault f => "Hierarchy request error: " ++ f.message
  | notAnElement id => "Node " ++ id.toString ++ " is not an element"
  | notFound id => "Node " ++ id.toString ++ " not found"
  | treeInUse => "DOM tree is already in use"

end DomBuilder
