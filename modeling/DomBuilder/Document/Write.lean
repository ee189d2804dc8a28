import DomBuilder.Document.Basic
import DomBuilder.Name.Qualified

/-!
# Writing to nodes

This file fixes the writes that leave the tree's shape alone:

* `setAttribute`: a plain attribute by qualified name, in ASCII lowercase on an HTML element;
* `setAttributeNs`: an attribute by namespace and local name;
* `overwriteAttribute?`, `overwriteAttributeNs?`: the same without checks and with the name as given;
* `replaceText?`: new content for a text node.

The checked writes look at the name first and at the node second. The unchecked ones give the old
text back with the new document, or nothing if the node is missing or of another kind.
-/

namespace DomBuilder.Document

/-! ## 1. Checked -/

/-- The node as an element, or why it is none. -/
def elementOf (d : Document) (id : NodeId) : Except DomError Element :=
  match d.get? id with
  | none => .error (.notFound id)
  | some node =>
    match node.content.element? with
    | none => .error (.notAnElement id)
    | some e => .ok e

/-- Gives the element `e` at `id` new attributes. -/
def putAttributes (d : Document) (id : NodeId) (e : Element) (l : AttributeList) : Document :=
  d.update id fun n => { n with content := .element { e with attributes := l } }

/-- The name under which a plain attribute of `e` is set. -/
def attributeName (d : Document) (e : Element) (name : String) : String :=
  if d.isHtml e then name.toLower else name

/-- Sets an attribute by qualified name. -/
def setAttribute (id : NodeId) (name value : String) : DomM Unit := do
  .ofExcept (Name.check name)
  let d ← .read
  let e ← .ofExcept (d.elementOf id)
  .modify fun d => d.putAttributes id e (e.attributes.set (d.attributeName e name) value).2

/-- Sets an attribute by namespace and local name. -/
def setAttributeNs (id : NodeId) (nsUri : Option String) (name value : String) : DomM Unit := do
  let q ← .ofExcept (QualifiedName.extract nsUri name)
  let d ← .read
  let e ← .ofExcept (d.elementOf id)
  .modify fun d => d.putAttributes id e
    (e.attributes.setNs { nsUri := q.nsUri, nsPrefix := q.nsPrefix, localName := q.localName, value }).2

/-! ## 2. Reading -/

def attributes? (d : Document) (id : NodeId) : Option AttributeList :=
  (d.element? id).map (·.attributes)

def getAttribute (d : Document) (id : NodeId) (name : String) : Option String :=
  (d.attributes? id).bind (·.get? name)

def getAttributeNs (d : Document) (id : NodeId) (nsUri : Option String) (localName : String) :
    Option String :=
  (d.attributes? id).bind (·.getNs? nsUri localName)

/-! ## 3. Unchecked -/

/-- Applies a write to the attributes of an element. -/
def overwrite? (d : Document) (id : NodeId) (write : AttributeList → Option String × AttributeList) :
    Option (Option String × Document) :=
  (d.element? id).map fun e =>
    ((write e.attributes).1, d.putAttributes id e (write e.attributes).2)

def overwriteAttribute? (d : Document) (id : NodeId) (name value : String) :
    Option (Option String × Document) :=
  d.overwrite? id (·.set name value)

def overwriteAttributeNs? (d : Document) (id : NodeId) (a : Attribute) :
    Option (Option String × Document) :=
  d.overwrite? id (·.setNs a)

/-- Gives a text node the content `s`. -/
def replaceText? (d : Document) (id : NodeId) (s : String) : Option (String × Document) :=
  (d.text? id).map fun old => (old, d.update id fun n => { n with content := .text s })

end DomBuilder.Document
