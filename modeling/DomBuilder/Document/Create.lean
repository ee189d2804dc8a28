import DomBuilder.Document.Basic
import DomBuilder.Name.Qualified

/-!
# New nodes

This file fixes how elements and text nodes come into a document, each without a place in the tree:

* `createElement`: an HTML element, its name in ASCII lowercase;
* `createElementNs`: an element of any namespace, its name as given;
* `createText`: a text node.

Names are checked before any symbol is interned, so a refused name leaves no trace.
-/

namespace DomBuilder.Document

/-- An HTML element. The name may hold a colon, which then is part of the local name. -/
def createElement (name : String) : DomM NodeId := do
  .ofExcept (Name.check name)
  let localName ← intern name.toLower
  let html ← intern Namespace.html
  push (.element { nsUri := some html, nsPrefix := none, localName })

/-- The symbol of a text that may be missing. -/
def internOption : Option String → DomM (Option Symbol)
  | none => pure none
  | some s => do
    let y ← intern s
    return some y

/-- An element of `nsUri`, or of no namespace. -/
def createElementNs (nsUri : Option String) (name : String) : DomM NodeId := do
  let q ← .ofExcept (QualifiedName.extract nsUri name)
  let nsUri ← internOption q.nsUri
  let nsPrefix ← internOption q.nsPrefix
  let localName ← intern q.localName
  push (.element { nsUri, nsPrefix, localName })

/-- A text node. -/
def createText (s : String) : DomM NodeId := push (.text s)

end DomBuilder.Document
