import DomBuilder.Document.Walk
import DomBuilder.Markup.Escape
import DomBuilder.Namespace

/-!
# Markup of a document

This file fixes the text that a node and what lies under it are written as:

* text is escaped, except under the raw-text elements of HTML, told by their local name;
* an element is a start tag with its attributes in order, its children, and an end tag; the void
  elements of HTML, told by the name in the tag, have neither children nor end tag in markup;
* the prefix in an attribute's name is the usual one of the XML, XLink and XMLNS namespaces, except
  that `xmlns` of the last has none; it is the stored one of any other namespace, and none without a
  namespace;
* an id without a node is written as nothing.

`textContent` gives the texts alone. What lies under a node is nested at most as deep as there are
nodes, which bounds the recursion.
-/

namespace DomBuilder

namespace Markup

/-- Elements of HTML that have no end tag. -/
def voidElements : List String := [
  "area", "base", "basefont", "bgsound", "br", "col", "embed", "frame", "hr", "img", "input",
  "keygen", "link", "meta", "param", "source", "track", "wbr"]

/-- Elements of HTML whose text is written as it is. -/
def rawTextElements : List String := [
  "style", "script", "xmp", "iframe", "noembed", "noframes", "plaintext", "noscript"]

/-- A name, after the prefix and a colon if there is one. -/
def joinName : Option String → String → String
  | some p, l => p ++ ":" ++ l
  | none, l => l

/-- The prefix that an attribute is written with. -/
def writtenPrefix (a : Attribute) : Option String :=
  match a.nsUri with
  | none => none
  | some uri =>
    if uri = Namespace.xml then some "xml"
    else if uri = Namespace.xlink then some "xlink"
    else if uri = Namespace.xmlns then if a.localName = "xmlns" then none else some "xmlns"
    else a.nsPrefix

def writtenName (a : Attribute) : String := joinName (writtenPrefix a) a.localName

/-- An attribute in a start tag, after the space before it. -/
def writeAttribute (a : Attribute) : String :=
  " " ++ writtenName a ++ "=\"" ++ escapeValue a.value ++ "\""

def startTag (name : String) (attributes : AttributeList) : String :=
  "<" ++ name ++ String.join (attributes.toList.map writeAttribute) ++ ">"

def endTag (name : String) : String := "</" ++ name ++ ">"

end Markup

namespace Document

open Markup

/-! ## 1. Names and kinds of elements -/

/-- The name in an element's tags. -/
def tagName (d : Document) (e : Element) : String :=
  joinName (e.nsPrefix.map d.symbolText) (d.symbolText e.localName)

def isVoid (d : Document) (e : Element) : Bool :=
  d.isHtml e && voidElements.contains (d.tagName e)

def isRawText (d : Document) (e : Element) : Bool :=
  d.isHtml e && rawTextElements.contains (d.symbolText e.localName)

/-- Text under `parent`. -/
def writeText (d : Document) (parent : Option Element) (s : String) : String :=
  if parent.any d.isRawText then s else escapeText s

/-! ## 2. Markup -/

/-- The markup of a node, down to `n` levels. -/
def writeNode (d : Document) : Nat → NodeId → String
  | 0, _ => ""
  | n + 1, id =>
    match d.get? id with
    | none => ""
    | some node =>
      let inner := String.join ((d.children id).map fun c => d.writeNode n c)
      match node.content with
      | .document => inner
      | .text s => d.writeText (node.parent.bind d.element?) s
      | .element e =>
        let name := d.tagName e
        if d.isVoid e then startTag name e.attributes
        else startTag name e.attributes ++ inner ++ endTag name

/-- A node and what lies under it. -/
def outerHtml (d : Document) (id : NodeId) : String := d.writeNode d.size id

/-- What lies under a node. -/
def innerHtml (d : Document) (id : NodeId) : String :=
  String.join ((d.children id).map d.outerHtml)

/-! ## 3. Text -/

/-- The texts of a node and under it in order, down to `n` levels. -/
def collectText (d : Document) : Nat → NodeId → String
  | 0, _ => ""
  | n + 1, id =>
    match d.get? id with
    | none => ""
    | some node =>
      match node.content with
      | .text s => s
      | _ => String.join ((d.children id).map fun c => d.collectText n c)

def textContent (d : Document) (id : NodeId) : String := d.collectText d.size id

end Document

end DomBuilder
