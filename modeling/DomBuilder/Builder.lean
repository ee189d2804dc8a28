import DomBuilder.Argument
import DomBuilder.AttributeKey
import DomBuilder.Document.Append
import DomBuilder.Document.Create
import DomBuilder.Document.Write
import DomBuilder.Event
import DomBuilder.Tag

/-!
# Builders

A builder makes an element of a tag and puts an argument into it. This file fixes:

* `BuildM`: operations on a document that note events; what was noted and done before a failure
  stays;
* `BuildM.append`: an append that notes when the node leaves another place;
* `BuildM.add`: one argument, a list item by item, into an element;
* `BuildM.element`: the element first, then its argument;
* `Builder`: a document with a configuration. While the document is lent nothing can be built.
-/

namespace DomBuilder

/-! ## 1. Operations that note events -/

/-- A document being built on, and the events so far in order. -/
structure Progress where
  document : Document
  events : Array Event := #[]

/-- An operation that builds. -/
abbrev BuildM := Operation Progress

namespace BuildM

def note (e : Event) : BuildM Unit := .modify fun p => { p with events := p.events.push e }

/-- Notes the event if there is one. -/
def noteOption : Option Event → BuildM Unit
  | none => pure ()
  | some e => note e

/-- An operation on the document. -/
def onDocument {α : Type} (x : DomM α) : BuildM α :=
  x.within Progress.document fun document p => { p with document }

end BuildM

/-- The event of an append that will move `child` from one parent to another, or within one. -/
def Document.moveEvent? (d : Document) (parent child : NodeId) : Option Event :=
  match d.checkAppend parent child with
  | .error _ => none
  | .ok () => (d.parent? child).map fun source => .moving child source parent

namespace BuildM

/-- Makes `child` the last child of `parent`. -/
def append (parent child : NodeId) : BuildM NodeId := do
  let p ← .read
  noteOption (p.document.moveEvent? parent child)
  onDocument (Document.append parent child)

/-! ## 2. Arguments -/

/-- Puts a new text node into `element`. -/
def addText (element : NodeId) (s : String) : BuildM Unit := do
  let node ← onDocument (Document.createText s)
  let _ ← append element node

/-- Sets the attribute that `key` names. -/
def setKey (c : Config) (element : NodeId) (key value : String) : BuildM Unit := do
  let k := AttributeKey.ofKey key
  noteOption ((k.unboundPrefix? c).map .unboundPrefix)
  note (.setting k.localName element (k.nsUri c))
  match k.nsUri c with
  | some uri => onDocument (Document.setAttributeNs element (some uri) k.localName value)
  | none => onDocument (Document.setAttribute element k.localName value)

/-- Sets the attributes of a map in order; a map without keys is the text it reads as. -/
def addAttributes (c : Config) (element : NodeId) (m : AttributeMap) : BuildM Unit :=
  if m.isEmpty then addText element m.shownText
  else m.entries.forM fun (key, value) => setKey c element key value

mutual

/-- Puts one argument into `element`. -/
def add (c : Config) (element : NodeId) : Argument → BuildM Unit
  | .empty => pure ()
  | .text s => do
    note (.appendingText s element)
    addText element s
  | .list items => do
    note (.appendingList items.length element)
    addAll c element items
  | .node child => do
    note (.appendingNode child element)
    let _ ← append element child
  | .attributes m => addAttributes c element m

/-- Puts each argument into `element` in turn. -/
def addAll (c : Config) (element : NodeId) : List Argument → BuildM Unit
  | [] => pure ()
  | item :: rest => do
    add c element item
    addAll c element rest

end

/-! ## 3. Elements -/

/-- A new element: of the configured namespace, or else of HTML. -/
def createElement (c : Config) (tag : String) : DomM NodeId :=
  match c.elementUri with
  | some uri => Document.createElementNs (some uri) tag
  | none => Document.createElement tag

/-- A configured namespace is resolved by the prefix table; without one the element is of HTML. -/
theorem createElement_eq (c : Config) (tag : String) :
    createElement c tag =
      match c.elementNamespace with
      | some ns => Document.createElementNs (some (c.prefixes.resolve ns)) tag
      | none => Document.createElement tag := by
  rw [createElement, Config.elementUri]
  cases c.elementNamespace <;> rfl

/-- A new element with `content` in it, without a parent. -/
def element (c : Config) (tag : String) (content : Argument) : BuildM NodeId := do
  let id ← onDocument (createElement c tag)
  note (.building tag id)
  add c id content
  let p ← .read
  note (.built tag (p.document.childCount id))
  return id

end BuildM

/-! ## 4. Builders -/

/-- A document and how to build on it. The document may be `lent` to someone who reads or changes
    it meanwhile. -/
structure Builder where
  document : Document := Document.fresh
  config : Config := Config.default
  lent : Bool := false

/-- What an operation gave: its result, the builder after it and the events in order. -/
structure Outcome (α : Type) where
  result : Except DomError α
  builder : Builder
  events : List Event

namespace Builder

/-- Runs an operation, which needs the document for itself. -/
def run {α : Type} (b : Builder) (x : BuildM α) : Outcome α :=
  if b.lent then { result := .error .treeInUse, builder := b, events := [] }
  else
    let (result, p) := x.run { document := b.document }
    { result, builder := { b with document := p.document }, events := p.events.toList }

/-- Makes an element. -/
def build (b : Builder) (tag : String) (content : Argument) : Outcome NodeId :=
  b.run (BuildM.element b.config tag content)

/-- Makes an element of a registered tag. -/
def buildTag? (b : Builder) (tag : String) (content : Argument) : Option (Outcome NodeId) :=
  if Tag.isRegistered tag then some (b.build tag content) else none

/-- Makes an element out of the children of another node. -/
def buildFromChildren (b : Builder) (source : NodeId) (tag : String) : Outcome NodeId :=
  b.build tag (.list ((b.document.children source).map .node))

/-- The builder while its document is lent. -/
def lend (b : Builder) : Builder := { b with lent := true }

/-- The same document under another configuration. -/
def reconfigure (b : Builder) (config : Config) : Builder := { b with config }

end Builder

end DomBuilder
