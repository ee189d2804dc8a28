import DomBuilder.Config
import DomBuilder.Text.Split

/-!
# Attribute keys

A key of an attribute map names an attribute, perhaps with a prefix. This file fixes how it is read:

* a key is cut at its last colon, so a URI may stand before the name;
* `_`, `_class` and `klass` name `class`, with or without a prefix;
* the prefix is resolved by the configuration; the empty URI, and no prefix, mean no namespace.
-/

namespace DomBuilder

/-- A key taken apart. -/
structure AttributeKey where
  nsPrefix : Option String
  localName : String
  deriving DecidableEq, Repr

namespace AttributeKey

/-- Names that stand in for `class`. -/
def classAliases : List String := ["_", "_class", "klass"]

def unalias (name : String) : String := if classAliases.contains name then "class" else name

/-- The parts of a key. -/
def ofKey (key : String) : AttributeKey :=
  match Text.splitLast ':' key with
  | some (p, l) => { nsPrefix := some p, localName := unalias l }
  | none => { nsPrefix := none, localName := unalias key }

/-- The namespace of the attribute. -/
def nsUri (k : AttributeKey) (c : Config) : Option String :=
  (k.nsPrefix.map c.prefixes.resolve).filter (· ≠ "")

/-- The prefix, if it is neither empty nor bound. -/
def unboundPrefix? (k : AttributeKey) (c : Config) : Option String :=
  k.nsPrefix.filter fun p => (c.prefixes.get? p).isNone && p ≠ ""

end AttributeKey

end DomBuilder
