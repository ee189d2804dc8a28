import DomBuilder.PrefixTable

/-!
# Configurations

A configuration says in which namespace a builder makes its elements, and what the prefixes of
attribute keys stand for. This file fixes:

* without an element namespace, elements are HTML elements;
* an element namespace is a prefix of the table or a URI; the empty text, as long as the table does
  not bind it, makes elements without a namespace.
-/

namespace DomBuilder

/-- What a builder is set up with. -/
structure Config where
  elementNamespace : Option String := none
  prefixes : PrefixTable := PrefixTable.default
  deriving DecidableEq

namespace Config

def default : Config := {}

def withNamespace (c : Config) (ns : String) : Config := { c with elementNamespace := some ns }

def withPrefix (c : Config) (p uri : String) : Config :=
  { c with prefixes := c.prefixes.set p uri }

/-- The URI that new elements are created with; none for HTML elements. -/
def elementUri (c : Config) : Option String := c.elementNamespace.map c.prefixes.resolve

end Config

end DomBuilder
