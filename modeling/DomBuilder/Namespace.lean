/-!
# Well-known namespace URIs

A namespace is named by its URI, compared character by character. This file fixes the five URIs
that rules elsewhere speak of:

* `html`: elements whose names and plain attribute names are lowercased, and whose markup knows
  void and raw-text elements;
* `svg`, `xlink`: bound to a prefix in every fresh prefix table;
* `xml`, `xmlns`: tied to the prefixes of the same name.
-/

namespace DomBuilder.Namespace

def html : String := "http://www.w3.org/1999/xhtml"

def svg : String := "http://www.w3.org/2000/svg"

def xlink : String := "http://www.w3.org/1999/xlink"

def xml : String := "http://www.w3.org/XML/1998/namespace"

def xmlns : String := "http://www.w3.org/2000/xmlns/"

end DomBuilder.Namespace
