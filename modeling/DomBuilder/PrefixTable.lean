import DomBuilder.Namespace
import Std.Data.ExtTreeMap

/-!
# Prefix tables

A prefix table binds the prefixes of attribute keys, and of the element namespace, to URIs. This
file fixes:

* `PrefixTable`: a finite map, so two tables are equal when they bind the same prefixes alike; its
  listing is sorted by prefix, in the order of code points;
* `default`: `svg`, `html` and `xlink`, the start of every table but the empty one;
* `resolve`: an unbound prefix stands for itself, so a URI can be given in place of a prefix.
-/

namespace DomBuilder

/-- URIs by prefix. -/
structure PrefixTable where
  bindings : Std.ExtTreeMap String String
  deriving DecidableEq

namespace PrefixTable

/-- Binds no prefix. -/
def empty : PrefixTable := ⟨∅⟩

/-- The URI of a bound prefix. -/
def get? (t : PrefixTable) (p : String) : Option String := t.bindings[p]?

/-- Binds `p`, and gives back the URI it was bound to. -/
def insert (t : PrefixTable) (p uri : String) : Option String × PrefixTable :=
  (t.get? p, ⟨t.bindings.insert p uri⟩)

/-- Binds `p`. -/
def set (t : PrefixTable) (p uri : String) : PrefixTable := (t.insert p uri).2

/-- Binds each pair in turn, so the last URI of a prefix stays. -/
def extend (t : PrefixTable) (pairs : List (String × String)) : PrefixTable :=
  pairs.foldl (fun t (p, uri) => t.set p uri) t

/-- The table of a fresh configuration. -/
def default : PrefixTable :=
  empty.extend [("svg", Namespace.svg), ("html", Namespace.html), ("xlink", Namespace.xlink)]

/-- The default table with the given pairs over it. -/
def ofOverrides (pairs : List (String × String)) : PrefixTable := default.extend pairs

/-- The URI of `p`, or `p` itself when it is unbound. -/
def resolve (t : PrefixTable) (p : String) : String := (t.get? p).getD p

def size (t : PrefixTable) : Nat := t.bindings.size

def isEmpty (t : PrefixTable) : Bool := t.bindings.isEmpty

/-- Prefixes and URIs, sorted by prefix. -/
def toList (t : PrefixTable) : List (String × String) := t.bindings.toList

/-! ## Reading after writing -/

/-- Tables that bind alike are equal. -/
theorem ext_get? {t u : PrefixTable} (h : ∀ p, t.get? p = u.get? p) : t = u := by
  cases t
  cases u
  exact congrArg _ (Std.ExtTreeMap.ext_getElem? h)

@[simp] theorem get?_empty (p : String) : empty.get? p = none := by
  simp [empty, get?]

@[simp] theorem get?_set (t : PrefixTable) (p q uri : String) :
    (t.set p uri).get? q = if p = q then some uri else t.get? q := by
  simp [set, insert, get?, Std.ExtTreeMap.getElem?_insert]

@[simp] theorem extend_nil (t : PrefixTable) : t.extend [] = t := rfl

@[simp] theorem extend_cons (t : PrefixTable) (p uri : String) (r : List (String × String)) :
    t.extend ((p, uri) :: r) = (t.set p uri).extend r := rfl

end PrefixTable

end DomBuilder
