import DomBuilder.Text.Split

/-!
# Attributes of an element

An attribute is identified by its namespace and local name; a plain attribute has neither namespace
nor prefix. This file fixes the ordered list that an element keeps:

* `Attribute`: namespace, prefix, local name, value, and its qualified name;
* `AttributeList.get?`, `getNs?`: the first attribute of a qualified name, or of an identity;
* `AttributeList.set`, `setNs`: a match keeps its place, its prefix and its names and takes the new
  value, anything else goes to the end; either way the old value is given back.
-/

namespace DomBuilder

/-- One attribute. -/
structure Attribute where
  nsUri : Option String
  nsPrefix : Option String
  localName : String
  value : String
  deriving DecidableEq, Repr

namespace Attribute

/-- Without namespace and prefix. -/
def plain (name value : String) : Attribute :=
  { nsUri := none, nsPrefix := none, localName := name, value }

/-- The local name, after the prefix and a colon if there is a prefix. -/
def qualifiedName (a : Attribute) : String :=
  match a.nsPrefix with
  | some p => p ++ ":" ++ a.localName
  | none => a.localName

/-- The qualified name is `name`, where `name` is cut at its first colon. -/
def isNamed (name : String) (a : Attribute) : Bool :=
  match a.nsPrefix with
  | some p => Text.splitFirst ':' name = some (p, a.localName)
  | none => a.localName = name

/-- The identity is `nsUri` and `localName`. -/
def isIdentified (nsUri : Option String) (localName : String) (a : Attribute) : Bool :=
  a.nsUri = nsUri && a.localName = localName

end Attribute

/-- Attributes in the order in which they were first set. -/
structure AttributeList where
  toList : List Attribute := []
  deriving DecidableEq, Repr

namespace AttributeList

def empty : AttributeList := {}

def size (l : AttributeList) : Nat := l.toList.length

def isEmpty (l : AttributeList) : Bool := l.toList.isEmpty

/-! ## 1. Reading -/

def item? (l : AttributeList) (i : Nat) : Option Attribute := l.toList[i]?

/-- The first attribute with this qualified name. -/
def find? (l : AttributeList) (name : String) : Option Attribute :=
  l.toList.find? (Attribute.isNamed name)

/-- The first attribute with this identity. -/
def findNs? (l : AttributeList) (nsUri : Option String) (localName : String) : Option Attribute :=
  l.toList.find? (Attribute.isIdentified nsUri localName)

def get? (l : AttributeList) (name : String) : Option String := (l.find? name).map (·.value)

def getNs? (l : AttributeList) (nsUri : Option String) (localName : String) : Option String :=
  (l.findNs? nsUri localName).map (·.value)

def contains (l : AttributeList) (name : String) : Bool := (l.find? name).isSome

/-- The qualified names in order. -/
def names (l : AttributeList) : List String := l.toList.map (·.qualifiedName)

/-! ## 2. Writing -/

/-- Gives the first attribute that `p` accepts the value `v`, and says what its value was. -/
def replaceFirst? (p : Attribute → Bool) (v : String) :
    List Attribute → Option (String × List Attribute)
  | [] => none
  | a :: r =>
    if p a then some (a.value, { a with value := v } :: r)
    else
      match replaceFirst? p v r with
      | some (old, r') => some (old, a :: r')
      | none => none

/-- Replaces the value of the first match, or else appends `a`, whose value it is. -/
def put (l : AttributeList) (p : Attribute → Bool) (a : Attribute) :
    Option String × AttributeList :=
  match replaceFirst? p a.value l.toList with
  | some (old, l') => (some old, ⟨l'⟩)
  | none => (none, ⟨l.toList ++ [a]⟩)

/-- Sets by qualified name; a new attribute is plain. -/
def set (l : AttributeList) (name value : String) : Option String × AttributeList :=
  l.put (Attribute.isNamed name) (Attribute.plain name value)

/-- Sets by identity. -/
def setNs (l : AttributeList) (a : Attribute) : Option String × AttributeList :=
  l.put (Attribute.isIdentified a.nsUri a.localName) a

/-! ## 3. The value that is replaced is the one that was read -/

theorem replaceFirst?_map_fst (p : Attribute → Bool) (v : String) (l : List Attribute) :
    (replaceFirst? p v l).map (·.1) = (l.find? p).map (·.value) := by
  induction l with
  | nil => rfl
  | cons a r ih =>
    by_cases h : p a = true
    · simp [replaceFirst?, h]
    · simp only [replaceFirst?, h, List.find?_cons, ← ih]
      cases replaceFirst? p v r <;> simp

@[simp] theorem put_fst (l : AttributeList) (p : Attribute → Bool) (a : Attribute) :
    (l.put p a).1 = (l.toList.find? p).map (·.value) := by
  rw [← replaceFirst?_map_fst p a.value]
  unfold put
  cases replaceFirst? p a.value l.toList <;> rfl

end AttributeList

end DomBuilder
