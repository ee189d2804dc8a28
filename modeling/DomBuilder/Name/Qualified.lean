import DomBuilder.Name
import DomBuilder.Namespace
import DomBuilder.Text.Split

/-!
# Qualified names

A qualified name is a local name, or a prefix and a local name around one colon. Creating an
element or setting an attribute in a namespace takes it apart and holds it against the namespace.
This file fixes:

* `QualifiedName`: a namespace (or none), a prefix (or none) and a local name;
* `splitName`: the two parts of a name, refused unless the colon stands alone between them;
* `namespaceFault?`: the first rule that a prefix and a namespace break;
* `QualifiedName.extract`: the whole check. The empty namespace is no namespace, and of two faults
  the name's comes before the namespace's.
-/

namespace DomBuilder

/-- A name taken apart. -/
structure QualifiedName where
  nsUri : Option String
  nsPrefix : Option String
  localName : String
  deriving DecidableEq, Repr

namespace Name

/-! ## 1. The parts of a name -/

/-- Prefix and local name. The part after the colon has to be a name of its own; a fault of the
    colon shows the whole name, a fault of that part shows the part. -/
def splitName (name : String) : Except DomError (Option String × String) :=
  match Text.splitFirst ':' name with
  | none => .ok (none, name)
  | some (p, l) =>
    if p = "" ∨ l = "" ∨ ':' ∈ l.toList then .error (.invalidCharacter name)
    else do
      check l
      return (some p, l)

/-! ## 2. The rules of namespaces -/

/-- The first rule broken: a prefix needs a namespace, `xml` needs its own, and `xmlns` (as a
    prefix or as the whole name) and its namespace need each other. -/
def namespaceFault? (nsUri : Option String) (name : String) (nsPrefix : Option String) :
    Option NamespaceFault :=
  if nsPrefix.isSome ∧ nsUri = none then some (.prefixUnbound name)
  else if nsPrefix = some "xml" ∧ nsUri ≠ some Namespace.xml then some .xmlPrefix
  else if (name = "xmlns" ∨ nsPrefix = some "xmlns") ↔ nsUri = some Namespace.xmlns then none
  else some .xmlnsName

end Name

/-! ## 3. The whole check -/

/-- Takes `name` apart for use in `nsUri`. -/
def QualifiedName.extract (nsUri : Option String) (name : String) :
    Except DomError QualifiedName := do
  let nsUri := nsUri.filter (· ≠ "")
  Name.check name
  let (nsPrefix, localName) ← Name.splitName name
  match Name.namespaceFault? nsUri name nsPrefix with
  | some fault => throw (.namespaceFault fault)
  | none => return { nsUri, nsPrefix, localName }

end DomBuilder
