/-!
# Attribute maps

An attribute map is what a caller hands over to set attributes: keys with texts. This file fixes:

* `AttributeMap.entries`: each key once, in the order of first insertion; inserting a key again
  replaces its text in place;
* `AttributeMap.shownText`: what the map reads as when it has no keys. A map made for some other
  value reads as that value, any other as `[object Object]`.
-/

namespace DomBuilder

/-- Keys and texts in the order of first insertion, perhaps standing for a value. -/
structure AttributeMap where
  entries : List (String × String) := []
  standsFor : Option String := none
  deriving DecidableEq, Inhabited, Repr

namespace AttributeMap

def empty : AttributeMap := {}

/-- A map without keys that reads as `text`. -/
def ofText (text : String) : AttributeMap := { standsFor := some text }

def size (m : AttributeMap) : Nat := m.entries.length

def isEmpty (m : AttributeMap) : Bool := m.entries.isEmpty

/-- The text of a map without keys. -/
def shownText (m : AttributeMap) : String := m.standsFor.getD "[object Object]"

/-- The text of `key`. -/
def get? (m : AttributeMap) (key : String) : Option String := m.entries.lookup key

/-! ## Insertion -/

/-- Replaces the text of `key` in place, or else appends both; says what the text was. -/
def put (key text : String) : List (String × String) → Option String × List (String × String)
  | [] => (none, [(key, text)])
  | (k, t) :: r =>
    if k = key then (some t, (k, text) :: r)
    else
      let (old, r') := put key text r
      (old, (k, t) :: r')

/-- Inserts or replaces, and gives back the replaced text. -/
def insert (m : AttributeMap) (key text : String) : Option String × AttributeMap :=
  let (old, entries) := put key text m.entries
  (old, { m with entries })

/-- Inserts or replaces. -/
def set (m : AttributeMap) (key text : String) : AttributeMap := (m.insert key text).2

/-- Inserts each pair in turn. -/
def extend (m : AttributeMap) (pairs : List (String × String)) : AttributeMap :=
  pairs.foldl (fun m (key, text) => m.set key text) m

def ofList (pairs : List (String × String)) : AttributeMap := empty.extend pairs

@[simp] theorem extend_nil (m : AttributeMap) : m.extend [] = m := rfl

@[simp] theorem extend_cons (m : AttributeMap) (key text : String) (r : List (String × String)) :
    m.extend ((key, text) :: r) = (m.set key text).extend r := rfl

end AttributeMap

end DomBuilder
