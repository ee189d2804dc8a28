import DomBuilder.Config
import DomBuilder.Json.Members

/-!
# Configurations as JSON

This file fixes the JSON text of a configuration and what is read back:

* writing gives one object without blanks: `namespace`, a string or null, then `namespaces`, an
  object with the prefixes in order;
* reading takes the two members in any order, each at most once, and passes over all others. A
  missing member leaves the default. The pairs of `namespaces` go over the default table, the last
  one of a prefix counting;
* reading also takes an array of up to two items, the values of the two members in order;
* only blanks may follow the value.
-/

namespace DomBuilder

open Json

/-! ## 1. Writing -/

/-- A member of an object of strings. -/
def Json.writeMember (m : String × String) : List Char := writeString m.1 ++ ':' :: writeString m.2

/-- A string or null. -/
def Json.writeOption : Option String → List Char
  | none => ['n', 'u', 'l', 'l']
  | some s => writeString s

/-- Prefixes and URIs as an object. -/
def PrefixTable.write (t : PrefixTable) : List Char :=
  '\x7b' :: (List.intercalate [','] (t.toList.map writeMember) ++ ['\x7d'])

def PrefixTable.toJson (t : PrefixTable) : String := String.ofList t.write

def Config.write (c : Config) : List Char :=
  '\x7b' :: (writeString "namespace" ++ ':' :: (writeOption c.elementNamespace ++
    ',' :: (writeString "namespaces" ++ ':' :: (c.prefixes.write ++ ['\x7d']))))

def Config.toJson (c : Config) : String := String.ofList c.write

namespace Config

/-! ## 2. Reading an object -/

/-- The members that were read so far. -/
structure Draft where
  elementNamespace : Option (Option String) := none
  prefixes : Option PrefixTable := none

/-- A configuration with defaults for what is missing. -/
def Draft.config (d : Draft) : Config :=
  { elementNamespace := d.elementNamespace.getD none
    prefixes := d.prefixes.getD PrefixTable.default }

/-- The pairs of an object over the default table. -/
def readPrefixes (s : List Char) : Reading PrefixTable :=
  match readObject s with
  | .error e => .error e
  | .ok (ms, r) => .ok (PrefixTable.ofOverrides ms, r)

/-- What follows the key `k`: a colon and its value. A key that was read before is refused before
    its colon. -/
def readField (d : Draft) (k : String) (s : List Char) : Reading Draft :=
  if k = "namespace" ∧ d.elementNamespace.isSome ∨ k = "namespaces" ∧ d.prefixes.isSome then
    .error .mistyped
  else
    match expectColon s with
    | .error e => .error e
    | .ok r =>
      if k = "namespace" then
        match readOption r with
        | .error e => .error e
        | .ok (x, r') => .ok ({ d with elementNamespace := some x }, r')
      else if k = "namespaces" then
        match readPrefixes r with
        | .error e => .error e
        | .ok (t, r') => .ok ({ d with prefixes := some t }, r')
      else
        match skipValue r with
        | .error e => .error e
        | .ok r' => .ok (d, r')

theorem length_of_readPrefixes {s r : List Char} {t : PrefixTable}
    (h : readPrefixes s = .ok (t, r)) : r.length < s.length := by
  unfold readPrefixes at h
  split at h
  · simp at h
  · rename_i ho
    have := length_of_readObject ho
    simp_all

theorem length_of_readField {d d' : Draft} {k : String} {s r : List Char}
    (h : readField d k s = .ok (d', r)) : r.length < s.length := by
  unfold readField at h
  split at h
  · simp at h
  · split at h
    · simp at h
    · rename_i hc
      have h1 := length_of_expectColon hc
      split at h
      · split at h
        · simp at h
        · rename_i hv
          have h2 := length_of_readOption hv
          simp only [Except.ok.injEq, Prod.mk.injEq] at h
          rw [← h.2]
          omega
      · split at h
        · split at h
          · simp at h
          · rename_i hv
            have h2 := length_of_readPrefixes hv
            simp only [Except.ok.injEq, Prod.mk.injEq] at h
            rw [← h.2]
            omega
        · split at h
          · simp at h
          · rename_i hv
            have h2 := length_of_skipDue hv
            simp only [Except.ok.injEq, Prod.mk.injEq] at h
            rw [← h.2]
            omega

/-- The members of a configuration, after the opening bracket. -/
def readFields (first : Bool) (d : Draft) (s : List Char) : Reading Draft :=
  match hk : readKey first s with
  | .error e => .error e
  | .ok (none, r) => .ok (d, r)
  | .ok (some k, r) =>
    have := length_of_readKey hk
    match hf : readField d k r with
    | .error e => .error e
    | .ok (d', r') =>
      have := length_of_readField hf
      readFields false d' r'
termination_by s.length

/-! ## 3. Reading an array -/

/-- The text at the next item of an array, or nothing at its closing bracket. -/
def nextItem (first : Bool) (s : List Char) : Except Fault (Option (List Char)) :=
  match skipBlanks s with
  | [] => .error .truncated
  | c :: r =>
    if c = ']' then .ok none
    else if first then .ok (some (c :: r))
    else if c ≠ ',' then .error .malformed
    else
      match skipBlanks r with
      | [] => .error .truncated
      | c' :: r' => if c' = ']' then .error .malformed else .ok (some (c' :: r'))

/-- The end of an array that takes no more items. -/
def closeArray (s : List Char) : Except Fault (List Char) := expect ']' (skipBlanks s)

/-- Closes the array after the items of `d`. -/
def endItems (d : Draft) (s : List Char) : Reading Draft :=
  match closeArray s with
  | .error e => .error e
  | .ok r => .ok (d, r)

/-- The item for the prefixes, if it is there. -/
def readSecondItem (d : Draft) (s : List Char) : Reading Draft :=
  match nextItem false s with
  | .error e => .error e
  | .ok none => endItems d s
  | .ok (some item) =>
    match readPrefixes item with
    | .error e => .error e
    | .ok (t, r) => endItems { d with prefixes := some t } r

/-- The items of a configuration, after the opening bracket. -/
def readItems (s : List Char) : Reading Draft :=
  match nextItem true s with
  | .error e => .error e
  | .ok none => endItems {} s
  | .ok (some item) =>
    match readOption item with
    | .error e => .error e
    | .ok (x, r) => readSecondItem { elementNamespace := some x } r

/-! ## 4. Reading a configuration -/

/-- An object or an array. -/
def readDraft (s : List Char) : Reading Draft :=
  match skipBlanks s with
  | '\x7b' :: r => readFields true {} r
  | '[' :: r => readItems r
  | t => .error (wrongType t)

/-- A configuration and nothing but blanks after it. -/
def read (s : List Char) : Except Fault Config :=
  match readDraft s with
  | .error e => .error e
  | .ok (d, r) => if skipBlanks r = [] then .ok d.config else .error .malformed

def ofJson (text : String) : Except Fault Config := read text.toList

/-- What a message about an unreadable configuration begins with. -/
def invalidMessage : String := "Invalid builder config: "

end Config

end DomBuilder
