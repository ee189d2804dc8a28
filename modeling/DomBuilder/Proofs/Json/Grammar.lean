import DomBuilder.Json.Skipped
import Mathlib.Data.Bool.AllAny
import Mathlib.Data.List.Forall2

/-!
# The grammar of JSON texts

What a JSON text is does not depend on how it is read. This file fixes the grammar by itself, as relations
between texts and what they say:

* `Blanks`, `Digits`, `HexDigits`: the small classes of texts;
* `CharText`, `StringText`: the texts of a character within a string, and those of a string. A character
  beyond the basic plane may be written as a pair of surrogates; a surrogate by itself writes nothing;
* `StringForm`: texts of the form of a string, lone surrogates among their escapes or not;
* `NumberForm`, `Phrase.Text`: the form of numbers, and that of values nested to any depth;
* `MemberText`, `ItemsText`, `ObjectText`: members of objects whose values say something, with blanks
  around every token.
-/

namespace DomBuilder.Json

/-! ## 1. Blanks and digits -/

/-- Nothing but spaces, tabs and line ends. -/
def Blanks (w : List Char) : Prop := ∀ c ∈ w, c ∈ [' ', '\t', '\n', '\r']

instance (w : List Char) : Decidable (Blanks w) :=
  decidable_of_iff (w.all fun c => c ∈ [' ', '\t', '\n', '\r']) List.all_iff_forall_prop

/-- At least one decimal digit, and nothing else. -/
def Digits (w : List Char) : Prop := w ≠ [] ∧ ∀ c ∈ w, c.isDigit = true

/-- `c` is the hexadecimal digit `n`, in either case. -/
def HexDigit (n : Nat) (c : Char) : Prop :=
  "0123456789abcdef".toList[n]? = some c ∨ "0123456789ABCDEF".toList[n]? = some c

/-- Four hexadecimal digits that write `n`. -/
inductive HexDigits : Nat → List Char → Prop where
  | four {i j k l : Nat} {a b c d : Char} (ha : HexDigit i a) (hb : HexDigit j b) (hc : HexDigit k c)
      (hd : HexDigit l d) : HexDigits (0x1000 * i + 0x100 * j + 0x10 * k + l) [a, b, c, d]

/-! ## 2. Strings -/

/-- May stand for itself in a string. -/
def Unescaped (c : Char) : Prop := c ≠ '"' ∧ c ≠ '\\' ∧ 0x20 ≤ c.toNat

/-- The letters of escapes, each with the character that it stands for. -/
def escapeLetters : List (Char × Char) := [
  ('"', '"'), ('\\', '\\'), ('/', '/'), ('b', '\x08'), ('f', '\x0c'), ('n', '\n'), ('r', '\r'),
  ('t', '\t')]

/-- The texts of a character in a string. -/
inductive CharText : Char → List Char → Prop where
  | plain {c : Char} (h : Unescaped c) : CharText c [c]
  | letter {l c : Char} (h : (l, c) ∈ escapeLetters) : CharText c ['\\', l]
  | code {c : Char} {ds : List Char} (h : HexDigits c.toNat ds) : CharText c ('\\' :: 'u' :: ds)
  | pair {c : Char} {hi lo : Nat} {ds es : List Char} (hhi : hi < 0x400) (hlo : lo < 0x400)
      (hc : c.toNat = 0x10000 + 0x400 * hi + lo) (hd : HexDigits (0xD800 + hi) ds)
      (he : HexDigits (0xDC00 + lo) es) : CharText c ('\\' :: 'u' :: (ds ++ '\\' :: 'u' :: es))

/-- The texts of a string: its characters in order between quotation marks. -/
def StringText (s : String) (w : List Char) : Prop :=
  ∃ vs : List (List Char), List.Forall₂ CharText s.toList vs ∧ w = '"' :: (vs.flatten ++ ['"'])

/-- A part of a string that stands for a character, or for half of a pair. -/
inductive CharForm : List Char → Prop where
  | plain {c : Char} (h : Unescaped c) : CharForm [c]
  | letter {l c : Char} (h : (l, c) ∈ escapeLetters) : CharForm ['\\', l]
  | code {n : Nat} {ds : List Char} (h : HexDigits n ds) : CharForm ('\\' :: 'u' :: ds)

/-- Of the form of a string. -/
def StringForm (w : List Char) : Prop :=
  ∃ vs : List (List Char), (∀ v ∈ vs, CharForm v) ∧ w = '"' :: (vs.flatten ++ ['"'])

/-! ## 3. Values -/

/-- The part of a number before its point, without sign: no zero stands in front of other digits. -/
def WholeForm (w : List Char) : Prop := w = ['0'] ∨ Digits w ∧ w.head? ≠ some '0'

/-- The fraction of a number, or nothing. -/
def FractionForm (w : List Char) : Prop := w = [] ∨ ∃ ds, Digits ds ∧ w = '.' :: ds

/-- The exponent of a number, or nothing. -/
def ExponentForm (w : List Char) : Prop :=
  w = [] ∨ ∃ e ∈ ['e', 'E'], ∃ sign ∈ [[], ['+'], ['-']], ∃ ds, Digits ds ∧ w = e :: (sign ++ ds)

/-- Of the form of a number. -/
inductive NumberForm : List Char → Prop where
  | mk {sign whole fraction exponent : List Char} (hs : sign ∈ [[], ['-']]) (hw : WholeForm whole)
      (hf : FractionForm fraction) (he : ExponentForm exponent) :
      NumberForm (sign ++ (whole ++ (fraction ++ exponent)))

namespace Bracket

def opening : Bracket → Char
  | array => '['
  | object => '\x7b'

/-- What an item has in front of its value: in an object a key and a colon. -/
def LabelForm : Bracket → List Char → Prop
  | array, w => w = []
  | object, w => ∃ s k t, Blanks s ∧ StringForm k ∧ Blanks t ∧ w = s ++ (k ++ (t ++ [':']))

end Bracket

/-- What the grammar of values speaks of: a value, or the items between two brackets. -/
inductive Phrase where
  | value
  | items (b : Bracket)

/-- The texts of values, and of one or more items. -/
inductive Phrase.Text : Phrase → List Char → Prop where
  | word {w : List Char} (h : w ∈ ["null".toList, "true".toList, "false".toList]) : Text value w
  | number {w : List Char} (h : NumberForm w) : Text value w
  | string {w : List Char} (h : StringForm w) : Text value w
  | empty (b : Bracket) {s : List Char} (hs : Blanks s) : Text value (b.opening :: (s ++ [b.closing]))
  | filled {b : Bracket} {w : List Char} (h : Text (items b) w) :
      Text value (b.opening :: (w ++ [b.closing]))
  | last {b : Bracket} {l s v t : List Char} (hl : b.LabelForm l) (hs : Blanks s)
      (hv : Text value v) (ht : Blanks t) : Text (items b) (l ++ (s ++ (v ++ t)))
  | more {b : Bracket} {l s v t w : List Char} (hl : b.LabelForm l) (hs : Blanks s)
      (hv : Text value v) (ht : Blanks t) (hw : Text (items b) w) :
      Text (items b) (l ++ (s ++ (v ++ (t ++ ',' :: w))))

/-- The texts of values. -/
abbrev ValueForm : List Char → Prop := Phrase.value.Text

/-! ## 4. Objects whose values say something -/

/-- The texts of a string or null. -/
def OptionText : Option String → List Char → Prop
  | none, w => w = "null".toList
  | some s, w => StringText s w

/-- The texts of a member: its key, a colon, and a text of its value. -/
def MemberText (key : String) (value : List Char → Prop) (w : List Char) : Prop :=
  ∃ k s t v, StringText key k ∧ Blanks s ∧ Blanks t ∧ value v ∧ w = k ++ (s ++ ':' :: (t ++ v))

section Object

variable {α : Type}

/-- The texts of one or more items, blanks around each and a comma between two. -/
inductive ItemsText (item : α → List Char → Prop) : List α → List Char → Prop where
  | last {x : α} {s v t : List Char} (hs : Blanks s) (hv : item x v) (ht : Blanks t) :
      ItemsText item [x] (s ++ (v ++ t))
  | more {x : α} {xs : List α} {s v t w : List Char} (hs : Blanks s) (hv : item x v) (ht : Blanks t)
      (hw : ItemsText item xs w) : ItemsText item (x :: xs) (s ++ (v ++ (t ++ ',' :: w)))

/-- The texts of an object with these members. -/
inductive ObjectText (item : α → List Char → Prop) : List α → List Char → Prop where
  | empty {s : List Char} (hs : Blanks s) : ObjectText item [] ('\x7b' :: (s ++ ['\x7d']))
  | filled {xs : List α} {w : List Char} (h : ItemsText item xs w) :
      ObjectText item xs ('\x7b' :: (w ++ ['\x7d']))

end Object

/-- The texts of a member that binds a key to a string. -/
def PairText (m : String × String) : List Char → Prop := MemberText m.1 (StringText m.2)

end DomBuilder.Json
