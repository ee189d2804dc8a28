import DomBuilder.Namespace
import Std.Data.ExtTreeMap

/-!
# Symbols

Tag names and namespace URIs repeat all over a document, so elements hold a small number in place
of the text. This file fixes the table behind the numbers:

* a `Symbol` is a 32-bit word, the place of its text in the order of first use;
* `SymbolTable` holds the texts by place, and for each text its symbol;
* `intern` gives a text its symbol, a new one if need be; `lookup` only looks;
* `text` reads a symbol, and reads one that was never given as the empty text;
* `initial` has the empty text at 0, then common tags and three namespaces.
-/

namespace DomBuilder

/-- The number of a text in a symbol table. -/
structure Symbol where
  val : UInt32
  deriving DecidableEq, Repr

/-- Texts numbered in the order of first use. -/
structure SymbolTable where
  symbols : Std.ExtTreeMap String Symbol
  texts : Array String

namespace SymbolTable

def empty : SymbolTable := { symbols := ∅, texts := #[] }

/-! ## 1. Operations -/

/-- The symbol of `s`, if it has one. -/
def lookup (t : SymbolTable) (s : String) : Option Symbol := t.symbols[s]?

/-- The symbol of `s`, which gets the next place if it has none. -/
def intern (t : SymbolTable) (s : String) : Symbol × SymbolTable :=
  match t.lookup s with
  | some y => (y, t)
  | none =>
    let y : Symbol := ⟨UInt32.ofNat t.texts.size⟩
    (y, { symbols := t.symbols.insert s y, texts := t.texts.push s })

/-- The text of a symbol. -/
def text (t : SymbolTable) (y : Symbol) : String := t.texts[y.val.toNat]?.getD ""

def size (t : SymbolTable) : Nat := t.texts.size

def isEmpty (t : SymbolTable) : Bool := t.texts.isEmpty

/-! ## 2. The table of a fresh document -/

def ofList (names : List String) : SymbolTable :=
  names.foldl (fun t s => (t.intern s).2) empty

def commonTags : List String := [
  "html", "head", "body", "div", "span", "p", "a", "img", "ul", "ol", "li", "table", "tr", "td",
  "th", "thead", "tbody", "form", "input", "button", "select", "option", "textarea", "h1", "h2",
  "h3", "h4", "h5", "h6", "header", "footer", "nav", "section", "article", "aside", "script",
  "style", "link", "meta", "title", "br", "hr", "strong", "em", "b", "i", "u", "svg"]

def initial : SymbolTable :=
  ofList ("" :: commonTags ++ [Namespace.html, Namespace.svg, Namespace.xlink])

/-! ## 3. What interning does to both readings -/

theorem intern_of_lookup {t : SymbolTable} {s : String} {y : Symbol} (h : t.lookup s = some y) :
    t.intern s = (y, t) := by
  simp [intern, h]

/-- A text that was interned has the symbol it got. -/
theorem lookup_intern_self (t : SymbolTable) (s : String) :
    (t.intern s).2.lookup s = some (t.intern s).1 := by
  unfold intern
  cases h : t.lookup s with
  | some y => simpa using h
  | none => simp [lookup]

/-- Interning leaves the symbols of other texts alone. -/
theorem lookup_intern_of_ne {t : SymbolTable} {s r : String} (h : r ≠ s) :
    (t.intern s).2.lookup r = t.lookup r := by
  unfold intern
  cases hs : t.lookup s with
  | some y => rfl
  | none => simp [lookup, Std.ExtTreeMap.getElem?_insert, h.symm]

end SymbolTable

end DomBuilder
