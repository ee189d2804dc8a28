import DomBuilder.Json.NumberLiteral
import DomBuilder.Json.StringLiteral

/-!
# Values that are not wanted

A value under an unknown key is passed over, and a value of the wrong type is looked at only for a
fault that comes before its type. This file fixes both:

* `skipValue`: passes over one value, nested to any depth. The open brackets are a list of their
  own, so depth costs no recursion;
* `wrongType`: the fault of the value at hand where another type was asked for. A literal, a number
  or a string is read to its end first, an array or object is refused at its bracket.
-/

namespace DomBuilder.Json

/-! ## 1. Values without brackets -/

/-- Passes over `null`, a truth value, a number or a string. -/
def skipScalar (s : List Char) : Except Fault (List Char) :=
  match s with
  | [] => .error .truncated
  | c :: r =>
    if c = 'n' then expectWord ['u', 'l', 'l'] r
    else if c = 't' then expectWord ['r', 'u', 'e'] r
    else if c = 'f' then expectWord ['a', 'l', 's', 'e'] r
    else if c = '"' then skipBody r
    else if c = '-' ∨ c.isDigit then
      match readNumber .malformed s with
      | .error e => .error e
      | .ok (_, r') => .ok r'
    else .error .malformed

/-- The key of a member, up to its colon. -/
def skipKey (s : List Char) : Except Fault (List Char) :=
  match expect '"' (skipBlanks s) with
  | .error e => .error e
  | .ok r =>
    match skipBody r with
    | .error e => .error e
    | .ok r' => expectColon r'

theorem length_of_skipScalar {s r : List Char} (h : skipScalar s = .ok r) :
    r.length < s.length := by
  cases s with
  | nil => simp [skipScalar] at h
  | cons c s =>
    simp only [skipScalar] at h
    have word : ∀ {w : List Char}, expectWord w s = .ok r → r.length < (c :: s).length := by
      intro w hw
      have := congrArg List.length (eq_append_of_expectWord hw)
      rw [List.length_append] at this
      rw [List.length_cons]
      omega
    split at h
    · exact word h
    · split at h
      · exact word h
      · split at h
        · exact word h
        · split at h
          · have := length_of_skipBody h
            simp only [List.length_cons]
            omega
          · split at h
            · split at h
              · simp at h
              · rename_i hn
                simp only [Except.ok.injEq] at h
                exact h ▸ length_of_readNumber hn
            · simp at h

theorem length_of_skipKey {s r : List Char} (h : skipKey s = .ok r) : r.length < s.length := by
  unfold skipKey at h
  split at h
  · simp at h
  · rename_i h₁
    split at h
    · simp at h
    · rename_i h₂
      have h1 := congrArg List.length (eq_cons_of_expect h₁)
      have h2 := length_skipBlanks_le s
      have h3 := length_of_skipBody h₂
      have h4 := length_of_expectColon h
      simp only [List.length_cons] at h1
      omega

/-! ## 2. Values with brackets -/

/-- An open bracket. -/
inductive Bracket where
  | array
  | object
  deriving DecidableEq, Repr

def Bracket.ofOpening? (c : Char) : Option Bracket :=
  if c = '[' then some array
  else if c = '\x7b' then some object
  else none

def Bracket.closing : Bracket → Char
  | array => ']'
  | object => '\x7d'

/-- What comes before the value of an item: a key in an object, nothing in an array. -/
def Bracket.skipLabel : Bracket → List Char → Except Fault (List Char)
  | array, s => .ok s
  | object, s => skipKey s

/-- What is due next: a value, or whatever may follow one. -/
inductive Due where
  | value
  | more
  deriving DecidableEq, Repr

theorem Bracket.length_of_skipLabel {b : Bracket} {s r : List Char} (h : b.skipLabel s = .ok r) :
    r.length ≤ s.length := by
  cases b with
  | array => simp_all [skipLabel]
  | object => exact Nat.le_of_lt (length_of_skipKey h)

/-- Passes over what is due and the rest of all the brackets around it, innermost first. -/
def skipDue (due : Due) (brackets : List Bracket) (s : List Char) : Except Fault (List Char) :=
  match due, brackets with
  | .more, [] => .ok s
  | .more, b :: outer =>
    match hs : skipBlanks s with
    | [] => .error .truncated
    | c :: r =>
      have := length_of_skipBlanks hs
      if c = b.closing then skipDue .more outer r
      else if c = ',' then
        match hr : b.skipLabel r with
        | .error e => .error e
        | .ok r' =>
          have := b.length_of_skipLabel hr
          skipDue .value (b :: outer) r'
      else .error .malformed
  | .value, _ =>
    match hs : skipBlanks s with
    | [] => .error .truncated
    | c :: r =>
      have := length_of_skipBlanks hs
      match Bracket.ofOpening? c with
      | none =>
        match hr : skipScalar (c :: r) with
        | .error e => .error e
        | .ok r' =>
          have := length_of_skipScalar hr
          skipDue .more brackets r'
      | some b =>
        match hr : skipBlanks r with
        | [] => .error .truncated
        | c' :: r' =>
          have := length_of_skipBlanks hr
          if c' = b.closing then skipDue .more brackets r'
          else
            match hl : b.skipLabel (c' :: r') with
            | .error e => .error e
            | .ok r'' =>
              have := b.length_of_skipLabel hl
              skipDue .value (b :: brackets) r''
termination_by s.length
decreasing_by all_goals grind

/-- Passes over one value. -/
def skipValue (s : List Char) : Except Fault (List Char) := skipDue .value [] s

theorem length_of_skipDue {due : Due} {brackets : List Bracket} {s r : List Char}
    (h : skipDue due brackets s = .ok r) : r.length ≤ s.length := by
  fun_induction skipDue due brackets s with
  | case1 => simp_all
  | case2 | case4 | case6 | case7 | case8 | case10 | case12 => simp at h
  | case3 =>
    rename_i ih
    have := ih h
    omega
  | case5 =>
    rename_i ih
    have := ih h
    omega
  | case9 =>
    rename_i ih
    have := ih h
    simp only [List.length_cons] at *
    omega
  | case11 =>
    rename_i ih
    have := ih h
    omega
  | case13 =>
    rename_i ih
    have := ih h
    simp only [List.length_cons] at *
    omega

/-! ## 3. Values of the wrong type -/

/-- The fault of the value that `s` starts with, where another type was asked for. -/
def wrongType (s : List Char) : Fault :=
  match s with
  | [] => .truncated
  | c :: r =>
    if c = '[' ∨ c = '\x7b' then .mistyped
    else if c = '"' then
      match readBody r with
      | .error e => e
      | .ok _ => .mistyped
    else if c = '-' ∨ c.isDigit then
      match readNumber .truncated s with
      | .error e => e
      | .ok (x, _) => if x.isOutOfRange then .malformed else .mistyped
    else
      match skipScalar s with
      | .error e => e
      | .ok _ => .mistyped

end DomBuilder.Json
