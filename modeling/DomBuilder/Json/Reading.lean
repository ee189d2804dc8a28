/-!
# Reading JSON text

JSON is read from the front of a list of characters. This file fixes what all its readers share:

* `Fault`: the three ways in which a text fails, told apart by what the reader was short of;
* `Reading α`: what was read and the characters left over, or a fault;
* the smallest readers: blanks, one expected character, an expected word.

A reader leaves at most what it was given, and a reader of something leaves less; these lemmas are
what the loops over members and values end by.
-/

namespace DomBuilder.Json

/-- Why a text is not read. -/
inductive Fault where
  /-- The text ended where more was needed. -/
  | truncated
  /-- The text is no JSON. -/
  | malformed
  /-- The text is JSON of another shape than was asked for. -/
  | mistyped
  deriving DecidableEq, Repr

/-- What was read, and the text after it. -/
abbrev Reading (α : Type) := Except Fault (α × List Char)

/-! ## 1. Blanks -/

def isBlank (c : Char) : Bool := c = ' ' || c = '\t' || c = '\n' || c = '\r'

/-- The text after leading blanks. -/
def skipBlanks (s : List Char) : List Char := s.dropWhile isBlank

theorem length_skipBlanks_le (s : List Char) : (skipBlanks s).length ≤ s.length :=
  (List.dropWhile_sublist _).length_le

theorem length_of_skipBlanks {c : Char} {s r : List Char} (h : skipBlanks s = c :: r) :
    r.length < s.length := by
  have := length_skipBlanks_le s
  rw [h, List.length_cons] at this
  omega

/-! ## 2. Expected characters -/

/-- Reads exactly `c`. -/
def expect (c : Char) : List Char → Except Fault (List Char)
  | [] => .error .truncated
  | x :: r => if x = c then .ok r else .error .malformed

/-- Reads exactly the characters of `w`. -/
def expectWord : List Char → List Char → Except Fault (List Char)
  | [], s => .ok s
  | c :: w, s =>
    match expect c s with
    | .error e => .error e
    | .ok r => expectWord w r

/-- A colon, perhaps after blanks. -/
def expectColon (s : List Char) : Except Fault (List Char) := expect ':' (skipBlanks s)

theorem eq_cons_of_expect {c : Char} {s r : List Char} (h : expect c s = .ok r) : s = c :: r := by
  cases s with
  | nil => simp [expect] at h
  | cons x s =>
    simp only [expect] at h
    split at h
    · simp_all
    · simp at h

theorem eq_append_of_expectWord {w s r : List Char} (h : expectWord w s = .ok r) : s = w ++ r := by
  induction w generalizing s with
  | nil => simpa [expectWord] using h
  | cons c w ih =>
    simp only [expectWord] at h
    split at h
    · simp at h
    · rename_i t ht
      rw [eq_cons_of_expect ht, ih h]
      rfl

theorem length_of_expectColon {s r : List Char} (h : expectColon s = .ok r) :
    r.length < s.length := by
  have h1 := congrArg List.length (eq_cons_of_expect h)
  have h2 := length_skipBlanks_le s
  simp only [List.length_cons] at h1
  omega

end DomBuilder.Json
