import DomBuilder.Decimal.Binary
import DomBuilder.Json.Reading

/-!
# JSON numbers

No number is wanted anywhere in a configuration, so a number is read only to be passed over or to be
refused as a value of the wrong type. This file fixes:

* `readNumber`: the form of a number, and its parts. The caller says which fault it is when the text
  ends inside the number;
* `Number.isOutOfRange`: the number is beyond the largest finite binary64 number, as found by one
  multiplication of its leading digits by a power of ten.
-/

namespace DomBuilder.Json

/-- A number taken apart; its value is whole.fraction · 10 ^ exponent. -/
structure Number where
  whole : List Char
  fraction : List Char
  exponent : Int
  deriving DecidableEq, Repr

/-! ## 1. Form -/

/-- At least one digit, and all that follow it. -/
def readDigits (atEnd : Fault) (s : List Char) : Reading (List Char) :=
  match s with
  | [] => .error atEnd
  | c :: _ =>
    if c.isDigit then .ok (s.takeWhile Char.isDigit, s.dropWhile Char.isDigit)
    else .error .malformed

/-- The digits before the point: a zero stands alone. -/
def readWhole (atEnd : Fault) (s : List Char) : Reading (List Char) :=
  match readDigits atEnd s with
  | .error e => .error e
  | .ok ('0' :: _ :: _, _) => .error .malformed
  | .ok (ds, r) => .ok (ds, r)

/-- The digits after a point, if there is one. -/
def readFraction (atEnd : Fault) : List Char → Reading (List Char)
  | '.' :: r => readDigits atEnd r
  | s => .ok ([], s)

/-- The number that digits write. -/
def digitsValue (ds : List Char) : Nat := ds.foldl (fun n d => 10 * n + (d.toNat - '0'.toNat)) 0

/-- The sign of an exponent: the factor it stands for. -/
def readSign : List Char → Int × List Char
  | '+' :: r => (1, r)
  | '-' :: r => (-1, r)
  | s => (1, s)

/-- The exponent, if there is one. -/
def readExponent (atEnd : Fault) (s : List Char) : Reading Int :=
  match s with
  | [] => .ok (0, [])
  | c :: r =>
    if c = 'e' ∨ c = 'E' then
      match readDigits atEnd (readSign r).2 with
      | .error e => .error e
      | .ok (ds, r') => .ok ((readSign r).1 * digitsValue ds, r')
    else .ok (0, c :: r)

/-- A number after its sign. -/
def readMagnitude (atEnd : Fault) (s : List Char) : Reading Number :=
  match readWhole atEnd s with
  | .error e => .error e
  | .ok (whole, r) =>
    match readFraction atEnd r with
    | .error e => .error e
    | .ok (fraction, r') =>
      match readExponent atEnd r' with
      | .error e => .error e
      | .ok (exponent, r'') => .ok ({ whole, fraction, exponent }, r'')

/-- A number; `atEnd` is the fault when the text ends inside it. -/
def readNumber (atEnd : Fault) : List Char → Reading Number
  | '-' :: r => readMagnitude atEnd r
  | s => readMagnitude atEnd s

/-! ## 2. Range -/

/-- Takes digits in front of which `n` stands for as long as the whole fits 64 bits. -/
def takeSignificand (n : Nat) : List Char → Nat × List Char
  | [] => (n, [])
  | d :: r =>
    let n' := 10 * n + (d.toNat - '0'.toNat)
    if n' < UInt64.size then takeSignificand n' r else (n, d :: r)

/-- `significand` · 10 ^ `exponent`, rounded after each step, is infinite. Powers of ten beyond
    10 ^ 308 are themselves infinite. -/
def overflows (significand : Nat) (exponent : Int) : Bool :=
  if significand = 0 ∨ exponent < 0 then false
  else if 308 < exponent then true
  else
    Nat.pow 2 1024 - Nat.pow 2 970 ≤ BinaryFormat.binary64.roundNat significand *
      BinaryFormat.binary64.roundNat (Nat.pow 10 exponent.toNat)

/-- The digits that fit are the significand; digits left over before the point raise the exponent,
    and each one taken after it lowers the exponent. -/
def Number.isOutOfRange (x : Number) : Bool :=
  let (n, dropped) := takeSignificand 0 x.whole
  let (m, left) := takeSignificand n x.fraction
  overflows m (x.exponent + dropped.length - (x.fraction.length - left.length : Nat))

/-! ## 3. Numbers shorten the text -/

theorem length_of_readDigits {atEnd : Fault} {s ds r : List Char}
    (h : readDigits atEnd s = .ok (ds, r)) : r.length < s.length := by
  cases s with
  | nil => simp [readDigits] at h
  | cons c s =>
    simp only [readDigits] at h
    split at h
    · rename_i hc
      simp only [List.dropWhile_cons, hc, if_true, Except.ok.injEq, Prod.mk.injEq] at h
      rw [← h.2]
      exact Nat.lt_succ_of_le (List.dropWhile_sublist _).length_le
    · simp at h

theorem length_of_readWhole {atEnd : Fault} {s ds r : List Char}
    (h : readWhole atEnd s = .ok (ds, r)) : r.length < s.length := by
  unfold readWhole at h
  split at h
  · simp at h
  · simp at h
  · rename_i h' _
    simp only [Except.ok.injEq, Prod.mk.injEq] at h
    exact h.2 ▸ length_of_readDigits (by assumption)

theorem length_of_readFraction {atEnd : Fault} {s ds r : List Char}
    (h : readFraction atEnd s = .ok (ds, r)) : r.length ≤ s.length := by
  unfold readFraction at h
  split at h
  · have := length_of_readDigits h
    simp only [List.length_cons]
    omega
  · simp_all

theorem length_readSign_le (s : List Char) : (readSign s).2.length ≤ s.length := by
  unfold readSign
  split <;> simp

theorem length_of_readExponent {atEnd : Fault} {s r : List Char} {n : Int}
    (h : readExponent atEnd s = .ok (n, r)) : r.length ≤ s.length := by
  cases s with
  | nil => simp_all [readExponent]
  | cons c s =>
    simp only [readExponent] at h
    split at h
    · split at h
      · simp at h
      · rename_i h'
        have h1 := length_of_readDigits h'
        have h2 := length_readSign_le s
        simp only [Except.ok.injEq, Prod.mk.injEq] at h
        rw [← h.2]
        simp only [List.length_cons]
        omega
    · simp_all

theorem length_of_readMagnitude {atEnd : Fault} {s r : List Char} {x : Number}
    (h : readMagnitude atEnd s = .ok (x, r)) : r.length < s.length := by
  unfold readMagnitude at h
  split at h
  · simp at h
  · rename_i h₁
    split at h
    · simp at h
    · rename_i h₂
      split at h
      · simp at h
      · rename_i h₃
        have := length_of_readWhole h₁
        have := length_of_readFraction h₂
        have := length_of_readExponent h₃
        simp only [Except.ok.injEq, Prod.mk.injEq] at h
        rw [← h.2]
        omega

theorem length_of_readNumber {atEnd : Fault} {s r : List Char} {x : Number}
    (h : readNumber atEnd s = .ok (x, r)) : r.length < s.length := by
  unfold readNumber at h
  split at h
  · have := length_of_readMagnitude h
    simp only [List.length_cons]
    omega
  · exact length_of_readMagnitude h

end DomBuilder.Json
