/-!
# Binary floating-point numbers

A floating-point number is a word: sign, exponent field, fraction field. This file fixes how a
word is read, for the two interchange formats:

* the exponent field's largest value marks the infinities and the non-numbers;
* any other word stands for ± `mantissa` · 2 ^ `exponent`, with a hidden leading bit unless the
  exponent field is zero;
* a natural number rounds to the nearest one with the format's count of significant bits;
* without the sign, greater words stand for greater numbers, so magnitudes compare as words.
-/

namespace DomBuilder

/-- The two formats, named for their width. -/
inductive BinaryFormat where
  | binary32
  | binary64
  deriving DecidableEq, Repr

namespace BinaryFormat

def fractionBits : BinaryFormat → Nat
  | binary32 => 23
  | binary64 => 52

def exponentBits : BinaryFormat → Nat
  | binary32 => 8
  | binary64 => 11

/-- The word of the sign alone; words below it have no sign. -/
def signWord (f : BinaryFormat) : Nat := Nat.pow 2 (f.fractionBits + f.exponentBits)

/-- The exponent of the smallest positive number. -/
def leastExponent (f : BinaryFormat) : Int :=
  2 - (Nat.pow 2 (f.exponentBits - 1) : Int) - f.fractionBits

/-- The nearest number with as many significant bits as the format has, were its exponents
    unbounded; a tie goes to the even one. -/
def roundNat (f : BinaryFormat) (n : Nat) : Nat :=
  let unit := Nat.pow 2 (n.log2 - f.fractionBits)
  let q := n / unit
  let twice := 2 * (n % unit)
  if unit < twice ∨ twice = unit ∧ q % 2 = 1 then (q + 1) * unit else q * unit

end BinaryFormat

/-- A word of a format. Bits beyond its width are not looked at. -/
structure BinaryFloat where
  format : BinaryFormat
  word : Nat
  deriving DecidableEq, Repr

namespace BinaryFloat

/-! ## 1. Fields -/

def isNegative (x : BinaryFloat) : Bool := x.word / x.format.signWord % 2 = 1

/-- The word without its sign. -/
def magnitude (x : BinaryFloat) : Nat := x.word % x.format.signWord

def exponentField (x : BinaryFloat) : Nat := x.magnitude / Nat.pow 2 x.format.fractionBits

def fractionField (x : BinaryFloat) : Nat := x.magnitude % Nat.pow 2 x.format.fractionBits

/-! ## 2. Classes -/

/-- Neither an infinity nor a non-number. -/
def isFinite (x : BinaryFloat) : Bool := x.exponentField < Nat.pow 2 x.format.exponentBits - 1

def isNaN (x : BinaryFloat) : Bool := !x.isFinite && x.fractionField ≠ 0

def isZero (x : BinaryFloat) : Bool := x.magnitude = 0

/-! ## 3. The value of a finite word -/

def mantissa (x : BinaryFloat) : Nat :=
  if x.exponentField = 0 then x.fractionField
  else Nat.pow 2 x.format.fractionBits + x.fractionField

def exponent (x : BinaryFloat) : Int := x.format.leastExponent + (x.exponentField - 1 : Nat)

/-- The next smaller magnitude is only half as far as the next greater one: so just above each
    power of two. -/
def isNarrowBelow (x : BinaryFloat) : Bool := x.fractionField = 0 && 1 < x.exponentField

/-- A finite word other than the zeros has a positive mantissa. -/
theorem mantissa_pos {x : BinaryFloat} (h : x.isZero = false) : 0 < x.mantissa := by
  unfold mantissa
  split
  · rename_i he
    simp only [isZero, decide_eq_false_iff_not] at h
    simp only [exponentField] at he
    simp only [fractionField]
    have := Nat.div_add_mod x.magnitude (Nat.pow 2 x.format.fractionBits)
    rw [he] at this
    omega
  · have : 0 < Nat.pow 2 x.format.fractionBits := Nat.two_pow_pos x.format.fractionBits
    omega

end BinaryFloat

end DomBuilder
