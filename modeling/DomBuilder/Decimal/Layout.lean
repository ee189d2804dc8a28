import DomBuilder.Decimal.Shortest

/-!
# How a number is laid out

This file fixes the two layouts of a decimal and the two texts of a binary number made from them:

* `Decimal.positional`: the digits with a point among or before them, or zeros after them;
* `Decimal.scientific`: one digit before the point, then `e`, a sign and the exponent;
* `BinaryFloat.plainText`: positional at any size, zeros keep their sign;
* `BinaryFloat.pageText`: as pages show numbers, where both zeros are `0`, and a magnitude of 10 ^ 21
  or more, or below 10 ^ -6, is scientific.

Whether a magnitude is that large or small is asked of its word, against the words nearest to the
two bounds.
-/

namespace DomBuilder

/-! ## 1. Layouts of a decimal -/

namespace Decimal

def digits (d : Decimal) : List Char := Nat.toDigits 10 d.coefficient

/-- Without an exponent. -/
def positional (d : Decimal) : List Char :=
  let places := (-d.exponent).toNat
  if 0 ≤ d.exponent then d.digits ++ List.replicate d.exponent.toNat '0'
  else if places < d.digits.length then
    d.digits.take (d.digits.length - places) ++ '.' :: d.digits.drop (d.digits.length - places)
  else '0' :: '.' :: (List.replicate (places - d.digits.length) '0' ++ d.digits)

/-- The exponent's sign is always written, and its digits have no leading zero. -/
def exponentText (e : Int) : List Char :=
  'e' :: (if 0 ≤ e then '+' else '-') :: Nat.toDigits 10 e.natAbs

/-- With an exponent, and a point only if a digit follows it. -/
def scientific (d : Decimal) : List Char :=
  match d.digits with
  | [] => []
  | [c] => c :: exponentText d.exponent
  | c :: r => c :: '.' :: (r ++ exponentText (d.exponent + r.length))

end Decimal

/-! ## 2. Texts of a binary number -/

namespace BinaryFormat

/-- The word nearest to 10 ^ -6: from it on, page text is positional. -/
def positionalFrom : BinaryFormat → Nat
  | binary32 => 0x358637bd
  | binary64 => 0x3eb0c6f7a0b5ed8d

/-- The word nearest to 10 ^ 21: from it on, page text is scientific. -/
def scientificFrom : BinaryFormat → Nat
  | binary32 => 0x6258d727
  | binary64 => 0x444b1ae4d6e2ef50

end BinaryFormat

namespace BinaryFloat

def signText (x : BinaryFloat) : List Char := if x.isNegative then ['-'] else []

/-- The magnitude is laid out positionally in page text. -/
def isPositional (x : BinaryFloat) : Bool :=
  x.format.positionalFrom ≤ x.magnitude && x.magnitude < x.format.scientificFrom

def plainText (x : BinaryFloat) : String :=
  if x.isNaN then "NaN"
  else String.ofList (x.signText ++
    if x.isFinite then x.shortest.positional else "inf".toList)

def pageText (x : BinaryFloat) : String :=
  if x.isNaN then "NaN"
  else if x.isZero then "0"
  else String.ofList (x.signText ++
    if !x.isFinite then "Infinity".toList
    else if x.isPositional then x.shortest.positional
    else x.shortest.scientific)

end BinaryFloat

end DomBuilder
