import DomBuilder.Decimal.Binary

/-!
# The shortest decimal that reads back

A finite binary number stands for every real number that rounds to it. Among the decimals in that
interval, the one written has the fewest digits; of several with equally few it is the nearest to
the number, the greater one on a tie. This file fixes that choice in exact integer arithmetic:

* `Decimal`: a coefficient and a power of ten;
* `Rounding`: a positive number and its interval, counted in a unit `10 ^ base` of which the number
  is a multiple;
* `gridPoint?`: the multiple of `10 ^ (base + j)` in the interval that is next to the number;
* `Rounding.shortest`: the point of the coarsest grid that has one. The number lies on the unit's
  own grid, so the search ends there at the latest.
-/

namespace DomBuilder

/-- The number `coefficient` · 10 ^ `exponent`. -/
structure Decimal where
  coefficient : Nat
  exponent : Int
  deriving DecidableEq, Repr

/-- A positive number and the reals that round to it. The number is `value` · 10 ^ `base`; the ends
    of the interval are counted in quarters of that unit, and belong to it if it is `closed`. -/
structure Rounding where
  base : Int
  value : Nat
  lower : Nat
  upper : Nat
  closed : Bool
  deriving DecidableEq, Repr

namespace Rounding

/-! ## 1. The interval of a binary number -/

/-- The interval of `mantissa` · 2 ^ `exponent`. Its ends lie halfway to the neighbours; a tie
    between two words goes to the even mantissa, so an even one owns the ends. -/
def ofBinary (x : BinaryFloat) : Rounding :=
  let gap := if 0 ≤ x.exponent then Nat.pow 2 x.exponent.toNat else Nat.pow 5 (-x.exponent).toNat
  { base := min x.exponent 0
    value := x.mantissa * gap
    lower := 4 * (x.mantissa * gap) - (if x.isNarrowBelow then gap else 2 * gap)
    upper := 4 * (x.mantissa * gap) + 2 * gap
    closed := x.mantissa % 2 = 0 }

/-- `n` units lie in the interval. -/
def holds (r : Rounding) (n : Nat) : Bool :=
  if r.closed then r.lower ≤ 4 * n && 4 * n ≤ r.upper
  else r.lower < 4 * n && 4 * n < r.upper

/-! ## 2. The coarsest grid with a point in the interval -/

/-- The point in the interval on the grid of `10 ^ j` units, as a multiple of that: one of the two
    next to the number, the nearer if both are in, the greater on a tie. -/
def gridPoint? (r : Rounding) (j : Nat) : Option Nat :=
  let unit := Nat.pow 10 j
  let d := r.value / unit
  let below := d * unit
  let above := (d + 1) * unit
  if r.holds below && (!r.holds above || r.value - below < above - r.value) then some d
  else if r.holds above then some (d + 1)
  else none

/-- The point of the coarsest grid up to `10 ^ j` units. -/
def shortestUpTo (r : Rounding) : Nat → Decimal
  | 0 => ⟨r.value, r.base⟩
  | j + 1 =>
    match r.gridPoint? (j + 1) with
    | some d => ⟨d, r.base + (j + 1 : Nat)⟩
    | none => r.shortestUpTo j

/-- The shortest decimal in the interval. A grid coarser than the number has digits holds no point
    that a finer one lacks. -/
def shortest (r : Rounding) : Decimal := r.shortestUpTo (Nat.toDigits 10 r.value).length

/-- A point taken from a grid lies in the interval. -/
theorem holds_of_gridPoint? {r : Rounding} {j d : Nat} (h : r.gridPoint? j = some d) :
    r.holds (d * Nat.pow 10 j) = true := by
  unfold gridPoint? at h
  grind

end Rounding

/-- The shortest decimal that reads back as the magnitude of a finite word. -/
def BinaryFloat.shortest (x : BinaryFloat) : Decimal :=
  if x.isZero then ⟨0, 0⟩ else (Rounding.ofBinary x).shortest

end DomBuilder
