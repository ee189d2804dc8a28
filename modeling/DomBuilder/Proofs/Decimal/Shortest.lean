import DomBuilder.Decimal.Layout
import DomBuilder.Proofs.Decimal.Value
import Mathlib.Tactic.FieldSimp

/-!
# What is written is shortest

The search for a decimal runs over grids of powers of ten, from a coarse one down to the number's own unit,
and looks at two points of each. This file fixes what it finds:

* `Rounding.Contains`: a rational lies in the interval. The interval of a word is what is read as the word
  (`contains_ofBinary_iff`);
* `gridPoint?_eq_none`: two points are enough. If neither lies in the interval, no point of the grid does;
* `Coarsest`: the invariant of the search. No coarser grid up to its start has a point in the interval,
  and none beyond has one either (`coarsest_shortest`);
* `exponent_le_shortest`, `length_shortest_le`: **no decimal in the interval has a greater exponent or
  fewer digits**;
* `power_le_shortest_iff`: where a power of ten is read as a word, the words from it on are written as
  decimals from that power on. The comparison of words is one of the decimals.
-/

namespace DomBuilder

/-- The number that a decimal stands for. -/
def Decimal.value (d : Decimal) : ℚ := d.coefficient * 10 ^ d.exponent

theorem Decimal.value_one (k : Int) : Decimal.value ⟨1, k⟩ = 10 ^ k := by
  rw [Decimal.value, Nat.cast_one, one_mul]

namespace Rounding

variable {r : Rounding} {a b q : ℚ} {d i j k m n : Nat}

/-! ## 1. The interval -/

/-- The number lies in the interval. -/
def Contains (r : Rounding) (q : ℚ) : Prop :=
  if r.closed then r.lower * 10 ^ r.base ≤ 4 * q ∧ 4 * q ≤ r.upper * 10 ^ r.base
  else r.lower * 10 ^ r.base < 4 * q ∧ 4 * q < r.upper * 10 ^ r.base

theorem Contains.between (ha : r.Contains a) (hb : r.Contains b) (haq : a ≤ q) (hqb : q ≤ b) :
    r.Contains q := by
  unfold Contains at *
  split_ifs at * <;> constructor <;> linarith

theorem contains_units : r.Contains (n * 10 ^ r.base) ↔ r.holds n = true := by
  have hunit : (0 : ℚ) < 10 ^ r.base := by positivity
  have hle : ∀ a b : Nat, (a : ℚ) * 10 ^ r.base ≤ b * 10 ^ r.base ↔ a ≤ b := fun a b => by
    rw [mul_le_mul_iff_of_pos_right hunit, Nat.cast_le]
  have hlt : ∀ a b : Nat, (a : ℚ) * 10 ^ r.base < b * 10 ^ r.base ↔ a < b := fun a b => by
    rw [mul_lt_mul_iff_of_pos_right hunit, Nat.cast_lt]
  have hfour : 4 * ((n : ℚ) * 10 ^ r.base) = (4 * n : Nat) * 10 ^ r.base := by
    push_cast
    ring
  rw [Contains, hfour, hle, hle, hlt, hlt, holds]
  split <;> simp

theorem holds_between (ha : r.holds m = true) (hb : r.holds n = true) (hmk : m ≤ k) (hkn : k ≤ n) :
    r.holds k = true := by
  unfold holds at *
  split_ifs at * <;> simp only [Bool.and_eq_true, decide_eq_true_eq] at * <;> omega

theorem bounds_of_holds (h : r.holds n = true) : r.lower ≤ 4 * n ∧ 4 * n ≤ r.upper := by
  unfold holds at h
  split at h <;> simp only [Bool.and_eq_true, decide_eq_true_eq] at h <;> omega

/-- The interval is one around a positive number, whose lower end is positive too. -/
structure Sound (r : Rounding) : Prop where
  lower_pos : 0 < r.lower
  lower_lt : r.lower < 4 * r.value
  lt_upper : 4 * r.value < r.upper
  upper_le : r.upper ≤ 6 * r.value

theorem Sound.holds_value (h : r.Sound) : r.holds r.value = true := by
  have := h.lower_lt
  have := h.lt_upper
  unfold holds
  split <;> simp only [Bool.and_eq_true, decide_eq_true_eq] <;> omega

theorem Sound.coefficient_pos (h : r.Sound) (hn : r.holds (d * n) = true) : 0 < d := by
  have hlower := h.lower_pos
  refine Nat.pos_of_ne_zero fun h0 => ?_
  rw [h0, Nat.zero_mul] at hn
  have hbounds := bounds_of_holds hn
  omega

/-! ## 2. The search -/

/-- **If neither of the two points next to the number is in the interval, no point of the grid is.** -/
theorem gridPoint?_eq_none (hr : r.Sound) (h : r.gridPoint? j = none) (d : Nat) :
    r.holds (d * 10 ^ j) = false := by
  have hunit : 0 < 10 ^ j := Nat.pow_pos (by decide)
  have hvalue := hr.holds_value
  have hdiv := Nat.div_add_mod' r.value (10 ^ j)
  have hmod := Nat.mod_lt r.value hunit
  obtain ⟨hbelow, habove⟩ : r.holds (r.value / 10 ^ j * 10 ^ j) = false ∧
      r.holds ((r.value / 10 ^ j + 1) * 10 ^ j) = false := by
    unfold gridPoint? at h
    generalize hu : Nat.pow 10 j = u at h
    obtain rfl : 10 ^ j = u := hu
    grind
  rw [Bool.eq_false_iff]
  intro hd
  -- a point of the interval on either side brings in the one that lies between it and the number
  obtain hgt | hle := Nat.lt_or_ge (r.value / 10 ^ j) d
  · have := holds_between hvalue hd (k := (r.value / 10 ^ j + 1) * 10 ^ j)
      (by rw [Nat.add_mul]; omega) (Nat.mul_le_mul_right _ hgt)
    rw [habove] at this
    cases this
  · have := holds_between hd hvalue (k := r.value / 10 ^ j * 10 ^ j)
      (Nat.mul_le_mul_right _ hle) (by omega)
    rw [hbelow] at this
    cases this

/-- A point of the interval on a grid, such that no coarser grid up to `10 ^ n` units has one. -/
def Coarsest (r : Rounding) (n : Nat) (d : Decimal) : Prop :=
  ∃ j : Nat, d.exponent = r.base + j ∧ r.holds (d.coefficient * 10 ^ j) = true ∧
    ∀ i, j < i → i ≤ n → ∀ c, r.holds (c * 10 ^ i) = false

theorem coarsest_shortestUpTo (hr : r.Sound) (n : Nat) : r.Coarsest n (r.shortestUpTo n) := by
  induction n with
  | zero =>
    refine ⟨0, by simp [shortestUpTo], ?_, fun i hi hn => by omega⟩
    simpa [shortestUpTo] using hr.holds_value
  | succ n ih =>
    unfold shortestUpTo
    split
    · rename_i d hd
      exact ⟨n + 1, rfl, holds_of_gridPoint? hd, fun i hi hn => by omega⟩
    · rename_i hnone
      obtain ⟨j, he, hj, hcoarse⟩ := ih
      refine ⟨j, he, hj, fun i hi hn => ?_⟩
      obtain rfl | hlt : i = n + 1 ∨ i ≤ n := by omega
      · exact gridPoint?_eq_none hr hnone
      · exact hcoarse i hi hlt

/-- A grid coarser than the number has digits has no point in the interval. -/
theorem Sound.not_holds (hr : r.Sound) (hi : (Nat.toDigits 10 r.value).length < i) (c : Nat) :
    r.holds (c * 10 ^ i) = false := by
  rw [Bool.eq_false_iff]
  intro h
  have hc := hr.coefficient_pos h
  have hvalue : r.value < 10 ^ (Nat.toDigits 10 r.value).length :=
    (Nat.length_toDigits_le_iff (by decide) (Nat.length_toDigits_pos)).1 (Nat.le_refl _)
  have hunit : 10 * 10 ^ (Nat.toDigits 10 r.value).length ≤ 10 ^ i := by
    rw [← Nat.pow_succ']
    exact Nat.pow_le_pow_right (by decide) hi
  have hpoint : 10 ^ i ≤ c * 10 ^ i := Nat.le_mul_of_pos_left _ hc
  have hupper := hr.upper_le
  have hbounds := bounds_of_holds h
  omega

/-- What is found is a point of the coarsest grid of all that has one. -/
theorem coarsest_shortest (hr : r.Sound) : ∃ j : Nat, r.shortest.exponent = r.base + j ∧
    r.holds (r.shortest.coefficient * 10 ^ j) = true ∧ ∀ i, j < i → ∀ c, r.holds (c * 10 ^ i) = false := by
  obtain ⟨j, he, hj, hcoarse⟩ := coarsest_shortestUpTo hr (Nat.toDigits 10 r.value).length
  refine ⟨j, he, hj, fun i hi c => ?_⟩
  by_cases hmax : i ≤ (Nat.toDigits 10 r.value).length
  · exact hcoarse i hi hmax c
  · exact hr.not_holds (by omega) c

/-! ## 3. What is found -/

theorem value_units {d : Decimal} (h : d.exponent = r.base + j) :
    d.value = (d.coefficient * 10 ^ j : Nat) * 10 ^ r.base := by
  rw [Decimal.value, h, zpow_add₀ (by norm_num), zpow_natCast]
  push_cast
  ring

theorem contains_shortest (hr : r.Sound) : r.Contains r.shortest.value := by
  obtain ⟨j, he, hj, -⟩ := coarsest_shortest hr
  rw [value_units he, contains_units]
  exact hj

theorem shortest_pos (hr : r.Sound) : 0 < r.shortest.coefficient := by
  obtain ⟨j, -, hj, -⟩ := coarsest_shortest hr
  exact hr.coefficient_pos hj

/-- **No decimal in the interval has a greater exponent.** -/
theorem exponent_le_shortest (hr : r.Sound) {d : Decimal} (hd : r.Contains d.value) :
    d.exponent ≤ r.shortest.exponent := by
  obtain ⟨j, he, -, hcoarse⟩ := coarsest_shortest hr
  rw [he]
  by_contra hlt
  obtain ⟨i, hi⟩ : ∃ i : Nat, d.exponent = r.base + i := ⟨(d.exponent - r.base).toNat, by omega⟩
  rw [value_units hi, contains_units, hcoarse i (by omega)] at hd
  cases hd

/-- **No decimal in the interval has fewer digits.** Between one with fewer and the shortest there would be
    a power of ten, and its exponent would be greater. -/
theorem length_shortest_le (hr : r.Sound) {d : Decimal} (hd : r.Contains d.value) :
    r.shortest.digits.length ≤ d.digits.length := by
  by_contra hlt
  have hdigits : 0 < d.digits.length := Nat.length_toDigits_pos
  have hcoefficient : d.coefficient < 10 ^ d.digits.length :=
    (Nat.length_toDigits_le_iff (by decide) hdigits).1 (Nat.le_refl _)
  have hshortest : 10 ^ d.digits.length ≤ r.shortest.coefficient :=
    Nat.not_lt.1 fun h => hlt ((Nat.length_toDigits_le_iff (by decide) hdigits).2 h)
  have hexponent := exponent_le_shortest hr hd
  have hpower : (10 : ℚ) ^ (r.shortest.exponent + d.digits.length) =
      (10 ^ d.digits.length : Nat) * 10 ^ r.shortest.exponent := by
    rw [zpow_add₀ (by norm_num), zpow_natCast, Nat.cast_pow, mul_comm]
    rfl
  have hbelow : d.value ≤ 10 ^ (r.shortest.exponent + d.digits.length) := by
    rw [hpower, Decimal.value]
    have hunits : (10 : ℚ) ^ d.exponent ≤ 10 ^ r.shortest.exponent :=
      zpow_le_zpow_right₀ (by norm_num) hexponent
    have hcount : (d.coefficient : ℚ) ≤ (10 ^ d.digits.length : Nat) := Nat.cast_le.2 hcoefficient.le
    gcongr
  have habove : (10 : ℚ) ^ (r.shortest.exponent + d.digits.length) ≤ r.shortest.value := by
    rw [hpower, Decimal.value]
    have hcount : ((10 ^ d.digits.length : Nat) : ℚ) ≤ r.shortest.coefficient := Nat.cast_le.2 hshortest
    gcongr
  have hcontains : r.Contains (Decimal.value ⟨1, r.shortest.exponent + d.digits.length⟩) := by
    rw [Decimal.value_one]
    exact hd.between (contains_shortest hr) hbelow habove
  have : r.shortest.exponent + d.digits.length ≤ r.shortest.exponent := exponent_le_shortest hr hcontains
  omega

end Rounding

/-! ## 4. Words -/

namespace BinaryFloat

open Rounding

variable {x y : BinaryFloat} {q : ℚ}

/-- The distance to the next greater number, in units of `10 ^ base`. -/
def gap (x : BinaryFloat) : Nat :=
  if 0 ≤ x.exponent then 2 ^ x.exponent.toNat else 5 ^ (-x.exponent).toNat

theorem gap_pos (x : BinaryFloat) : 0 < x.gap := by
  unfold gap
  split <;> exact Nat.pow_pos (by decide)

theorem gap_units (x : BinaryFloat) : (x.gap : ℚ) * 10 ^ (ofBinary x).base = 2 ^ x.exponent := by
  show (x.gap : ℚ) * 10 ^ min x.exponent 0 = 2 ^ x.exponent
  unfold gap
  split <;> rename_i h
  · obtain ⟨n, hn⟩ := Int.eq_ofNat_of_zero_le h
    rw [hn, min_eq_right (by omega)]
    simp
  · obtain ⟨n, hn⟩ : ∃ n : Nat, x.exponent = -n := ⟨(-x.exponent).toNat, by omega⟩
    have hten : (10 : ℚ) ^ n = 5 ^ n * 2 ^ n := by rw [← mul_pow]; norm_num
    rw [hn, min_eq_left (by omega), neg_neg, Int.toNat_natCast, zpow_neg, zpow_neg, zpow_natCast,
      zpow_natCast, hten]
    push_cast
    field_simp

theorem lower_ofBinary (x : BinaryFloat) : (ofBinary x).lower =
    4 * (x.mantissa * x.gap) - if x.isNarrowBelow then x.gap else 2 * x.gap := rfl

theorem upper_ofBinary (x : BinaryFloat) :
    (ofBinary x).upper = 4 * (x.mantissa * x.gap) + 2 * x.gap := rfl

theorem sound_ofBinary (h : x.isZero = false) : (ofBinary x).Sound := by
  have hgap := gap_pos x
  have hmultiple : x.gap ≤ x.mantissa * x.gap := Nat.le_mul_of_pos_left _ (mantissa_pos h)
  have hvalue : (ofBinary x).value = x.mantissa * x.gap := rfl
  have hlower := lower_ofBinary x
  have hupper := upper_ofBinary x
  split at hlower <;> constructor <;> omega

/-- **The interval of a word is what is read as the word.** -/
theorem contains_ofBinary_iff (h : x.isZero = false) : (ofBinary x).Contains q ↔ Near q x := by
  have hmultiple : x.gap ≤ x.mantissa * x.gap := Nat.le_mul_of_pos_left _ (mantissa_pos h)
  have hgap := gap_units x
  have hnext : x.format.number (x.magnitude + 1) = x.format.number x.magnitude + 2 ^ x.exponent :=
    x.format.number_succ x.magnitude
  have hlower : ((ofBinary x).lower : ℚ) * 10 ^ (ofBinary x).base =
      2 * (x.format.number (x.magnitude - 1) + x.format.number x.magnitude) := by
    rw [number_pred h, number_magnitude, ← hgap, lower_ofBinary]
    split
    · rw [Nat.cast_sub (by omega)]
      push_cast
      ring
    · rw [Nat.cast_sub (by omega)]
      push_cast
      ring
  have hupper : ((ofBinary x).upper : ℚ) * 10 ^ (ofBinary x).base =
      2 * (x.format.number x.magnitude + x.format.number (x.magnitude + 1)) := by
    rw [hnext, number_magnitude, ← hgap, upper_ofBinary]
    push_cast
    ring
  have hclosed : (ofBinary x).closed = true ↔ x.mantissa % 2 = 0 := decide_eq_true_iff
  simp only [Contains, Near, hlower, hupper, hclosed]
  split_ifs <;> constructor <;> rintro ⟨hl, hu⟩ <;> constructor <;> linarith

theorem Near.congr (h : Near q x) (hf : x.format = y.format) (hm : x.magnitude = y.magnitude) :
    Near q y := by
  unfold Near at *
  rw [mantissa_mod_two, hf, hm] at h
  rwa [mantissa_mod_two]

theorem shortest_eq (h : x.isZero = false) : x.shortest = (ofBinary x).shortest := by
  rw [shortest, if_neg (by rw [h]; decide)]

theorem near_shortest (h : x.isZero = false) : Near x.shortest.value x := by
  rw [shortest_eq h, ← contains_ofBinary_iff h]
  exact contains_shortest (sound_ofBinary h)

/-- **A threshold among words is one among decimals.** Where a power of ten is read as the word `y`, the
    words from `y` on are written as decimals from that power on: the word itself since no decimal read as
    it has a greater exponent, and the others since rounding is monotone. -/
theorem power_le_shortest_iff {k : Int} (hk : Near (10 ^ k) y) (hf : x.format = y.format)
    (hzero : x.isZero = false) : y.magnitude ≤ x.magnitude ↔ (10 : ℚ) ^ k ≤ x.shortest.value := by
  have hwritten := near_shortest hzero
  constructor
  · intro hle
    obtain hlt | heq := Nat.lt_or_eq_of_le hle
    · exact (hk.lt_of_lt hwritten hf.symm hlt).le
    · have hsound := sound_ofBinary hzero
      have hpower : (ofBinary x).Contains (Decimal.value ⟨1, k⟩) := by
        rw [contains_ofBinary_iff hzero, Decimal.value_one]
        exact hk.congr hf.symm heq
      have hexponent : k ≤ x.shortest.exponent := by
        rw [shortest_eq hzero]
        exact exponent_le_shortest hsound hpower
      have hcoefficient : (1 : ℚ) ≤ x.shortest.coefficient := by
        rw [shortest_eq hzero]
        exact Nat.one_le_cast.2 (shortest_pos hsound)
      calc (10 : ℚ) ^ k = 1 * 10 ^ k := (one_mul _).symm
        _ ≤ x.shortest.coefficient * 10 ^ x.shortest.exponent :=
          mul_le_mul hcoefficient (zpow_le_zpow_right₀ (by norm_num) hexponent) (by positivity)
            (by positivity)
  · intro hle
    by_contra hlt
    exact absurd hle (not_le.2 (hwritten.lt_of_lt hk hf (by omega)))

end BinaryFloat

end DomBuilder
