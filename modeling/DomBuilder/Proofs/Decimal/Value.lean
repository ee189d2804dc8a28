import DomBuilder.Decimal.Shortest
import Mathlib.Algebra.Order.Field.Power
import Mathlib.Data.Rat.Cast.Order
import Mathlib.Order.Monotone.Basic
import Mathlib.Tactic.Linarith
import Mathlib.Tactic.Positivity
import Mathlib.Tactic.Ring

/-!
# The numbers that words stand for

Without its sign a word is a counter: the next word stands for the next number. This file fixes the
numbers as rationals, and what it means that a number is read as a word:

* `steps`, `number`: what a magnitude stands for, counted in the smallest positive number. One magnitude
  further is one gap further (`steps_succ`), so greater magnitudes stand for greater numbers;
* `Reads`: no word of the format stands for a nearer number, and of two equally near ones the even one is
  read. Nothing in it speaks of neighbours or intervals;
* `reads_iff_near`: **a number is read as a word exactly if it lies between the midpoints to the word's two
  neighbours**, which belong to it if it is even;
* `Near.lt_of_lt`: rounding is monotone. What is read as a smaller magnitude is smaller.
-/

namespace DomBuilder

/-! ## 1. Magnitudes -/

namespace BinaryFormat

/-- What a magnitude stands for, counted in the smallest positive number of the format. -/
def steps (f : BinaryFormat) (m : Nat) : Nat :=
  (if m / 2 ^ f.fractionBits = 0 then m % 2 ^ f.fractionBits
    else 2 ^ f.fractionBits + m % 2 ^ f.fractionBits) * 2 ^ (m / 2 ^ f.fractionBits - 1)

/-- The number that a magnitude stands for. That of an infinity comes next to the greatest finite number,
    and those of the non-numbers come after it. -/
def number (f : BinaryFormat) (m : Nat) : ℚ := f.steps m * 2 ^ f.leastExponent

theorem steps_fields (f : BinaryFormat) (e : Nat) {r : Nat} (hr : r < 2 ^ f.fractionBits) :
    f.steps (2 ^ f.fractionBits * e + r) =
      (if e = 0 then r else 2 ^ f.fractionBits + r) * 2 ^ (e - 1) := by
  have hfield : (2 ^ f.fractionBits * e + r) / 2 ^ f.fractionBits = e := by
    rw [Nat.mul_add_div (Nat.two_pow_pos f.fractionBits), Nat.div_eq_of_lt hr, Nat.add_zero]
  have hfraction : (2 ^ f.fractionBits * e + r) % 2 ^ f.fractionBits = r := by
    rw [Nat.mul_add_mod, Nat.mod_eq_of_lt hr]
  rw [steps, hfield, hfraction]

/-- **One magnitude further is one gap further**, also where the exponent field grows. -/
theorem steps_succ (f : BinaryFormat) (m : Nat) :
    f.steps (m + 1) = f.steps m + 2 ^ (m / 2 ^ f.fractionBits - 1) := by
  have hr : m % 2 ^ f.fractionBits < 2 ^ f.fractionBits := Nat.mod_lt m (Nat.two_pow_pos f.fractionBits)
  have hm := Nat.div_add_mod m (2 ^ f.fractionBits)
  generalize m / 2 ^ f.fractionBits = e at *
  generalize m % 2 ^ f.fractionBits = r at *
  obtain rfl := hm
  rw [steps_fields f e hr]
  by_cases hnext : r + 1 < 2 ^ f.fractionBits
  · rw [Nat.add_assoc, steps_fields f e hnext]
    split <;> ring
  · -- the fraction is full: the field grows, and the gap does so only from the second field on
    have hfull : 2 ^ f.fractionBits = r + 1 := by omega
    have hlast : 2 ^ f.fractionBits * e + r + 1 = 2 ^ f.fractionBits * (e + 1) + 0 := by
      rw [Nat.mul_add]
      omega
    rw [hlast, steps_fields f (e + 1) (Nat.two_pow_pos f.fractionBits)]
    cases e with
    | zero => simp [hfull]
    | succ e =>
      simp only [Nat.add_eq_zero_iff, Nat.one_ne_zero, and_false, if_false, Nat.add_sub_cancel, hfull]
      ring

theorem number_succ (f : BinaryFormat) (m : Nat) :
    f.number (m + 1) = f.number m + 2 ^ (f.leastExponent + (m / 2 ^ f.fractionBits - 1 : Nat)) := by
  rw [number, number, steps_succ, zpow_add₀ two_ne_zero, zpow_natCast]
  push_cast
  ring

theorem number_strictMono (f : BinaryFormat) : StrictMono f.number :=
  strictMono_nat_of_lt_succ fun m => by
    rw [number_succ]
    exact lt_add_of_pos_right _ (by positivity)

theorem number_nonneg (f : BinaryFormat) (m : Nat) : 0 ≤ f.number m := by
  unfold number
  positivity

theorem number_zero (f : BinaryFormat) : f.number 0 = 0 := by
  simp [number, steps]

end BinaryFormat

/-! ## 2. Words -/

namespace BinaryFloat

open BinaryFormat

variable {x y : BinaryFloat} {q r : ℚ}

def sign (x : BinaryFloat) : ℚ := if x.isNegative then -1 else 1

/-- The number that a word stands for. -/
def value (x : BinaryFloat) : ℚ := x.sign * (x.mantissa * 2 ^ x.exponent)

/-- The number is read as the word: to the nearest number, and to the even mantissa if two are equally near.
    The words of the infinities stand in for the numbers that would come next, since a number is too great
    only if it is so after rounding. -/
def Reads (r : ℚ) (x : BinaryFloat) : Prop :=
  ∀ y : BinaryFloat, y.format = x.format → y.value ≠ x.value →
    |r - x.value| < |r - y.value| ∨ |r - x.value| = |r - y.value| ∧ x.mantissa % 2 = 0

/-- Between the midpoints to the two neighbours, which belong to an even word. -/
def Near (q : ℚ) (x : BinaryFloat) : Prop :=
  let below := x.format.number (x.magnitude - 1) + x.format.number x.magnitude
  let above := x.format.number x.magnitude + x.format.number (x.magnitude + 1)
  if x.mantissa % 2 = 0 then below ≤ 2 * q ∧ 2 * q ≤ above else below < 2 * q ∧ 2 * q < above

theorem exponent_eq (x : BinaryFloat) :
    x.exponent = x.format.leastExponent + (x.magnitude / 2 ^ x.format.fractionBits - 1 : Nat) := rfl

theorem steps_magnitude (x : BinaryFloat) : x.format.steps x.magnitude =
    x.mantissa * 2 ^ (x.magnitude / 2 ^ x.format.fractionBits - 1) := rfl

theorem number_magnitude (x : BinaryFloat) :
    x.format.number x.magnitude = x.mantissa * 2 ^ x.exponent := by
  rw [number, steps_magnitude, exponent_eq, zpow_add₀ two_ne_zero, zpow_natCast]
  push_cast
  ring

theorem value_eq (x : BinaryFloat) : x.value = x.sign * x.format.number x.magnitude := by
  rw [value, number_magnitude]

/-- The hidden bit is even. -/
theorem mantissa_mod_two (x : BinaryFloat) : x.mantissa % 2 = x.magnitude % 2 := by
  have hP : 2 ∣ 2 ^ x.format.fractionBits := by cases x.format <;> decide
  have hfraction : x.fractionField % 2 = x.magnitude % 2 := Nat.mod_mod_of_dvd x.magnitude hP
  have hhidden : (Nat.pow 2 x.format.fractionBits + x.fractionField) % 2 = x.fractionField % 2 := by
    have : Nat.pow 2 x.format.fractionBits % 2 = 0 := Nat.mod_eq_zero_of_dvd hP
    omega
  unfold mantissa
  split
  · exact hfraction
  · exact hhidden.trans hfraction

theorem magnitude_pos (h : x.isZero = false) : 0 < x.magnitude := by
  have : x.magnitude ≠ 0 := by simpa [isZero] using h
  omega

/-- A finite word is not the last one. -/
theorem magnitude_lt (h : x.isFinite = true) : x.magnitude + 1 < x.format.signWord := by
  have hfield : x.magnitude / 2 ^ x.format.fractionBits < 2 ^ x.format.exponentBits - 1 :=
    of_decide_eq_true h
  have hm := (Nat.div_lt_iff_lt_mul (Nat.two_pow_pos x.format.fractionBits)).1 hfield
  have hsign : x.format.signWord = 2 ^ x.format.exponentBits * 2 ^ x.format.fractionBits := by
    rw [← Nat.pow_add, Nat.add_comm]
    rfl
  have hP : 2 ≤ 2 ^ x.format.fractionBits := by cases x.format <;> decide
  have hE : 2 ^ x.format.fractionBits ≤ 2 ^ x.format.exponentBits * 2 ^ x.format.fractionBits :=
    Nat.le_mul_of_pos_left _ (Nat.two_pow_pos _)
  rw [Nat.sub_one_mul] at hm
  omega

/-- The word with the same sign and another magnitude. -/
def withMagnitude (x : BinaryFloat) (k : Nat) : BinaryFloat :=
  { x with word := x.format.signWord * (x.word / x.format.signWord) + k }

theorem magnitude_withMagnitude {k : Nat} (h : k < x.format.signWord) :
    (x.withMagnitude k).magnitude = k := by
  show (x.format.signWord * (x.word / x.format.signWord) + k) % x.format.signWord = k
  rw [Nat.mul_add_mod, Nat.mod_eq_of_lt h]

theorem sign_withMagnitude {k : Nat} (h : k < x.format.signWord) :
    (x.withMagnitude k).sign = x.sign := by
  have hpos : 0 < x.format.signWord := by omega
  have hnegative : (x.withMagnitude k).isNegative = x.isNegative := by
    show decide ((x.format.signWord * (x.word / x.format.signWord) + k) / x.format.signWord % 2 = 1) = _
    rw [Nat.mul_add_div hpos, Nat.div_eq_of_lt h, Nat.add_zero]
    rfl
  rw [sign, sign, hnegative]

theorem sign_cases (x : BinaryFloat) : x.sign = 1 ∨ x.sign = -1 := by
  unfold sign
  split
  · exact .inr rfl
  · exact .inl rfl

theorem sign_mul_self (x : BinaryFloat) : x.sign * x.sign = 1 := by
  obtain h | h := sign_cases x <;> rw [h] <;> norm_num

theorem abs_sign_mul (x : BinaryFloat) (q : ℚ) : |x.sign * q| = |q| := by
  obtain h | h := sign_cases x <;> simp [h]

/-! ## 3. What is read as a word -/

/-- Which of two numbers is preferred, where the greater one is told by what it owns. -/
theorem preferred_above {a b : ℚ} (h : a < b) (owns : Prop) [Decidable owns] :
    |q - b| < |q - a| ∨ |q - b| = |q - a| ∧ owns ↔
      if owns then a + b ≤ 2 * q else a + b < 2 * q := by
  have hsquares : (q - a) ^ 2 - (q - b) ^ 2 = (b - a) * (2 * q - (a + b)) := by ring
  have hlt : |q - b| < |q - a| ↔ a + b < 2 * q := by
    rw [← sq_lt_sq, ← sub_pos, hsquares, mul_pos_iff_of_pos_left (sub_pos.2 h), sub_pos]
  have heq : |q - b| = |q - a| ↔ a + b = 2 * q := by
    rw [eq_comm, ← sq_eq_sq_iff_abs_eq_abs, ← sub_eq_zero, hsquares, mul_eq_zero,
      or_iff_right (sub_pos.2 h).ne', sub_eq_zero, eq_comm]
  rw [hlt, heq]
  split
  · rw [le_iff_lt_or_eq]
    tauto
  · tauto

theorem preferred_below {a b : ℚ} (h : b < a) (owns : Prop) [Decidable owns] :
    |q - b| < |q - a| ∨ |q - b| = |q - a| ∧ owns ↔
      if owns then 2 * q ≤ b + a else 2 * q < b + a := by
  have hmirror := preferred_above (q := -q) (neg_lt_neg h) owns
  have hb : |-q - -b| = |q - b| := by rw [neg_sub_neg, abs_sub_comm]
  have ha : |-q - -a| = |q - a| := by rw [neg_sub_neg, abs_sub_comm]
  rw [hb, ha] at hmirror
  rw [hmirror]
  split <;> constructor <;> intro <;> linarith

theorem near_iff : Near q x ↔
    (if x.mantissa % 2 = 0 then
      x.format.number (x.magnitude - 1) + x.format.number x.magnitude ≤ 2 * q
    else x.format.number (x.magnitude - 1) + x.format.number x.magnitude < 2 * q) ∧
    (if x.mantissa % 2 = 0 then
      2 * q ≤ x.format.number x.magnitude + x.format.number (x.magnitude + 1)
    else 2 * q < x.format.number x.magnitude + x.format.number (x.magnitude + 1)) := by
  unfold Near
  split <;> rfl

theorem sign_mul_value (x : BinaryFloat) : x.sign * x.value = x.format.number x.magnitude := by
  rw [value_eq, ← mul_assoc, sign_mul_self, one_mul]

theorem abs_sign_mul_sub (x : BinaryFloat) (q r : ℚ) : |x.sign * q - r| = |q - x.sign * r| := by
  rw [← abs_sign_mul x (q - x.sign * r), mul_sub, ← mul_assoc, sign_mul_self, one_mul]

theorem sign_mul_ne (h : y.value ≠ x.value) : x.sign * y.value ≠ x.format.number x.magnitude := by
  rw [← sign_mul_value]
  intro e
  have hsign : x.sign ≠ 0 := by obtain h | h := sign_cases x <;> rw [h] <;> norm_num
  exact h (mul_left_cancel₀ hsign e)

/-- Turned by the sign of `x`, no word stands for a number strictly between `x` and its neighbours. -/
theorem outside_of_ne (hx : 0 < x.magnitude) (hf : y.format = x.format) (hne : y.value ≠ x.value) :
    x.sign * y.value ≤ x.format.number (x.magnitude - 1) ∨
      x.format.number (x.magnitude + 1) ≤ x.sign * y.value := by
  have hmono := number_strictMono x.format
  have hother := sign_mul_ne hne
  have hsign : x.sign * y.sign = 1 ∨ x.sign * y.sign = -1 := by
    obtain h | h := sign_cases x <;> obtain h' | h' := sign_cases y <;> simp [h, h']
  rw [value_eq, hf, ← mul_assoc] at hother ⊢
  obtain h | h := hsign
  · rw [h, one_mul] at hother ⊢
    rw [hmono.le_iff_le, hmono.le_iff_le]
    have : y.magnitude ≠ x.magnitude := fun e => hother (by rw [e])
    omega
  · -- numbers of the other sign are below zero, and so below every neighbour
    rw [h, neg_one_mul]
    exact .inl ((neg_nonpos.2 (number_nonneg _ _)).trans (number_nonneg _ _))

/-- The other words with the sign of `x` are among those that a number read as `x` is compared with. -/
theorem Reads.preferred {k : Nat} (h : Reads (x.sign * q) x) (hk : k < x.format.signWord)
    (hne : k ≠ x.magnitude) :
    |q - x.format.number x.magnitude| < |q - x.format.number k| ∨
      |q - x.format.number x.magnitude| = |q - x.format.number k| ∧ x.mantissa % 2 = 0 := by
  have hvalue : x.sign * (x.withMagnitude k).value = x.format.number k := by
    have := sign_mul_value (x.withMagnitude k)
    rwa [sign_withMagnitude hk, magnitude_withMagnitude hk] at this
  have hother : (x.withMagnitude k).value ≠ x.value := fun e =>
    hne ((number_strictMono x.format).injective (by rw [← hvalue, e, sign_mul_value]))
  have := h (x.withMagnitude k) rfl hother
  rwa [abs_sign_mul_sub, abs_sign_mul_sub, sign_mul_value, hvalue] at this

/-- **What is read as a word lies between the midpoints to its neighbours**, and all of it does. -/
theorem reads_iff_near (hfinite : x.isFinite = true) (hzero : x.isZero = false) :
    Reads (x.sign * q) x ↔ Near q x := by
  have hpos := magnitude_pos hzero
  have hnext := magnitude_lt hfinite
  have hbelow : x.format.number (x.magnitude - 1) < x.format.number x.magnitude :=
    number_strictMono x.format (by omega)
  have habove : x.format.number x.magnitude < x.format.number (x.magnitude + 1) :=
    number_strictMono x.format (by omega)
  rw [near_iff]
  constructor
  · intro h
    exact ⟨(preferred_above hbelow _).1 (h.preferred (by omega) (by omega)),
      (preferred_below habove _).1 (h.preferred hnext (by omega))⟩
  · rintro ⟨hlow, hhigh⟩ y hf hne
    rw [abs_sign_mul_sub, abs_sign_mul_sub, sign_mul_value]
    obtain h | h := outside_of_ne hpos hf hne
    · rw [preferred_above (h.trans_lt hbelow)]
      split_ifs at hlow ⊢ <;> linarith
    · rw [preferred_below (habove.trans_le h)]
      split_ifs at hhigh ⊢ <;> linarith

/-- Only positive numbers are read as a magnitude other than zero. -/
theorem Near.pos (h : Near q x) (hzero : x.isZero = false) : 0 < q := by
  have hself : x.format.number 0 < x.format.number x.magnitude :=
    number_strictMono x.format (magnitude_pos hzero)
  rw [number_zero] at hself
  have hbelow := number_nonneg x.format (x.magnitude - 1)
  obtain ⟨hlow, -⟩ := near_iff.1 h
  split at hlow <;> linarith

/-- **Rounding is monotone**: what is read as a smaller magnitude is smaller. Where the two ranges touch,
    only the even word owns the midpoint. -/
theorem Near.lt_of_lt (hx : Near q x) (hy : Near r y) (hf : x.format = y.format)
    (h : x.magnitude < y.magnitude) : q < r := by
  have hmono := number_strictMono x.format
  have hxm := mantissa_mod_two x
  have hym := mantissa_mod_two y
  obtain ⟨-, hx⟩ := near_iff.1 hx
  obtain ⟨hy, -⟩ := near_iff.1 hy
  rw [← hf] at hy
  have hlow : x.format.number x.magnitude ≤ x.format.number (y.magnitude - 1) :=
    hmono.monotone (by omega)
  have hhigh : x.format.number (x.magnitude + 1) ≤ x.format.number y.magnitude :=
    hmono.monotone (by omega)
  have hx' : 2 * q ≤ x.format.number x.magnitude + x.format.number (x.magnitude + 1) := by
    split at hx
    · exact hx
    · exact hx.le
  have hy' : x.format.number (y.magnitude - 1) + x.format.number y.magnitude ≤ 2 * r := by
    split at hy
    · exact hy
    · exact hy.le
  by_cases hodd : x.magnitude % 2 = 1 ∨ y.magnitude % 2 = 1
  · obtain h | h := hodd
    · rw [if_neg (by omega)] at hx
      linarith
    · rw [if_neg (by omega)] at hy
      linarith
  · -- two even magnitudes are no neighbours
    have hgap : x.format.number (x.magnitude + 1) < x.format.number y.magnitude := hmono (by omega)
    linarith

/-- The exponent field of the next smaller magnitude, without the hidden bit's place. -/
theorem field_pred (hzero : x.isZero = false) :
    (x.magnitude - 1) / 2 ^ x.format.fractionBits - 1 =
      x.exponentField - 1 - if x.isNarrowBelow then 1 else 0 := by
  have hP : 0 < 2 ^ x.format.fractionBits := Nat.two_pow_pos _
  have hpos := magnitude_pos hzero
  have hm : 2 ^ x.format.fractionBits * x.exponentField + x.fractionField = x.magnitude :=
    Nat.div_add_mod x.magnitude (2 ^ x.format.fractionBits)
  have hr : x.fractionField < 2 ^ x.format.fractionBits := Nat.mod_lt _ hP
  have hnarrow : x.isNarrowBelow = true ↔ x.fractionField = 0 ∧ 1 < x.exponentField := by
    simp [isNarrowBelow]
  rw [if_congr hnarrow rfl rfl, ← hm]
  by_cases h : x.fractionField = 0
  · obtain ⟨e, he⟩ : ∃ e, x.exponentField = e + 1 := Nat.exists_eq_succ_of_ne_zero fun he => by
      rw [h, he] at hm
      omega
    have hlast : 2 ^ x.format.fractionBits * (e + 1) + 0 - 1 =
        2 ^ x.format.fractionBits * e + (2 ^ x.format.fractionBits - 1) := by
      rw [Nat.mul_add]
      omega
    rw [h, he, hlast, Nat.mul_add_div hP, Nat.div_eq_of_lt (by omega)]
    split <;> omega
  · have hsame : 2 ^ x.format.fractionBits * x.exponentField + x.fractionField - 1 =
        2 ^ x.format.fractionBits * x.exponentField + (x.fractionField - 1) := by omega
    rw [if_neg fun hn => h hn.1, hsame, Nat.mul_add_div hP, Nat.div_eq_of_lt (by omega)]
    rfl

/-- The next smaller number, which is nearer than the next greater one just above a power of two. -/
theorem number_pred (hzero : x.isZero = false) :
    x.format.number (x.magnitude - 1) = x.format.number x.magnitude -
      if x.isNarrowBelow then 2 ^ x.exponent / 2 else 2 ^ x.exponent := by
  have hgap := number_succ x.format (x.magnitude - 1)
  rw [Nat.sub_add_cancel (magnitude_pos hzero), field_pred hzero] at hgap
  rw [hgap]
  split <;> rename_i hn
  · have hfield : 1 < x.exponentField := by
      simp only [isNarrowBelow, Bool.and_eq_true, decide_eq_true_eq] at hn
      exact hn.2
    have hexponent : x.exponent = x.format.leastExponent + ((x.exponentField - 1 - 1 : Nat) : Int) + 1 := by
      unfold exponent
      omega
    rw [hexponent, zpow_add_one₀ two_ne_zero]
    ring
  · rw [exponent, Nat.sub_zero]
    ring

theorem value_neg_iff (hzero : x.isZero = false) : x.value < 0 ↔ x.isNegative = true := by
  have hpos : 0 < x.format.number x.magnitude := by
    rw [← number_zero x.format]
    exact number_strictMono x.format (magnitude_pos hzero)
  rw [value_eq, sign]
  split <;> rename_i h
  · simpa [h] using hpos
  · simpa [h] using hpos.le

end BinaryFloat

end DomBuilder
