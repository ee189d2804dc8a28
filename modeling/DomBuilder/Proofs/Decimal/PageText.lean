import DomBuilder.Argument
import DomBuilder.Proofs.Decimal.Notation

/-!
# Numbers as pages show them

A floating-point number becomes text in one of two notations, and which one is asked of the word and not of
the decimal. This file fixes that this makes no difference:

* `near_positionalFrom`, `near_scientificFrom`: the words of the two bounds are the ones that the bounds are
  read as, in both formats;
* `isPositional_iff`: the words between them are those whose shortest decimal is between the bounds;
* `printed`: the decimal that is written, with the sign. Both texts of a number stand for it;
* `pageText_laid_out`: **what a page shows of a number, which notation it is in, and its sign.**
-/

namespace DomBuilder.BinaryFloat

open Decimal Rounding

variable {x y : BinaryFloat} {q : ℚ}

/-! ## 1. The bounds -/

/-- A power of ten that lies in the interval is read as the word. -/
theorem near_power {k : Int} {n : Nat} (hzero : y.isZero = false) (hk : k = (ofBinary y).base + n)
    (hn : (ofBinary y).holds (10 ^ n) = true) : Near (10 ^ k) y := by
  rw [← contains_ofBinary_iff hzero, ← Decimal.value_one, value_units (d := ⟨1, k⟩) hk, contains_units,
    Nat.one_mul]
  exact hn

theorem near_positionalFrom (f : BinaryFormat) : Near (10 ^ (-6 : Int)) ⟨f, f.positionalFrom⟩ := by
  cases f
  · exact near_power (n := 37) (by decide) (by decide) (by decide)
  · exact near_power (n := 66) (by decide) (by decide) (by decide)

theorem near_scientificFrom (f : BinaryFormat) : Near (10 ^ (21 : Int)) ⟨f, f.scientificFrom⟩ := by
  cases f <;> exact near_power (n := 21) (by decide) (by decide) (by decide)

/-- **The bounds may be asked of the word**: that agrees with asking them of the decimal. -/
theorem isPositional_iff (hzero : x.isZero = false) : x.isPositional = true ↔
    10 ^ (-6 : Int) ≤ x.shortest.value ∧ x.shortest.value < 10 ^ (21 : Int) := by
  have hlow : (⟨x.format, x.format.positionalFrom⟩ : BinaryFloat).magnitude = x.format.positionalFrom := by
    cases x.format <;> decide
  have hhigh : (⟨x.format, x.format.scientificFrom⟩ : BinaryFloat).magnitude = x.format.scientificFrom := by
    cases x.format <;> decide
  have hpositional := power_le_shortest_iff (x := x) (near_positionalFrom x.format) rfl hzero
  have hscientific := power_le_shortest_iff (x := x) (near_scientificFrom x.format) rfl hzero
  rw [hlow] at hpositional
  rw [hhigh] at hscientific
  rw [isPositional, Bool.and_eq_true, decide_eq_true_eq, decide_eq_true_eq, hpositional, ← not_le,
    hscientific, not_le]

/-! ## 2. The texts -/

/-- The decimal that is written, with the sign of the word. -/
def printed (x : BinaryFloat) : ℚ := x.sign * x.shortest.value

theorem shortest_coefficient_pos (hzero : x.isZero = false) : 0 < x.shortest.coefficient := by
  rw [shortest_eq hzero]
  exact shortest_pos (sound_ofBinary hzero)

theorem abs_printed (x : BinaryFloat) : |x.printed| = x.shortest.value := by
  rw [printed, abs_sign_mul, Decimal.value]
  exact abs_of_nonneg (by positivity)

/-- A minus sign in front of a text goes with the sign of the number. -/
theorem signed_signText {U : List Char → ℚ → Prop} {t : List Char} (h : U t q) :
    Signed U (x.signText ++ t) (x.sign * q) := by
  unfold signText sign
  split
  · rw [neg_one_mul]
    exact .minus h
  · rw [one_mul]
    exact .plus h

theorem plainText_eq (hfinite : x.isFinite = true) :
    x.plainText.toList = x.signText ++ x.shortest.positional := by
  simp [plainText, isNaN, hfinite]

theorem pageText_eq (hfinite : x.isFinite = true) (hzero : x.isZero = false) : x.pageText.toList =
    x.signText ++ if x.isPositional then x.shortest.positional else x.shortest.scientific := by
  simp [pageText, isNaN, hfinite, hzero]

theorem plainText_printed (hfinite : x.isFinite = true) (hzero : x.isZero = false) :
    Signed PlainText x.plainText.toList x.printed := by
  rw [plainText_eq hfinite]
  exact signed_signText (plainText_positional (shortest_coefficient_pos hzero))

theorem pageText_positional (hfinite : x.isFinite = true) (hzero : x.isZero = false)
    (h : x.isPositional = true) : Signed PlainText x.pageText.toList x.printed := by
  rw [pageText_eq hfinite hzero, if_pos h]
  exact signed_signText (plainText_positional (shortest_coefficient_pos hzero))

theorem pageText_scientific (hfinite : x.isFinite = true) (hzero : x.isZero = false)
    (h : x.isPositional ≠ true) : Signed ExponentText x.pageText.toList x.printed := by
  rw [pageText_eq hfinite hzero, if_neg h]
  exact signed_signText (exponentText_scientific (shortest_coefficient_pos hzero))

theorem pageText_denotes (hfinite : x.isFinite = true) (hzero : x.isZero = false) :
    Denotes x.pageText.toList x.printed := by
  by_cases h : x.isPositional = true
  · exact .inl (pageText_positional hfinite hzero h)
  · exact .inr (pageText_scientific hfinite hzero h)

/-- Each notation is used exactly where it is meant to be, since no text is one of both. -/
theorem exists_plainText_iff (hfinite : x.isFinite = true) (hzero : x.isZero = false) :
    ((∃ q, Signed PlainText x.pageText.toList q) ↔ x.isPositional = true) ∧
      ((∃ q, Signed ExponentText x.pageText.toList q) ↔ x.isPositional ≠ true) := by
  by_cases h : x.isPositional = true
  · have hplain := pageText_positional hfinite hzero h
    exact ⟨iff_of_true ⟨_, hplain⟩ h, iff_of_false (fun ⟨_, hq⟩ => not_both hplain hq) (not_not.2 h)⟩
  · have hexponent := pageText_scientific hfinite hzero h
    exact ⟨iff_of_false (fun ⟨_, hq⟩ => not_both hq hexponent) h, iff_of_true ⟨_, hexponent⟩ h⟩

theorem head?_pageText (hfinite : x.isFinite = true) (hzero : x.isZero = false) :
    x.pageText.toList.head? = some '-' ↔ x.isNegative = true := by
  have hdigit : ∀ {t : List Char}, t.head?.any Char.isDigit = true → t.head? ≠ some '-' := by
    intro t ht e
    rw [e] at ht
    exact absurd ht (by decide)
  have hlead : (if x.isPositional then x.shortest.positional
      else x.shortest.scientific).head? ≠ some '-' := by
    have hpos := shortest_coefficient_pos hzero
    split
    · exact hdigit (plainText_positional hpos).isDigit_head
    · exact hdigit (exponentText_scientific hpos).isDigit_head
  rw [pageText_eq hfinite hzero, signText]
  split <;> rename_i h
  · exact iff_of_true rfl h
  · exact iff_of_false hlead h

/-! ## 3. What a page shows -/

/-- The decimal written for a word is read as the word, and none with fewer digits is, whatever its sign. -/
theorem printed_shortest (hfinite : x.isFinite = true) (hzero : x.isZero = false) :
    Reads x.printed x ∧ ∀ d : Decimal, Reads d.value x ∨ Reads (-d.value) x →
      x.shortest.digits.length ≤ d.digits.length := by
  refine ⟨(reads_iff_near hfinite hzero).2 (near_shortest hzero), fun d hd => ?_⟩
  have hvalue : 0 ≤ d.value := by
    unfold Decimal.value
    positivity
  obtain ⟨r, hr, hreads⟩ : ∃ r, |r| = d.value ∧ Reads r x := by
    obtain hd | hd := hd
    · exact ⟨_, abs_of_nonneg hvalue, hd⟩
    · exact ⟨_, (abs_neg _).trans (abs_of_nonneg hvalue), hd⟩
  have hnear : Near (x.sign * r) x := by
    rwa [← reads_iff_near hfinite hzero, ← mul_assoc, sign_mul_self, one_mul]
  have hsame : x.sign * r = d.value := by
    rw [← hr, ← abs_sign_mul x r, abs_of_pos (hnear.pos hzero)]
  rw [hsame, ← contains_ofBinary_iff hzero] at hnear
  rw [shortest_eq hzero]
  exact length_shortest_le (sound_ofBinary hzero) hnear

/-- **A page shows the shortest decimal that is read as the number.** An argument made of a finite number
    other than zero is a text, which stands for the same decimal as the plain text does: one that is read
    as the number, and no decimal with fewer digits is. It has an exponent exactly if the decimal is
    10 ^ 21 or more, or below 10 ^ -6, apart from its sign, and it starts with a minus sign exactly if the
    number is negative. -/
theorem pageText_laid_out (x : BinaryFloat) (hfinite : x.isFinite = true) (hzero : x.isZero = false) :
    Argument.ofScalar (.float x) = .text x.pageText ∧
    (∀ q, Denotes x.plainText.toList q ↔ q = x.printed) ∧
    (Reads x.printed x ∧ ∀ d : Decimal, Reads d.value x ∨ Reads (-d.value) x →
      x.shortest.digits.length ≤ d.digits.length) ∧
    (∀ q, Denotes x.pageText.toList q ↔ q = x.printed) ∧
    ((∃ q, Signed ExponentText x.pageText.toList q) ↔
      10 ^ (21 : Int) ≤ |x.printed| ∨ |x.printed| < 10 ^ (-6 : Int)) ∧
    ((∃ q, Signed PlainText x.pageText.toList q) ↔
      ¬ (10 ^ (21 : Int) ≤ |x.printed| ∨ |x.printed| < 10 ^ (-6 : Int))) ∧
    (x.pageText.toList.head? = some '-' ↔ x.value < 0) := by
  have hplain : Denotes x.plainText.toList x.printed := .inl (plainText_printed hfinite hzero)
  have hpage := pageText_denotes hfinite hzero
  have hbounds : x.isPositional = true ↔
      ¬ (10 ^ (21 : Int) ≤ |x.printed| ∨ |x.printed| < 10 ^ (-6 : Int)) := by
    rw [isPositional_iff hzero, abs_printed, not_or, not_le, not_lt, and_comm]
  obtain ⟨hpositional, hscientific⟩ := exists_plainText_iff hfinite hzero
  refine ⟨rfl, fun q => ⟨fun h => h.unique hplain, fun e => e ▸ hplain⟩, printed_shortest hfinite hzero,
    fun q => ⟨fun h => h.unique hpage, fun e => e ▸ hpage⟩, ?_, hpositional.trans hbounds, ?_⟩
  · rw [hscientific, ne_eq, hbounds, not_not]
  · rw [head?_pageText hfinite hzero, value_neg_iff hzero]

/-- The word that - 10 ^ -6 is read as stands for a number between that and zero. It is shown as - 10 ^ -6,
    without an exponent. -/
theorem pageText_laid_out_millionth :
    |(⟨.binary32, 0xb58637bd⟩ : BinaryFloat).value| < 10 ^ (-6 : Int) ∧
    Argument.ofScalar (.float ⟨.binary32, 0xb58637bd⟩) = .text "-0.000001" ∧
    Reads (-10 ^ (-6 : Int)) ⟨.binary32, 0xb58637bd⟩ ∧
    Denotes "-0.000001".toList (-10 ^ (-6 : Int)) ∧
    ∃ q, Signed PlainText "-0.000001".toList q := by
  obtain ⟨hargument, -, ⟨hreads, -⟩, hpage, -, hplain, -⟩ :=
    pageText_laid_out ⟨.binary32, 0xb58637bd⟩ (by decide) (by decide)
  have htext : (⟨.binary32, 0xb58637bd⟩ : BinaryFloat).pageText = "-0.000001" := by decide +kernel
  have hprinted : (⟨.binary32, 0xb58637bd⟩ : BinaryFloat).printed = -10 ^ (-6 : Int) := by decide +kernel
  rw [htext] at hargument hpage hplain
  rw [hprinted] at hreads hpage hplain
  exact ⟨by decide +kernel, hargument, hreads, (hpage _).2 rfl, hplain.2 (by decide +kernel)⟩

end DomBuilder.BinaryFloat
