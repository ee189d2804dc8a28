import DomBuilder.Proofs.Decimal.Shortest
import DomBuilder.Proofs.Json.Values
import DomBuilder.Proofs.Markup.Fragment

/-!
# The notations of decimals

What a text of digits stands for does not depend on how it was made. This file fixes the two notations by
themselves, as relations between texts and rationals, and shows that the layouts are texts of them:

* `PlainText`: a whole part without leading zeros, and maybe a point with digits after it;
* `ExponentText`: one digit other than zero, maybe a point with digits after it, then `e`, a sign that is
  always there, and an exponent without leading zeros;
* `Denotes`: either of them, with a minus sign in front or not;
* `Denotes.unique`: **a text stands for one number at most**, and no text is one of both notations
  (`not_both`);
* `plainText_positional`, `exponentText_scientific`: the layouts of a decimal, each of which stands for the
  decimal.
-/

namespace DomBuilder.Decimal

open Fragment (span_unique)
open Json (Digits WholeForm)

variable {c s : Char} {n : Nat} {e f r t u w w' f' : List Char} {p q : ℚ} {d : Decimal}

/-! ## 1. The notations -/

/-- Digits of a number, with a point after the whole part unless nothing follows it. -/
def joined (w f : List Char) : List Char := if f = [] then w else w ++ '.' :: f

/-- The number with these digits before and after its point. -/
def pointed (w f : List Char) : ℚ := Nat.ofDigitChars 10 (w ++ f) 0 / 10 ^ f.length

/-- The exponent with this sign and these digits. -/
def signed (s : Char) (e : List Char) : Int :=
  if s = '-' then -Nat.ofDigitChars 10 e 0 else Nat.ofDigitChars 10 e 0

/-- Without an exponent. -/
inductive PlainText : List Char → ℚ → Prop where
  | mk {w f : List Char} (hw : WholeForm w) (hf : ∀ c ∈ f, c.isDigit = true) :
      PlainText (joined w f) (pointed w f)

/-- With an exponent: `s` is its sign and `e` its digits. -/
inductive ExponentText : List Char → ℚ → Prop where
  | mk {c s : Char} {f e : List Char} (hc : c.isDigit = true) (hzero : c ≠ '0')
      (hf : ∀ c ∈ f, c.isDigit = true) (hs : s = '+' ∨ s = '-') (he : WholeForm e) :
      ExponentText (joined [c] f ++ 'e' :: s :: e) (pointed [c] f * 10 ^ signed s e)

/-- With a minus sign in front, or as it is. -/
inductive Signed (Unsigned : List Char → ℚ → Prop) : List Char → ℚ → Prop where
  | plus {t : List Char} {q : ℚ} (h : Unsigned t q) : Signed Unsigned t q
  | minus {t : List Char} {q : ℚ} (h : Unsigned t q) : Signed Unsigned ('-' :: t) (-q)

/-- The text stands for the number, in either notation. -/
def Denotes (t : List Char) (q : ℚ) : Prop := Signed PlainText t q ∨ Signed ExponentText t q

/-! ## 2. One number for one text -/

/-- Ends a row of digits, and no point. -/
def endsDigits (t : List Char) : Bool := t.head?.any fun c => !c.isDigit && c != '.'

theorem not_point (h : endsDigits t = true) :
    t.head?.any (fun c => !c.isDigit) = true ∧ ∀ x, t ≠ '.' :: x := by
  cases t with
  | nil => cases h
  | cons c v =>
    simp only [endsDigits, List.head?_cons, Option.any_some, Bool.and_eq_true, bne_iff_ne] at h
    exact ⟨h.1, fun x e => h.2 (List.cons.inj e).1⟩

theorem joined_nil (w : List Char) : joined w [] = w := if_pos rfl

theorem joined_of_ne_nil (h : f ≠ []) : joined w f = w ++ '.' :: f := if_neg h

/-- Before anything but a digit or a point, the digits on both sides of the point are determined. -/
theorem joined_unique (hw : ∀ c ∈ w, c.isDigit = true) (hw' : ∀ c ∈ w', c.isDigit = true)
    (hf : ∀ c ∈ f, c.isDigit = true) (hf' : ∀ c ∈ f', c.isDigit = true)
    (ht : endsDigits t = true) (hu : endsDigits u = true)
    (h : joined w f ++ t = joined w' f' ++ u) : w = w' ∧ f = f' ∧ t = u := by
  have hplain : ∀ {v : List Char}, (∀ c ∈ v, c.isDigit = true) → ∀ c ∈ v, (!c.isDigit) = false :=
    fun hv c hc => by rw [hv c hc]; rfl
  have hpoint : ∀ x, ('.' :: x).head?.any (fun c => !c.isDigit) = true := fun _ => rfl
  obtain ⟨htd, htp⟩ := not_point ht
  obtain ⟨hud, hup⟩ := not_point hu
  by_cases hn : f = [] <;> by_cases hn' : f' = []
  · subst hn hn'
    rw [joined_nil, joined_nil] at h
    obtain ⟨rfl, rfl⟩ := span_unique (hplain hw) (hplain hw') htd hud h
    exact ⟨rfl, rfl, rfl⟩
  · subst hn
    rw [joined_nil, joined_of_ne_nil hn', List.append_assoc] at h
    exact absurd (span_unique (hplain hw) (hplain hw') htd (hpoint _) h).2 (htp _)
  · subst hn'
    rw [joined_nil, joined_of_ne_nil hn, List.append_assoc] at h
    exact absurd (span_unique (hplain hw) (hplain hw') (hpoint _) hud h).2.symm (hup _)
  · rw [joined_of_ne_nil hn, joined_of_ne_nil hn', List.append_assoc, List.append_assoc] at h
    obtain ⟨rfl, hrest⟩ := span_unique (hplain hw) (hplain hw') (hpoint _) (hpoint _) h
    obtain ⟨rfl, rfl⟩ := span_unique (hplain hf) (hplain hf') htd hud (List.cons.inj hrest).2
    exact ⟨rfl, rfl, rfl⟩

theorem digits_singleton (hc : c.isDigit = true) : ∀ x ∈ [c], x.isDigit = true := fun x hx => by
  rw [List.mem_singleton.1 hx]
  exact hc

theorem PlainText.unique (hp : PlainText t p) (hq : PlainText t q) : p = q := by
  obtain ⟨hw, hf⟩ := hp
  generalize ht : joined _ _ = t at hq
  obtain ⟨hw', hf'⟩ := hq
  -- a blank behind both marks their end
  obtain ⟨rfl, rfl, -⟩ := joined_unique hw.digits.2 hw'.digits.2 hf hf' (t := [' ']) (u := [' ']) rfl rfl
    (congrArg (· ++ [' ']) ht)
  rfl

theorem ExponentText.unique (hp : ExponentText t p) (hq : ExponentText t q) : p = q := by
  obtain ⟨hc, -, hf, -, -⟩ := hp
  generalize ht : joined _ _ ++ _ = t at hq
  obtain ⟨hc', -, hf', -, -⟩ := hq
  obtain ⟨hw, rfl, he⟩ := joined_unique (digits_singleton hc) (digits_singleton hc') hf hf' rfl rfl ht
  obtain ⟨rfl, -⟩ := List.cons.inj hw
  obtain ⟨-, he⟩ := List.cons.inj he
  obtain ⟨rfl, rfl⟩ := List.cons.inj he
  rfl

theorem not_plainText (hq : ExponentText t q) : ¬ PlainText t p := by
  intro hp
  obtain ⟨hw, hf⟩ := hp
  generalize ht : joined _ _ = t at hq
  obtain ⟨hc, -, hf', -, -⟩ := hq
  have h := congrArg (· ++ [' ']) ht
  simp only [List.append_assoc] at h
  obtain ⟨-, -, he⟩ := joined_unique hw.digits.2 (digits_singleton hc) hf hf' rfl rfl h
  exact absurd he (by simp)

theorem isDigit_head_joined (hw : Digits w) : (joined w f ++ r).head?.any Char.isDigit = true := by
  obtain ⟨c, v, rfl⟩ := List.exists_cons_of_ne_nil hw.1
  have hc := hw.2 c List.mem_cons_self
  unfold joined
  split <;> exact hc

theorem PlainText.isDigit_head (h : PlainText t q) : t.head?.any Char.isDigit = true := by
  obtain ⟨hw, -⟩ := h
  rw [← List.append_nil (joined _ _)]
  exact isDigit_head_joined hw.digits

theorem ExponentText.isDigit_head (h : ExponentText t q) : t.head?.any Char.isDigit = true := by
  obtain ⟨hc, -, -, -, -⟩ := h
  exact isDigit_head_joined ⟨List.cons_ne_nil _ _, digits_singleton hc⟩

/-- Two readings of a text agree on the sign. -/
theorem Signed.same {U V : List Char → ℚ → Prop} (hU : ∀ {t q}, U t q → t.head?.any Char.isDigit = true)
    (hV : ∀ {t q}, V t q → t.head?.any Char.isDigit = true) (hp : Signed U t p) (hq : Signed V t q) :
    ∃ u p' q', U u p' ∧ V u q' ∧ (p = p' ∧ q = q' ∨ p = -p' ∧ q = -q') := by
  have hminus : ∀ u, ('-' :: u).head?.any Char.isDigit ≠ true := fun u => by
    show Char.isDigit '-' ≠ true
    decide
  cases hp with
  | plus hp =>
    cases hq with
    | plus hq => exact ⟨_, _, _, hp, hq, .inl ⟨rfl, rfl⟩⟩
    | minus => exact absurd (hU hp) (hminus _)
  | minus hp =>
    cases hq with
    | plus hq => exact absurd (hV hq) (hminus _)
    | minus hq => exact ⟨_, _, _, hp, hq, .inr ⟨rfl, rfl⟩⟩

theorem Signed.unique {U : List Char → ℚ → Prop} (hU : ∀ {t q}, U t q → t.head?.any Char.isDigit = true)
    (hunique : ∀ {t p q}, U t p → U t q → p = q) (hp : Signed U t p) (hq : Signed U t q) : p = q := by
  obtain ⟨u, p', q', hp', hq', ⟨rfl, rfl⟩ | ⟨rfl, rfl⟩⟩ := hp.same hU hU hq
  · exact hunique hp' hq'
  · rw [hunique hp' hq']

/-- **No text is one of both notations.** -/
theorem not_both (hp : Signed PlainText t p) : ¬ Signed ExponentText t q := by
  intro hq
  obtain ⟨u, p', q', hp', hq', -⟩ := hp.same PlainText.isDigit_head ExponentText.isDigit_head hq
  exact not_plainText hq' hp'

/-- **A text stands for one number at most.** -/
theorem Denotes.unique (hp : Denotes t p) (hq : Denotes t q) : p = q := by
  rcases hp with hp | hp <;> rcases hq with hq | hq
  · exact hp.unique PlainText.isDigit_head PlainText.unique hq
  · exact absurd hq (not_both hp)
  · exact absurd hp (not_both hq)
  · exact hp.unique ExponentText.isDigit_head ExponentText.unique hq

/-! ## 3. The layouts -/

/-- No number but zero starts with a zero. -/
theorem head?_toDigits (hn : 0 < n) : (Nat.toDigits 10 n).head? ≠ some '0' := by
  induction n using Nat.strong_induction_on with
  | _ n ih =>
    by_cases hlt : n < 10
    · rw [Nat.toDigits_of_lt_base hlt, List.head?_cons, ne_eq, Option.some_inj, Nat.digitChar_eq_zero]
      omega
    · rw [Nat.toDigits_of_base_le (by decide) (by omega), List.head?_append_of_ne_nil _ Nat.toDigits_ne_nil]
      exact ih (n / 10) (by omega) (by omega)

theorem wholeForm_toDigits (n : Nat) : WholeForm (Nat.toDigits 10 n) := by
  obtain rfl | hn := Nat.eq_zero_or_pos n
  · exact .inl (Nat.toDigits_zero 10)
  · exact .inr ⟨⟨Nat.toDigits_ne_nil, fun c hc => Nat.isDigit_of_mem_toDigits (by decide) (by decide) hc⟩,
      head?_toDigits hn⟩

theorem isDigit_of_mem_digits (hc : c ∈ d.digits) : c.isDigit = true :=
  Nat.isDigit_of_mem_toDigits (by decide) (by decide) hc

theorem isDigit_of_mem_zeros (hc : c ∈ List.replicate n '0') : c.isDigit = true := by
  rw [List.eq_of_mem_replicate hc]
  rfl

/-- Zeros in front of its digits leave a number as it is. -/
theorem pointed_eq {n : Nat} (h : w ++ f = List.replicate n '0' ++ d.digits) :
    pointed w f = d.coefficient / 10 ^ f.length := by
  rw [pointed, h, Nat.ofDigitChars_append, Nat.ofDigitChars_replicate_zero, Nat.mul_zero, digits,
    Nat.ofDigitChars_ten_toDigits]

theorem plainText_zeros_behind (hd : 0 < d.coefficient) (n : Nat) :
    PlainText (d.digits ++ List.replicate n '0') (d.coefficient * 10 ^ n) := by
  have hne : d.digits ≠ [] := Nat.toDigits_ne_nil
  have hvalue : pointed (d.digits ++ List.replicate n '0') [] = d.coefficient * 10 ^ n := by
    rw [pointed, List.append_nil, Nat.ofDigitChars_append, Nat.ofDigitChars_replicate_zero, digits,
      Nat.ofDigitChars_ten_toDigits, List.length_nil]
    push_cast
    ring
  rw [← hvalue, ← joined_nil (d.digits ++ _)]
  refine .mk (.inr ⟨⟨by simp [hne], fun c hc => ?_⟩, ?_⟩) (by simp)
  · exact (List.mem_append.1 hc).elim isDigit_of_mem_digits isDigit_of_mem_zeros
  · rw [List.head?_append_of_ne_nil _ hne]
    exact head?_toDigits hd

theorem plainText_point_among (hd : 0 < d.coefficient) (hn : 0 < n) (hlt : n < d.digits.length) :
    PlainText (d.digits.take (d.digits.length - n) ++ '.' :: d.digits.drop (d.digits.length - n))
      (d.coefficient / 10 ^ n) := by
  have hlength : (d.digits.drop (d.digits.length - n)).length = n := by
    rw [List.length_drop]
    omega
  have hwhole : d.digits.take (d.digits.length - n) ≠ [] := by
    rw [ne_eq, List.take_eq_nil_iff, not_or]
    exact ⟨by omega, Nat.toDigits_ne_nil⟩
  have hfraction : d.digits.drop (d.digits.length - n) ≠ [] := List.ne_nil_of_length_pos (by omega)
  have hvalue := pointed_eq (n := 0) (List.take_append_drop (d.digits.length - n) d.digits)
  rw [hlength] at hvalue
  rw [← hvalue, ← joined_of_ne_nil hfraction]
  refine .mk (.inr ⟨⟨hwhole, fun c hc => isDigit_of_mem_digits (List.mem_of_mem_take hc)⟩, ?_⟩)
    fun c hc => isDigit_of_mem_digits (List.mem_of_mem_drop hc)
  rw [List.head?_take, if_neg (by omega)]
  exact head?_toDigits hd

theorem plainText_zeros_before (hle : d.digits.length ≤ n) :
    PlainText ('0' :: '.' :: (List.replicate (n - d.digits.length) '0' ++ d.digits))
      (d.coefficient / 10 ^ n) := by
  have hlength : (List.replicate (n - d.digits.length) '0' ++ d.digits).length = n := by
    rw [List.length_append, List.length_replicate]
    omega
  have hfraction : List.replicate (n - d.digits.length) '0' ++ d.digits ≠ [] := by
    simp [digits, Nat.toDigits_ne_nil]
  have hvalue : pointed ['0'] (List.replicate (n - d.digits.length) '0' ++ d.digits) =
      d.coefficient / 10 ^ (List.replicate (n - d.digits.length) '0' ++ d.digits).length :=
    pointed_eq (n := n - d.digits.length + 1) rfl
  rw [hlength] at hvalue
  rw [← hvalue]
  show PlainText (['0'] ++ '.' :: _) _
  rw [← joined_of_ne_nil hfraction]
  exact .mk (.inl rfl) fun c hc =>
    (List.mem_append.1 hc).elim isDigit_of_mem_zeros isDigit_of_mem_digits

/-- **Without an exponent a decimal is laid out as what it stands for.** -/
theorem plainText_positional (hd : 0 < d.coefficient) : PlainText d.positional d.value := by
  unfold positional value
  by_cases hwhole : 0 ≤ d.exponent
  · obtain ⟨n, hn⟩ := Int.eq_ofNat_of_zero_le hwhole
    rw [if_pos hwhole, hn, Int.toNat_natCast, zpow_natCast]
    exact plainText_zeros_behind hd n
  · obtain ⟨n, hn⟩ : ∃ n : Nat, d.exponent = -n := ⟨(-d.exponent).toNat, by omega⟩
    rw [if_neg hwhole, hn, neg_neg, Int.toNat_natCast, zpow_neg, zpow_natCast, ← div_eq_mul_inv]
    split_ifs with hamong
    · exact plainText_point_among hd (by omega) hamong
    · exact plainText_zeros_before (Nat.not_lt.1 hamong)

theorem scientific_eq (h : d.digits = c :: f) :
    d.scientific = joined [c] f ++ exponentText (d.exponent + f.length) := by
  unfold scientific
  cases f with
  | nil => simp [h, joined_nil]
  | cons x f => simp [h, joined_of_ne_nil]

theorem signed_toDigits (i : Int) :
    signed (if 0 ≤ i then '+' else '-') (Nat.toDigits 10 i.natAbs) = i := by
  rw [signed, Nat.ofDigitChars_ten_toDigits]
  by_cases h : 0 ≤ i
  · rw [if_pos h, if_neg (by decide)]
    omega
  · rw [if_neg h, if_pos rfl]
    omega

/-- **With an exponent a decimal is laid out as what it stands for.** -/
theorem exponentText_scientific (hd : 0 < d.coefficient) : ExponentText d.scientific d.value := by
  obtain ⟨c, f, h⟩ : ∃ c f, d.digits = c :: f := List.exists_cons_of_ne_nil Nat.toDigits_ne_nil
  have hlead : c ≠ '0' := fun e => head?_toDigits hd (congrArg List.head? (e ▸ h))
  have hc : c.isDigit = true := isDigit_of_mem_digits (d := d) (h ▸ List.mem_cons_self)
  have hf : ∀ x ∈ f, x.isDigit = true := fun x hx =>
    isDigit_of_mem_digits (d := d) (h ▸ List.mem_cons_of_mem c hx)
  have hpoint : pointed [c] f = d.coefficient / 10 ^ f.length := pointed_eq (n := 0) h.symm
  have hvalue : d.value = pointed [c] f * 10 ^ (d.exponent + f.length) := by
    rw [hpoint, value, zpow_add₀ (by norm_num), zpow_natCast]
    field_simp
  have hsign : ∀ i : Int, (if 0 ≤ i then '+' else '-') = '+' ∨ (if 0 ≤ i then '+' else '-') = '-' :=
    fun i => by split <;> simp
  have htext := ExponentText.mk hc hlead hf (hsign (d.exponent + f.length))
    (wholeForm_toDigits (d.exponent + f.length).natAbs)
  rw [signed_toDigits, ← hvalue] at htext
  rw [scientific_eq h]
  exact htext

end DomBuilder.Decimal
