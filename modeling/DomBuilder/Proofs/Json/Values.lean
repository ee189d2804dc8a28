import DomBuilder.Proofs.Json.Strings
import Mathlib.Data.List.DropRight

/-!
# Values are passed over

A value under an unknown key is passed over without being kept, however deep it is nested. This file fixes
that exactly the value is passed over:

* `Closed`: what stands behind a value: nothing, a blank, a comma or a closing bracket. None of these can
  go on a number (`readNumber_append`);
* `skipItem` and the equations of `skipDue` with it: what one step does at each kind of character;
* `Phrase.Passed`, `passed_of_text`: from a value, or from an item after an opening bracket, passing over
  comes to what follows it, with the brackets around as they were. The induction is on the grammar, so the
  open brackets are general in it;
* `skipValue_of_form`: the value alone.
-/

namespace DomBuilder.Json

variable {s t w r r' : List Char} {c : Char}

/-! ## 1. Behind a value -/

/-- What may stand behind a value. -/
def closers : List Char := [' ', '\t', '\n', '\r'] ++ [',', ']', '\x7d']

/-- Nothing, or a text that no value can go on with. -/
def Closed (r : List Char) : Prop := ∀ c ∈ r.head?, c ∈ closers

theorem not_in_number_of_mem_closers (hc : c ∈ closers) :
    c.isDigit = false ∧ c ≠ '.' ∧ ¬(c = 'e' ∨ c = 'E') := by
  have hall : ∀ c ∈ closers, c.isDigit = false ∧ c ≠ '.' ∧ ¬(c = 'e' ∨ c = 'E') :=
    List.all_iff_forall_prop.mp (by decide)
  exact hall c hc

theorem closed_append (ht : Blanks t) (hc : c ∈ [',', ']', '\x7d']) (r : List Char) :
    Closed (t ++ c :: r) := by
  intro x hx
  cases t with
  | nil =>
    cases hx
    exact List.mem_append_right [' ', '\t', '\n', '\r'] hc
  | cons b t =>
    cases hx
    exact List.mem_append_left [',', ']', '\x7d'] (ht _ List.mem_cons_self)

theorem closing_mem (b : Bracket) : b.closing ∈ [',', ']', '\x7d'] := by
  cases b <;> decide

/-! ## 2. Numbers -/

/-- No digit comes next. -/
def NoDigit (r : List Char) : Prop := ∀ c ∈ r.head?, c.isDigit = false

theorem noDigit_of_closed (h : Closed r) : NoDigit r :=
  fun c hc => (not_in_number_of_mem_closers (h c hc)).1

theorem noDigit_cons (h : c.isDigit = false) (r : List Char) : NoDigit (c :: r) := by
  intro x hx
  cases hx
  exact h

theorem Digits.cons (h : Digits w) : ∃ c v, w = c :: v ∧ c.isDigit = true := by
  obtain ⟨hne, hall⟩ := h
  obtain ⟨c, v, rfl⟩ := List.exists_cons_of_ne_nil hne
  exact ⟨c, v, rfl, hall c List.mem_cons_self⟩

/-- All digits are taken, and nothing after them. -/
theorem readDigits_append {atEnd : Fault} (h : Digits w) (hr : NoDigit r) :
    readDigits atEnd (w ++ r) = .ok (w, r) := by
  have htake : (w ++ r).takeWhile Char.isDigit = w := by
    rw [List.takeWhile_append_of_pos h.2]
    cases r with
    | nil => exact List.append_nil w
    | cons d r => rw [List.takeWhile_cons_of_neg (by rw [hr d rfl]; exact Bool.false_ne_true),
        List.append_nil]
  have hdrop : (w ++ r).dropWhile Char.isDigit = r := by
    rw [List.dropWhile_append_of_pos h.2]
    cases r with
    | nil => rfl
    | cons d r => exact List.dropWhile_cons_of_neg (by rw [hr d rfl]; exact Bool.false_ne_true)
  obtain ⟨c, v, rfl, hc⟩ := h.cons
  rw [List.cons_append] at htake hdrop ⊢
  rw [readDigits, if_pos hc, htake, hdrop]

theorem WholeForm.digits (h : WholeForm w) : Digits w := by
  rcases h with rfl | h
  · exact ⟨List.cons_ne_nil _ _, List.all_iff_forall_prop.mp (by decide)⟩
  · exact h.1

theorem readWhole_append {atEnd : Fault} (h : WholeForm w) (hr : NoDigit r) :
    readWhole atEnd (w ++ r) = .ok (w, r) := by
  rw [readWhole, readDigits_append h.digits hr]
  rcases h with rfl | ⟨_, h0⟩
  · rfl
  · split
    · rename_i he
      cases he
    · rename_i he
      cases he
      exact absurd rfl h0
    · rename_i he
      cases he
      rfl

/-- After the digits comes the point, or what follows the fraction. -/
theorem noDigit_fraction (h : FractionForm w) (hr : NoDigit r) : NoDigit (w ++ r) := by
  rcases h with rfl | ⟨ds, _, rfl⟩
  · exact hr
  · exact noDigit_cons (by decide) _

theorem noDigit_exponent (h : ExponentForm w) (hr : NoDigit r) : NoDigit (w ++ r) := by
  rcases h with rfl | ⟨e, he, sign, _, ds, _, rfl⟩
  · exact hr
  · have hall : ∀ e ∈ ['e', 'E'], e.isDigit = false :=
      List.all_iff_forall_prop.mp (by decide)
    exact noDigit_cons (hall e he) _

theorem readFraction_append (atEnd : Fault) (h : FractionForm w) (hr : NoDigit r)
    (hp : ∀ c ∈ r.head?, c ≠ '.') : ∃ ds, readFraction atEnd (w ++ r) = .ok (ds, r) := by
  rcases h with rfl | ⟨ds, hd, rfl⟩
  · refine ⟨[], ?_⟩
    rw [List.nil_append, readFraction.eq_def]
    split
    · exact absurd rfl (hp _ rfl)
    · rfl
  · exact ⟨ds, readDigits_append hd hr⟩

/-- A sign is taken from in front of digits. -/
theorem readSign_append {sign : List Char} (hs : sign ∈ [[], ['+'], ['-']]) (h : Digits w)
    (r : List Char) : (readSign (sign ++ (w ++ r))).2 = w ++ r := by
  obtain ⟨c, v, rfl, hc⟩ := h.cons
  have hne : c ≠ '+' ∧ c ≠ '-' := by
    constructor <;>
    · rintro rfl
      cases hc
  rcases List.mem_cons.mp hs with rfl | hs
  · rw [List.nil_append, List.cons_append, readSign.eq_def]
    split
    · rename_i he
      exact absurd (List.cons.inj he).1 hne.1
    · rename_i he
      exact absurd (List.cons.inj he).1 hne.2
    · rfl
  · rcases List.mem_cons.mp hs with rfl | hs
    · rfl
    · cases List.mem_singleton.mp hs
      rfl

theorem readExponent_append (atEnd : Fault) (h : ExponentForm w) (hr : Closed r) :
    ∃ n, readExponent atEnd (w ++ r) = .ok (n, r) := by
  rcases h with rfl | ⟨e, he, sign, hs, ds, hd, rfl⟩
  · cases r with
    | nil => exact ⟨0, rfl⟩
    | cons c r => exact ⟨0, if_neg (not_in_number_of_mem_closers (hr c rfl)).2.2⟩
  · have he' : e = 'e' ∨ e = 'E' := by simpa using he
    refine ⟨(readSign (sign ++ (ds ++ r))).1 * digitsValue ds, ?_⟩
    rw [List.cons_append, List.append_assoc, readExponent, if_pos he', readSign_append hs hd,
      readDigits_append hd (noDigit_of_closed hr)]

/-- A number begins with its sign or with a digit. -/
theorem NumberForm.cons (h : NumberForm w) : ∃ c v, w = c :: v ∧ (c = '-' ∨ c.isDigit = true) := by
  cases h with
  | mk hs hw hf he =>
    obtain ⟨c, v, rfl, hc⟩ := hw.digits.cons
    rcases List.mem_cons.mp hs with rfl | hs
    · exact ⟨c, _, rfl, .inr hc⟩
    · cases List.mem_singleton.mp hs
      exact ⟨'-', _, rfl, .inl rfl⟩

theorem readMagnitude_append (atEnd : Fault) {whole fraction exponent : List Char}
    (hw : WholeForm whole) (hf : FractionForm fraction) (he : ExponentForm exponent) (hr : Closed r) :
    ∃ x, readMagnitude atEnd (whole ++ (fraction ++ (exponent ++ r))) = .ok (x, r) := by
  have hdigit := noDigit_exponent he (noDigit_of_closed hr)
  have hpoint : ∀ c ∈ (exponent ++ r).head?, c ≠ '.' := by
    intro c hc
    rcases he with rfl | ⟨e, hm, sign, _, ds, _, rfl⟩
    · exact (not_in_number_of_mem_closers (hr c hc)).2.1
    · have hall : ∀ e ∈ ['e', 'E'], e ≠ '.' :=
        List.all_iff_forall_prop.mp (by decide)
      cases hc
      exact hall _ hm
  obtain ⟨n, hn⟩ := readExponent_append atEnd he hr
  obtain ⟨ds, hds⟩ := readFraction_append atEnd hf hdigit hpoint
  rw [readMagnitude, readWhole_append hw (noDigit_fraction hf hdigit)]
  simp only [hds, hn, Except.ok.injEq, Prod.mk.injEq, and_true, exists_eq']

/-- **A text of the form of a number is read, and no more.** -/
theorem readNumber_append (atEnd : Fault) (h : NumberForm w) (hr : Closed r) :
    ∃ x, readNumber atEnd (w ++ r) = .ok (x, r) := by
  cases h with
  | mk hs hw hf he =>
    obtain ⟨x, hx⟩ := readMagnitude_append atEnd hw hf he hr
    refine ⟨x, ?_⟩
    simp only [List.append_assoc]
    rcases List.mem_cons.mp hs with rfl | hs
    · obtain ⟨c, v, rfl, hc⟩ := hw.digits.cons
      rw [List.nil_append]
      rw [List.cons_append] at hx ⊢
      rw [readNumber.eq_def]
      split
      · rename_i he
        rw [(List.cons.inj he).1] at hc
        cases hc
      · exact hx
    · cases List.mem_singleton.mp hs
      exact hx

/-! ## 3. Values without brackets -/

/-- May begin a value that has no brackets. -/
def StartsScalar (c : Char) : Prop := c ∈ ['n', 't', 'f', '"', '-'] ∨ c.isDigit = true

theorem StartsScalar.not_blank (h : StartsScalar c) :
    isBlank c = false ∧ Bracket.ofOpening? c = none ∧ c ≠ ']' := by
  rcases h with h | h
  · have hall : ∀ c ∈ ['n', 't', 'f', '"', '-'],
        isBlank c = false ∧ Bracket.ofOpening? c = none ∧ c ≠ ']' :=
      List.all_iff_forall_prop.mp (by decide)
    exact hall c h
  · have hne : ∀ d ∈ [' ', '\t', '\n', '\r', '[', '\x7b', ']'], c ≠ d := by
      have hall : ∀ d ∈ [' ', '\t', '\n', '\r', '[', '\x7b', ']'], d.isDigit = false :=
        List.all_iff_forall_prop.mp (by decide)
      rintro d hd rfl
      rw [hall c hd] at h
      cases h
    simp only [List.forall_mem_cons] at hne
    simp [isBlank, Bracket.ofOpening?, hne]

theorem skipScalar_word (h : w ∈ ["null".toList, "true".toList, "false".toList]) (r : List Char) :
    skipScalar (w ++ r) = .ok r := by
  rcases List.mem_cons.mp h with rfl | h
  · rfl
  · rcases List.mem_cons.mp h with rfl | h
    · rfl
    · cases List.mem_singleton.mp h
      rfl

theorem skipScalar_number (h : NumberForm w) (hr : Closed r) : skipScalar (w ++ r) = .ok r := by
  obtain ⟨x, hx⟩ := readNumber_append .malformed h hr
  obtain ⟨c, v, rfl, hc⟩ := h.cons
  have hne : ∀ d ∈ ['n', 't', 'f', '"'], c ≠ d := by
    rintro d hd rfl
    have hall : ∀ d ∈ ['n', 't', 'f', '"'], ¬(d = '-' ∨ d.isDigit = true) :=
      List.all_iff_forall_prop.mp (by decide)
    exact hall c hd hc
  simp only [List.forall_mem_cons] at hne
  obtain ⟨h1, h2, h3, h4, -⟩ := hne
  rw [List.cons_append] at hx ⊢
  rw [skipScalar, if_neg h1, if_neg h2, if_neg h3, if_neg h4, if_pos hc, hx]

theorem skipScalar_string (h : StringForm w) (r : List Char) : skipScalar (w ++ r) = .ok r := by
  obtain ⟨v, hv, hskip⟩ := stringForm_append h r
  rw [hv]
  exact hskip

/-- **A value without brackets is passed over, and begins as one.** -/
theorem skipScalar_append {v : List Char} (h : v ∈ ["null".toList, "true".toList, "false".toList] ∨
    NumberForm v ∨ StringForm v) : ∃ c u, v = c :: u ∧ StartsScalar c ∧
      ∀ r, Closed r → skipScalar (v ++ r) = .ok r := by
  rcases h with h | h | h
  · have hall : ∀ w ∈ ["null".toList, "true".toList, "false".toList],
        w.headD ' ' ∈ ['n', 't', 'f'] ∧ w = w.headD ' ' :: w.tail := by decide
    obtain ⟨hc, hw⟩ := hall v h
    exact ⟨_, v.tail, hw, .inl (List.mem_append_left ['"', '-'] hc), fun r _ => skipScalar_word h r⟩
  · obtain ⟨c, u, hv, hc⟩ := h.cons
    refine ⟨c, u, hv, ?_, fun r hr => skipScalar_number h hr⟩
    rcases hc with rfl | hc
    · exact .inl (by decide)
    · exact .inr hc
  · have hform := h
    obtain ⟨vs, _, hv⟩ := hform
    exact ⟨'"', _, hv, .inl (by decide), fun r _ => skipScalar_string h r⟩

/-! ## 4. One step inside brackets -/

variable {b : Bracket} {outer : List Bracket}

/-- Passes over an item, label and value, and the rest of all the brackets around it. -/
def skipItem (b : Bracket) (outer : List Bracket) (s : List Char) : Except Fault (List Char) :=
  match b.skipLabel s with
  | .error e => .error e
  | .ok r => skipDue .value (b :: outer) r

theorem not_blank_closing (b : Bracket) : isBlank b.closing = false := by
  cases b <;> rfl

theorem not_blank_opening (b : Bracket) :
    isBlank b.opening = false ∧ Bracket.ofOpening? b.opening = some b := by
  cases b <;> exact ⟨rfl, rfl⟩

theorem skipDue_done (r : List Char) : skipDue .more [] r = .ok r := by
  rw [skipDue]

theorem skipDue_closing (ht : Blanks t) (r : List Char) :
    skipDue .more (b :: outer) (t ++ b.closing :: r) = skipDue .more outer r := by
  have hs := skipBlanks_append_cons ht (not_blank_closing b) r
  rw [skipDue]
  grind

theorem skipDue_comma (ht : Blanks t) (r : List Char) :
    skipDue .more (b :: outer) (t ++ ',' :: r) = skipItem b outer r := by
  have hs := skipBlanks_append_cons (c := ',') ht (by decide) r
  have hc : ',' ≠ b.closing := by cases b <;> decide
  rw [skipDue, skipItem]
  grind

/-- A value without brackets is passed over in one step. -/
theorem skipDue_scalar (hs : skipBlanks s = c :: r) (hc : Bracket.ofOpening? c = none)
    (h : skipScalar (c :: r) = .ok r') : skipDue .value outer s = skipDue .more outer r' := by
  rw [skipDue]
  grind

theorem skipDue_empty (hs : skipBlanks s = b.opening :: r) (hr : skipBlanks r = b.closing :: r') :
    skipDue .value outer s = skipDue .more outer r' := by
  have ho := (not_blank_opening b).2
  rw [skipDue]
  grind

/-- Behind an opening bracket comes an item, if the bracket is not closed at once. -/
theorem skipDue_opening (hs : skipBlanks s = b.opening :: r) (hr : skipBlanks r = c :: r')
    (hc : c ≠ b.closing) : skipDue .value outer s = skipItem b outer (c :: r') := by
  have ho := (not_blank_opening b).2
  rw [skipDue, skipItem]
  grind

/-! ## 5. Values with brackets -/

theorem skipKey_append (hs : Blanks s) (hk : StringForm w) (ht : Blanks t) (r : List Char) :
    skipKey (s ++ (w ++ (t ++ ':' :: r))) = .ok r := by
  obtain ⟨v, hv, hskip⟩ := stringForm_append hk (t ++ ':' :: r)
  rw [skipKey, hv, skipBlanks_append_cons hs (by decide), expect, if_pos rfl]
  simp only [hskip, expectColon_append ht]

/-- After its label, an item is a value. -/
theorem skipItem_label {l : List Char} (hl : b.LabelForm l) (r : List Char) :
    skipItem b outer (l ++ r) = skipDue .value (b :: outer) r := by
  cases b with
  | array =>
    cases hl
    rfl
  | object =>
    obtain ⟨s, k, t, hs, hk, ht, rfl⟩ := hl
    have h := skipKey_append hs hk ht r
    simp only [List.append_assoc, List.singleton_append]
    rw [skipItem, Bracket.skipLabel, h]

theorem skipItem_skipBlanks (b : Bracket) (s : List Char) :
    skipItem b outer (skipBlanks s) = skipItem b outer s := by
  have hidem : skipBlanks (skipBlanks s) = skipBlanks s := List.dropWhile_idempotent _ _
  cases b with
  | array =>
    show skipDue .value _ (skipBlanks s) = skipDue .value _ s
    rw [skipDue, eq_comm, skipDue]
    grind
  | object => rw [skipItem, skipItem, Bracket.skipLabel, Bracket.skipLabel, skipKey, skipKey, hidem]

/-- The beginning of a value is not skipped, and closes no bracket. -/
theorem value_cons (h : Phrase.value.Text w) :
    ∃ c v, w = c :: v ∧ isBlank c = false ∧ c ≠ ']' := by
  have hscalar : ∀ {v}, v ∈ ["null".toList, "true".toList, "false".toList] ∨ NumberForm v ∨
      StringForm v → ∃ c u, v = c :: u ∧ isBlank c = false ∧ c ≠ ']' := fun h => by
    obtain ⟨c, u, hv, hc, -⟩ := skipScalar_append h
    exact ⟨c, u, hv, hc.not_blank.1, hc.not_blank.2.2⟩
  have hopening : ∀ b : Bracket, b.opening ≠ ']' := fun b => by cases b <;> decide
  cases h with
  | word h => exact hscalar (.inl h)
  | number h => exact hscalar (.inr (.inl h))
  | string h => exact hscalar (.inr (.inr h))
  | empty b hs => exact ⟨_, _, rfl, (not_blank_opening b).1, hopening b⟩
  | @filled b w h => exact ⟨_, _, rfl, (not_blank_opening b).1, hopening b⟩

/-- Items do not begin with the bracket that closes them. -/
theorem items_cons (h : (Phrase.items b).Text w) (r : List Char) :
    ∃ c v, skipBlanks (w ++ r) = c :: v ∧ c ≠ b.closing := by
  have hitem : ∀ {l s v u}, b.LabelForm l → Blanks s → Phrase.value.Text v →
      ∃ c v', skipBlanks (l ++ (s ++ (v ++ u))) = c :: v' ∧ c ≠ b.closing := by
    intro l s v u hl hs hv
    cases b with
    | array =>
      cases hl
      obtain ⟨c, v', rfl, hc, hne⟩ := value_cons hv
      exact ⟨c, v' ++ u, skipBlanks_append_cons hs hc _, hne⟩
    | object =>
      obtain ⟨s', k, t, hs', hk, ht, rfl⟩ := hl
      obtain ⟨vs, _, rfl⟩ := hk
      simp only [List.append_assoc, List.cons_append]
      exact ⟨'"', _, skipBlanks_append_cons hs' (by decide) _, by decide⟩
  cases h with
  | last hl hs hv ht =>
    simp only [List.append_assoc]
    exact hitem hl hs hv
  | more hl hs hv ht hw =>
    simp only [List.append_assoc, List.cons_append]
    exact hitem hl hs hv

/-- The phrase is passed over: a value is, whatever brackets are open around it, and items are up to and
    with their closing bracket. -/
def Phrase.Passed : Phrase → List Char → Prop
  | value, w => ∀ outer s r, Blanks s → Closed r →
      skipDue .value outer (s ++ (w ++ r)) = skipDue .more outer r
  | items b, w => ∀ outer r, skipItem b outer (w ++ b.closing :: r) = skipDue .more outer r

theorem passed_scalar {v : List Char} (h : v ∈ ["null".toList, "true".toList, "false".toList] ∨
    NumberForm v ∨ StringForm v) : Phrase.value.Passed v := by
  intro outer s r hs hr
  obtain ⟨c, u, rfl, hc, hskip⟩ := skipScalar_append h
  obtain ⟨hblank, hopen, -⟩ := hc.not_blank
  exact skipDue_scalar (skipBlanks_append_cons hs hblank _) hopen (hskip r hr)

/-- **Every phrase of the grammar is passed over.** -/
theorem passed_of_text {p : Phrase} (h : p.Text w) : p.Passed w := by
  induction h with
  | word h => exact passed_scalar (.inl h)
  | number h => exact passed_scalar (.inr (.inl h))
  | string h => exact passed_scalar (.inr (.inr h))
  | empty b ht =>
    intro outer s r hs _
    simp only [List.append_assoc, List.cons_append, List.nil_append]
    exact skipDue_empty (skipBlanks_append_cons hs (not_blank_opening b).1 _)
      (skipBlanks_append_cons ht (not_blank_closing b) _)
  | @filled b w hw ih =>
    intro outer s r hs _
    simp only [List.append_assoc, List.cons_append, List.nil_append]
    obtain ⟨c, v, hv, hc⟩ := items_cons hw (b.closing :: r)
    rw [skipDue_opening (skipBlanks_append_cons hs (not_blank_opening b).1 _) hv hc, ← hv,
      skipItem_skipBlanks, ih]
  | @last b l s v t hl hs _ ht ih =>
    intro outer r
    simp only [List.append_assoc]
    rw [skipItem_label hl, ih _ _ _ hs (closed_append ht (closing_mem b) r), skipDue_closing ht]
  | @more b l s v t w hl hs _ ht _ ihv ihw =>
    intro outer r
    simp only [List.append_assoc, List.cons_append]
    rw [skipItem_label hl, ihv _ _ _ hs (closed_append ht (by decide) _), skipDue_comma ht, ihw]

/-- **A value is passed over, and no more.** -/
theorem skipValue_of_form (hs : Blanks s) (h : ValueForm w) (hr : Closed r) :
    skipValue (s ++ (w ++ r)) = .ok r := by
  rw [skipValue, passed_of_text h [] s r hs hr, skipDue_done]

end DomBuilder.Json
