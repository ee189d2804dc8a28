import DomBuilder.Json.Members
import DomBuilder.Proofs.Json.Grammar

/-!
# Texts of strings and of objects of strings are read

A text that the grammar gives to a string is a part of a larger text, so a reader has to stop where the
string ends. This file fixes that each reader, in front of such a text, gives back what the text says
and all that comes after it:

* `readHex4_append`: four digits, read as what they write;
* `readBody_charText`: one character of a string, whichever of its texts it has; `readBody_flatten`: all
  of them, by induction along the string. `skipBody_flatten` is the same for texts of its form;
* `readKey_of_text`: a key of an object, the first of them or one behind a comma (`Before`);
* `readObject_of_text`: an object of strings, by induction on its items.
-/

namespace DomBuilder.Json

variable {s t u w r : List Char} {x : String}

/-! ## 1. Blanks -/

theorem isBlank_of_mem {c : Char} (h : c ∈ [' ', '\t', '\n', '\r']) : isBlank c = true := by
  have hall : ∀ c ∈ [' ', '\t', '\n', '\r'], isBlank c = true :=
    List.all_iff_forall_prop.mp (by decide)
  exact hall c h

@[simp] theorem blanks_nil : Blanks [] := fun _ h => absurd h List.not_mem_nil

/-- Blanks in front of a text are skipped with its own. -/
theorem skipBlanks_append (hs : Blanks s) (r : List Char) : skipBlanks (s ++ r) = skipBlanks r :=
  List.dropWhile_append_of_pos fun c hc => isBlank_of_mem (hs c hc)

theorem skipBlanks_cons {c : Char} (hc : isBlank c = false) (r : List Char) :
    skipBlanks (c :: r) = c :: r :=
  List.dropWhile_cons_of_neg (by rw [hc]; exact Bool.false_ne_true)

/-- What comes after blanks is found. -/
theorem skipBlanks_append_cons (hs : Blanks s) {c : Char} (hc : isBlank c = false) (r : List Char) :
    skipBlanks (s ++ c :: r) = c :: r := by
  rw [skipBlanks_append hs, skipBlanks_cons hc]

theorem expectColon_append (hs : Blanks s) (r : List Char) : expectColon (s ++ ':' :: r) = .ok r := by
  rw [expectColon, skipBlanks_append_cons hs (by decide), expect, if_pos rfl]

/-! ## 2. Escapes -/

theorem hexDigit?_of_hexDigit {n : Nat} {c : Char} (h : HexDigit n c) : hexDigit? c = some n := by
  have hall : ∀ n < 16, ("0123456789abcdef".toList[n]?).bind hexDigit? = some n ∧
      ("0123456789ABCDEF".toList[n]?).bind hexDigit? = some n := by decide
  have hn : n < 16 := by
    rcases h with h | h <;> exact (List.getElem?_eq_some_iff.mp h).1
  obtain ⟨hl, hu⟩ := hall n hn
  rcases h with h | h
  · rwa [h, Option.bind_some] at hl
  · rwa [h, Option.bind_some] at hu

/-- Four characters are four bytes or more. -/
theorem four_le_utf8ByteSize (a b c d : Char) : 4 ≤ (String.ofList [a, b, c, d]).utf8ByteSize := by
  have ha := a.utf8Size_pos
  have hb := b.utf8Size_pos
  have hc := c.utf8Size_pos
  have hd := d.utf8Size_pos
  simp only [String.ofList_cons, String.ofList_nil, String.append_empty, String.append_singleton,
    String.utf8ByteSize_append, String.utf8ByteSize_singleton, String.utf8ByteSize_push]
  omega

theorem readHex4_cons {n : Nat} {a b c d : Char} (h : hexValue? [a, b, c, d] = some n)
    (r : List Char) : readHex4 (a :: b :: c :: d :: r) = .ok (n, r) := by
  have htake : (a :: b :: c :: d :: r).take 4 = [a, b, c, d] := rfl
  have hlong := four_le_utf8ByteSize a b c d
  simp only [readHex4, htake, if_neg (Nat.not_lt.mpr hlong), h]

theorem readHex4_append {n : Nat} {ds : List Char} (h : HexDigits n ds) (r : List Char) :
    readHex4 (ds ++ r) = .ok (n, r) := by
  cases h with
  | @four i j k l a b c d ha hb hc hd =>
    refine readHex4_cons ?_ r
    simp only [hexValue?, List.foldl_cons, List.foldl_nil, hexDigit?_of_hexDigit ha,
      hexDigit?_of_hexDigit hb, hexDigit?_of_hexDigit hc, hexDigit?_of_hexDigit hd]
    exact congrArg some (by omega)

/-- A character is no surrogate, so four digits are enough for it. -/
theorem readUnicodeEscape_code {c : Char} {ds : List Char} (h : HexDigits c.toNat ds)
    (r : List Char) : readUnicodeEscape (ds ++ r) = .ok (c, r) := by
  have hvalid : c.toNat < 0xD800 ∨ 0xDFFF < c.toNat := c.valid.imp id And.left
  have htrail : isTrailSurrogate c.toNat = false := by
    rw [isTrailSurrogate, Bool.and_eq_false_imp]
    simp only [decide_eq_true_eq, decide_eq_false_iff_not]
    omega
  have hlead : isLeadSurrogate c.toNat = false := by
    rw [isLeadSurrogate, Bool.and_eq_false_imp]
    simp only [decide_eq_true_eq, decide_eq_false_iff_not]
    omega
  rw [readUnicodeEscape, readHex4_append h]
  simp only [htrail, hlead, Bool.false_eq_true, if_false, Bool.not_false, if_true, Char.ofNat_toNat]

/-- Two surrogates are read as the character that they stand for. -/
theorem readUnicodeEscape_pair {c : Char} {hi lo : Nat} {ds es : List Char} (hhi : hi < 0x400)
    (hlo : lo < 0x400) (hc : c.toNat = 0x10000 + 0x400 * hi + lo) (hd : HexDigits (0xD800 + hi) ds)
    (he : HexDigits (0xDC00 + lo) es) (r : List Char) :
    readUnicodeEscape (ds ++ '\\' :: 'u' :: (es ++ r)) = .ok (c, r) := by
  have hlead : isTrailSurrogate (0xD800 + hi) = false ∧ isLeadSurrogate (0xD800 + hi) = true := by
    simp only [isTrailSurrogate, isLeadSurrogate, Bool.and_eq_false_imp, Bool.and_eq_true,
      decide_eq_true_eq, decide_eq_false_iff_not]
    omega
  have htrail : isTrailSurrogate (0xDC00 + lo) = true := by
    simp only [isTrailSurrogate, Bool.and_eq_true, decide_eq_true_eq]
    omega
  have hword : expectWord ['\\', 'u'] ('\\' :: 'u' :: (es ++ r)) = .ok (es ++ r) := rfl
  have hjoin : joinSurrogates (0xD800 + hi) (0xDC00 + lo) = c := by
    rw [joinSurrogates, ← c.ofNat_toNat, hc]
    exact congrArg Char.ofNat (by omega)
  rw [readUnicodeEscape, readHex4_append hd]
  simp only [hlead.1, hlead.2, Bool.false_eq_true, if_false, Bool.not_true, hword,
    readHex4_append he, htrail, if_true, hjoin]

theorem letterEscape?_of_mem {l c : Char} (h : (l, c) ∈ escapeLetters) :
    l ≠ 'u' ∧ letterEscape? l = some c := by
  have hall : ∀ x ∈ escapeLetters, x.1 ≠ 'u' ∧ letterEscape? x.1 = some x.2 :=
    List.all_iff_forall_prop.mp (by decide)
  exact hall (l, c) h

theorem readEscape_letter {l c : Char} (h : (l, c) ∈ escapeLetters) (r : List Char) :
    readEscape (l :: r) = .ok (c, r) := by
  obtain ⟨hu, hl⟩ := letterEscape?_of_mem h
  rw [readEscape, if_neg hu, hl]

theorem readEscape_code (r : List Char) : readEscape ('u' :: r) = readUnicodeEscape r := by
  rw [readEscape, if_pos rfl]

theorem skipEscape_letter {l c : Char} (h : (l, c) ∈ escapeLetters) (r : List Char) :
    skipEscape (l :: r) = .ok r := by
  obtain ⟨hu, hl⟩ := letterEscape?_of_mem h
  rw [skipEscape, if_neg hu, hl]

theorem skipEscape_code {n : Nat} {ds : List Char} (h : HexDigits n ds) (r : List Char) :
    skipEscape ('u' :: (ds ++ r)) = .ok r := by
  rw [skipEscape, if_pos rfl, readHex4_append h]

/-! ## 3. Strings -/

/-- What comes of a string when a character is put in front of it. -/
def consRead (c : Char) : Reading (List Char) → Reading (List Char)
  | .error e => .error e
  | .ok (cs, r) => .ok (c :: cs, r)

theorem readBody_unescaped {c : Char} (h : Unescaped c) (r : List Char) :
    readBody (c :: r) = consRead c (readBody r) := by
  rw [readBody, if_neg h.1, if_neg h.2.1, if_neg (Nat.not_lt.mpr h.2.2)]
  rfl

theorem readBody_escape {c : Char} (h : readEscape w = .ok (c, r)) :
    readBody ('\\' :: w) = consRead c (readBody r) := by
  rw [readBody, if_neg (by decide), if_pos rfl]
  -- `readBody` keeps what `readEscape` gave as an equation, so it is split and not rewritten
  split
  · rename_i e h'
    rw [h] at h'
    cases h'
  · rename_i x r' h'
    rw [h] at h'
    cases h'
    rfl

/-- **Whichever text a character has, it is read.** -/
theorem readBody_charText {c : Char} (h : CharText c w) (r : List Char) :
    readBody (w ++ r) = consRead c (readBody r) := by
  cases h with
  | plain h => exact readBody_unescaped h r
  | letter h => exact readBody_escape (readEscape_letter h r)
  | code h => exact readBody_escape ((readEscape_code _).trans (readUnicodeEscape_code h r))
  | @pair _ _ _ ds es hhi hlo hc hd he =>
    have hw : '\\' :: 'u' :: (ds ++ '\\' :: 'u' :: es) ++ r =
        '\\' :: 'u' :: (ds ++ '\\' :: 'u' :: (es ++ r)) := by
      simp only [List.cons_append, List.append_assoc]
    rw [hw]
    exact readBody_escape ((readEscape_code _).trans (readUnicodeEscape_pair hhi hlo hc hd he r))

/-- **The characters of a string are read up to the closing quotation mark.** -/
theorem readBody_flatten {cs : List Char} {vs : List (List Char)} (h : List.Forall₂ CharText cs vs)
    (r : List Char) : readBody (vs.flatten ++ '"' :: r) = .ok (cs, r) := by
  induction h with
  | nil => rw [List.flatten_nil, List.nil_append, readBody, if_pos rfl]
  | cons hc _ ih =>
    rw [List.flatten_cons, List.append_assoc, readBody_charText hc, ih]
    rfl

theorem stringText_append (h : StringText x w) (r : List Char) :
    ∃ v, w ++ r = '"' :: v ∧ readBody v = .ok (x.toList, r) := by
  obtain ⟨vs, hvs, rfl⟩ := h
  refine ⟨vs.flatten ++ '"' :: r, ?_, readBody_flatten hvs r⟩
  rw [List.cons_append, List.append_assoc, List.singleton_append]

theorem readQuoted_of_text (h : StringText x w) (r : List Char) :
    readQuoted (w ++ r) = .ok (x, r) := by
  obtain ⟨v, hv, hread⟩ := stringText_append h r
  rw [hv, readQuoted, expect, if_pos rfl]
  simp only [hread, String.ofList_toList]

/-- Before a string only blanks are skipped. -/
theorem skipBlanks_of_text (hs : Blanks s) (h : StringText x w) (r : List Char) :
    skipBlanks (s ++ (w ++ r)) = w ++ r := by
  obtain ⟨v, hv, -⟩ := stringText_append h r
  rw [hv, skipBlanks_append_cons hs (by decide)]

/-- **A text of a string is read as the string.** -/
theorem readString_of_text (hs : Blanks s) (h : StringText x w) (r : List Char) :
    readString (s ++ (w ++ r)) = .ok (x, r) := by
  have hq := readQuoted_of_text h r
  obtain ⟨v, hv, -⟩ := stringText_append h r
  rw [readString, skipBlanks_of_text hs h]
  rw [hv] at hq ⊢
  exact hq

/-- **A text of a string or null is read as that.** -/
theorem readOption_of_text (hs : Blanks s) {o : Option String} (h : OptionText o w) (r : List Char) :
    readOption (s ++ (w ++ r)) = .ok (o, r) := by
  cases o with
  | none =>
    have hn : w ++ r = 'n' :: ("ull".toList ++ r) := congrArg (· ++ r) (show w = _ from h)
    rw [readOption, hn, skipBlanks_append_cons hs (by decide)]
    rfl
  | some x =>
    have hx : readString (w ++ r) = .ok (x, r) := readString_of_text blanks_nil h r
    obtain ⟨v, hv, -⟩ := stringText_append (show StringText x w from h) r
    rw [readOption, skipBlanks_of_text hs h]
    rw [hv] at hx ⊢
    split
    · rename_i hn
      cases hn
    · rw [hx]

/-! ## 4. Strings that are passed over -/

theorem skipBody_escape (h : skipEscape w = .ok r) : skipBody ('\\' :: w) = skipBody r := by
  rw [skipBody, if_neg (by decide), if_pos rfl]
  split
  · rename_i e h'
    rw [h] at h'
    cases h'
  · rename_i r' h'
    rw [h] at h'
    cases h'
    rfl

theorem skipBody_charForm (h : CharForm w) (r : List Char) : skipBody (w ++ r) = skipBody r := by
  cases h with
  | plain h =>
    rw [List.singleton_append, skipBody, if_neg h.1, if_neg h.2.1, if_neg (Nat.not_lt.mpr h.2.2)]
  | letter h => exact skipBody_escape (skipEscape_letter h r)
  | code h => exact skipBody_escape (skipEscape_code h r)

theorem skipBody_flatten {vs : List (List Char)} (h : ∀ v ∈ vs, CharForm v) (r : List Char) :
    skipBody (vs.flatten ++ '"' :: r) = .ok r := by
  induction vs with
  | nil => rw [List.flatten_nil, List.nil_append, skipBody, if_pos rfl]
  | cons v vs ih =>
    rw [List.flatten_cons, List.append_assoc, skipBody_charForm (h v List.mem_cons_self)]
    exact ih fun u hu => h u (List.mem_cons_of_mem _ hu)

/-- **A text of the form of a string is passed over.** -/
theorem stringForm_append (h : StringForm w) (r : List Char) :
    ∃ v, w ++ r = '"' :: v ∧ skipBody v = .ok r := by
  obtain ⟨vs, hvs, rfl⟩ := h
  refine ⟨vs.flatten ++ '"' :: r, ?_, skipBody_flatten hvs r⟩
  rw [List.cons_append, List.append_assoc, List.singleton_append]

/-! ## 5. Objects of strings -/

/-- What stands between the bracket or the last member and the blanks before a key. -/
inductive Before : Bool → List Char → Prop where
  | first : Before true []
  | next {t : List Char} (ht : Blanks t) : Before false (t ++ [','])

/-- **A key is read, the first behind the bracket and every other behind a comma.** -/
theorem readKey_of_text {first : Bool} (hb : Before first u) (hs : Blanks s) (h : StringText x w)
    (r : List Char) : readKey first (u ++ (s ++ (w ++ r))) = .ok (some x, r) := by
  have hq := readQuoted_of_text h r
  cases hb with
  | first =>
    obtain ⟨v, hv, -⟩ := stringText_append h r
    rw [readKey, List.nil_append, skipBlanks_of_text hs h]
    rw [hv] at hq ⊢
    simp only [Char.reduceEq, if_false, Bool.not_true, Bool.false_and, Bool.false_eq_true, if_true, hq]
  | next ht =>
    rw [List.append_assoc, List.singleton_append, readKey, skipBlanks_append_cons ht (by decide)]
    simp only [Char.reduceEq, if_false, ne_eq, not_true_eq_false, decide_false, Bool.and_false,
      Bool.false_eq_true, skipBlanks_of_text hs h, hq]

theorem readKey_end (ht : Blanks t) (first : Bool) (r : List Char) :
    readKey first (t ++ '\x7d' :: r) = .ok (none, r) := by
  rw [readKey, skipBlanks_append_cons ht (by decide)]
  simp only [if_true]

theorem readMembers_end (ht : Blanks t) (first : Bool) (r : List Char) :
    readMembers first (t ++ '\x7d' :: r) = .ok ([], r) := by
  have hk := readKey_end ht first r
  rw [readMembers]
  grind

/-- After a key come the colon, its value and the other members. -/
theorem readMembers_of_readKey {first : Bool} {u₁ u₂ u₃ rest : List Char} {k v : String}
    {ms : List (String × String)} (hk : readKey first u = .ok (some k, u₁))
    (hc : expectColon u₁ = .ok u₂) (hv : readString u₂ = .ok (v, u₃))
    (hm : readMembers false u₃ = .ok (ms, rest)) : readMembers first u = .ok ((k, v) :: ms, rest) := by
  rw [readMembers]
  grind

theorem readMembers_of_text {ms : List (String × String)} (h : ItemsText PairText ms w)
    {first : Bool} (hb : Before first u) (r : List Char) :
    readMembers first (u ++ (w ++ '\x7d' :: r)) = .ok (ms, r) := by
  induction h generalizing first u with
  | last hs hv ht =>
    obtain ⟨k, a, b, v, hk, ha, hb', hv, rfl⟩ := hv
    simp only [List.append_assoc, List.cons_append]
    exact readMembers_of_readKey (readKey_of_text hb hs hk _) (expectColon_append ha _)
      (readString_of_text hb' hv _) (readMembers_end ht false r)
  | @more m ms s v t w hs hv ht _ ih =>
    obtain ⟨k, a, b, v, hk, ha, hb', hv, rfl⟩ := hv
    have hrest := ih (.next ht)
    simp only [List.append_assoc, List.cons_append, List.nil_append] at hrest ⊢
    exact readMembers_of_readKey (readKey_of_text hb hs hk _) (expectColon_append ha _)
      (readString_of_text hb' hv _) hrest

/-- **A text of an object of strings is read as its members.** -/
theorem readObject_of_text (hs : Blanks s) {ms : List (String × String)}
    (h : ObjectText PairText ms w) (r : List Char) :
    readObject (s ++ (w ++ r)) = .ok (ms, r) := by
  cases h with
  | empty ht =>
    rw [readObject, List.cons_append, skipBlanks_append_cons hs (by decide), List.append_assoc]
    exact readMembers_end ht true r
  | filled h =>
    rw [readObject, List.cons_append, skipBlanks_append_cons hs (by decide), List.append_assoc]
    exact readMembers_of_text h .first r

end DomBuilder.Json
