import DomBuilder.Config.Json
import DomBuilder.Proofs.Json.Strings

/-!
# What is written follows the grammar

Of the many texts that say the same, the writers choose one. This file fixes that each writer gives a text
that the grammar has for the value, so that whatever reads the grammar reads it back:

* `charText_escape`: a character as it is written, whichever character it is;
* `stringText_write`, `optionText_write`: a string, and a string or null;
* `objectText_write`: the prefixes and URIs of a table, by induction on its listing;
* `readOption_write`, `readObject_write`: so the readers give back what was written, and the rest of the
  text behind it.
-/

namespace DomBuilder.Json

/-! ## 1. Strings -/

theorem hexDigit_digitChar {n : Nat} (h : n < 16) : HexDigit n (Nat.digitChar n) := by
  have hall : ∀ n < 16, "0123456789abcdef".toList[n]? = some (Nat.digitChar n) := by decide
  exact .inl (hall n h)

/-- The four digits of a control character write its number. -/
theorem hexDigits_control {n : Nat} (h : n < 0x20) :
    HexDigits n ['0', '0', Nat.digitChar (n / 16), Nat.digitChar (n % 16)] := by
  have hd := HexDigits.four (hexDigit_digitChar (by decide : 0 < 16))
    (hexDigit_digitChar (by decide : 0 < 16)) (hexDigit_digitChar (by omega : n / 16 < 16))
    (hexDigit_digitChar (Nat.mod_lt n (by decide : 16 > 0)))
  have hn : 0x1000 * 0 + 0x100 * 0 + 0x10 * (n / 16) + n % 16 = n := by omega
  rw [hn] at hd
  exact hd

/-- **A character is written as one of its texts.** -/
theorem charText_escape (c : Char) : CharText c (escape c) := by
  unfold escape
  split_ifs with hq hb h1 h2 h3 h4 h5 hc
  · exact .letter (by rw [hq]; decide)
  · exact .letter (by rw [hb]; decide)
  · exact .letter (by rw [h1]; decide)
  · exact .letter (by rw [h2]; decide)
  · exact .letter (by rw [h3]; decide)
  · exact .letter (by rw [h4]; decide)
  · exact .letter (by rw [h5]; decide)
  · exact .code (hexDigits_control hc)
  · exact .plain ⟨hq, hb, Nat.not_lt.mp hc⟩

theorem forall₂_escape (cs : List Char) : List.Forall₂ CharText cs (cs.map escape) := by
  induction cs with
  | nil => exact .nil
  | cons c cs ih => exact .cons (charText_escape c) ih

/-- **A string is written as one of its texts.** -/
theorem stringText_write (s : String) : StringText s (writeString s) :=
  ⟨s.toList.map escape, forall₂_escape s.toList, by
    rw [writeString, List.flatMap_def, List.cons_append]⟩

theorem optionText_write (o : Option String) : OptionText o (writeOption o) := by
  cases o with
  | none => rfl
  | some s => exact stringText_write s

/-- Without blanks, a key, a colon and a text of the value are a member. -/
theorem memberText_write (key : String) {value : List Char → Prop} {v : List Char} (h : value v) :
    MemberText key value (writeString key ++ ':' :: v) :=
  ⟨writeString key, [], [], v, stringText_write key, blanks_nil, blanks_nil, h, rfl⟩

/-! ## 2. Objects -/

section Object

variable {α : Type} {item : α → List Char → Prop} {f : α → List Char}

/-- Items with commas between them, and no blanks. -/
theorem itemsText_intercalate (h : ∀ x, item x (f x)) (x : α) (xs : List α) :
    ItemsText item (x :: xs) (List.intercalate [','] ((x :: xs).map f)) := by
  induction xs generalizing x with
  | nil =>
    have hx := ItemsText.last blanks_nil (h x) blanks_nil
    simpa [List.intercalate] using hx
  | cons y ys ih =>
    have hx := ItemsText.more blanks_nil (h x) blanks_nil (ih y)
    simpa [List.intercalate_cons_cons] using hx

theorem objectText_intercalate (h : ∀ x, item x (f x)) (xs : List α) :
    ObjectText item xs ('\x7b' :: (List.intercalate [','] (xs.map f) ++ ['\x7d'])) := by
  cases xs with
  | nil => exact .empty blanks_nil
  | cons x xs => exact .filled (itemsText_intercalate h x xs)

end Object

/-- **A table is written as an object of its prefixes and URIs.** -/
theorem objectText_write (t : PrefixTable) : ObjectText PairText t.toList t.write := by
  have hm : ∀ m, PairText m (writeMember m) := fun m => memberText_write m.1 (stringText_write m.2)
  exact objectText_intercalate hm t.toList

/-! ## 3. Reading what was written -/

theorem readOption_write (o : Option String) (r : List Char) :
    readOption (writeOption o ++ r) = .ok (o, r) :=
  readOption_of_text blanks_nil (optionText_write o) r

theorem readObject_write (t : PrefixTable) (r : List Char) :
    readObject (t.write ++ r) = .ok (t.toList, r) :=
  readObject_of_text blanks_nil (objectText_write t) r

end DomBuilder.Json
