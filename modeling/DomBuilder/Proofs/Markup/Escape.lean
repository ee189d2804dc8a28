import DomBuilder.Proofs.Markup.Entities

/-!
# Escaped text among other markup

In markup an escaped text has other characters behind it. This file fixes that it is told by what is written
for it, and where it ends:

* `Separates f`: what `f` writes for one character tells the character and where the next one begins;
* `Separates.flatMap_inj`: then what is written for a whole text tells the text;
* `Readable.separates`: entities that are read back separate, so both escapings do (`separates_textEntity`,
  `separates_valueEntity`);
* no angle bracket stands in escaped text, and no quotation mark in an escaped value, so the first one
  after it is its end.
-/

namespace DomBuilder.Markup

/-! ## 1. Codes for single characters -/

/-- What `f` writes for a character is not empty, and tells the character whatever follows. -/
structure Separates (f : Char → List Char) : Prop where
  ne_nil : ∀ c, f c ≠ []
  split : ∀ c c' x y, f c ++ x = f c' ++ y → c = c' ∧ x = y

variable {f : Char → List Char}

/-- **Codes that separate tell the text.** -/
theorem Separates.flatMap_inj (h : Separates f) : ∀ {l l' : List Char},
    l.flatMap f = l'.flatMap f → l = l'
  | [], [], _ => rfl
  | [], c :: l', e => by
    rw [List.flatMap_nil, List.flatMap_cons] at e
    exact absurd (List.append_eq_nil_iff.mp e.symm).1 (h.ne_nil c)
  | c :: l, [], e => by
    rw [List.flatMap_nil, List.flatMap_cons] at e
    exact absurd (List.append_eq_nil_iff.mp e).1 (h.ne_nil c)
  | c :: l, c' :: l', e => by
    rw [List.flatMap_cons, List.flatMap_cons] at e
    obtain ⟨rfl, e'⟩ := h.split _ _ _ _ e
    rw [h.flatMap_inj e']

/-! ## 2. The two escapings -/

/-- **Writing that is read back separates.** The reader says what the character was, and with it how much was
    written for it. -/
theorem Readable.separates {table : List Entity} (h : Readable table) : Separates (encode table) where
  ne_nil c := by
    rcases encode_cases table c with ⟨e, _, _, hcode⟩ | ⟨_, hcode⟩ <;> rw [hcode] <;>
      exact List.cons_ne_nil _ _
  split c c' x y hxy := by
    have hread := h.decode_encode c x
    rw [hxy, h.decode_encode] at hread
    obtain ⟨rfl, _⟩ := List.cons.inj hread
    exact ⟨rfl, List.append_cancel_left hxy⟩

theorem separates_textEntity : Separates textEntity :=
  textEntity_eq ▸ readable_textEntities.separates

theorem separates_valueEntity : Separates valueEntity :=
  valueEntity_eq ▸ readable_valueEntities.separates

/-- An angle bracket that opens a tag is not part of a text. -/
theorem not_mem_flatMap_textEntity (l : List Char) : '<' ∉ l.flatMap textEntity :=
  textEntity_eq ▸ readable_textEntities.not_mem_flatMap (by decide) (by decide) l

/-- A quotation mark that ends a value is not part of it. -/
theorem not_mem_flatMap_valueEntity (l : List Char) : '"' ∉ l.flatMap valueEntity :=
  valueEntity_eq ▸ readable_valueEntities.not_mem_flatMap (by decide) (by decide) l

end DomBuilder.Markup
