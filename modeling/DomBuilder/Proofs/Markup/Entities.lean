import DomBuilder.Markup.Escape
import DomBuilder.Text.Split

/-!
# Entities, and how they are read back

An escaping writes entities for some characters and all others as they are. This file fixes the entities of
both escapings as tables, a reader that goes by such a table, and why nothing is lost between the two:

* `Entity`: a character and the name that stands for it between an ampersand and a semicolon;
  `textEntities`, `valueEntities`: those of text and of attribute values;
* `encode`: one character written by a table. The two escapings are the writing by their tables
  (`textEntity_eq`, `valueEntity_eq`);
* `decode`: one pass from left to right that takes each entity for its character. It does not know where
  one character's writing ends and the next one's begins;
* `Readable`: what it takes of a table that every text is read back (`Readable.decode_flatMap`). The
  ampersand itself has an entity, the characters with an entity are in no name, and a name has one character;
* `lossless_escaping`: what this gives for the two escapings.
-/

namespace DomBuilder.Markup

/-! ## 1. Tables of entities -/

/-- A character, and the name that is written for it. The first semicolon ends the name. -/
structure Entity where
  char : Char
  name : List Char
  closed : ';' ∉ name := by decide

/-- What is written: the name between an ampersand and a semicolon. -/
def Entity.code (e : Entity) : List Char := '&' :: (e.name ++ [';'])

/-- The entities of text: `&amp;`, `&lt;`, `&gt;` and `&nbsp;`. -/
def textEntities : List Entity := [
  { char := '&', name := ['a', 'm', 'p'] }, { char := '<', name := ['l', 't'] },
  { char := '>', name := ['g', 't'] }, { char := noBreakSpace, name := ['n', 'b', 's', 'p'] }]

/-- The entities of attribute values: `&amp;`, `&quot;` and `&nbsp;`. -/
def valueEntities : List Entity := [
  { char := '&', name := ['a', 'm', 'p'] }, { char := '"', name := ['q', 'u', 'o', 't'] },
  { char := noBreakSpace, name := ['n', 'b', 's', 'p'] }]

/-- A character by the table: its entity if it has one, else itself. -/
def encode (table : List Entity) (c : Char) : List Char :=
  match table.find? fun e => e.char = c with
  | some e => e.code
  | none => [c]

theorem textEntity_eq : textEntity = encode textEntities := by
  funext c
  unfold textEntity encode textEntities
  grind [Entity.code]

theorem valueEntity_eq : valueEntity = encode valueEntities := by
  funext c
  unfold valueEntity encode valueEntities
  grind [Entity.code]

/-! ## 2. Reading by a table -/

/-- The entity that comes first in a text. -/
def entityAt? (table : List Entity) (l : List Char) : Option Entity :=
  table.find? fun e => e.code.isPrefixOf l

theorem entityAt?_eq_some {table : List Entity} {l : List Char} {e : Entity}
    (h : entityAt? table l = some e) : e ∈ table ∧ e.code <+: l := by
  unfold entityAt? at h
  have hp := List.find?_some h
  exact ⟨List.mem_of_find?_eq_some h, List.isPrefixOf_iff_prefix.mp hp⟩

theorem entityAt?_eq_none_iff {table : List Entity} {l : List Char} :
    entityAt? table l = none ↔ ∀ e ∈ table, ¬ e.code <+: l := by
  simp [entityAt?]

/-- One pass from left to right that takes each entity for its character, and any other character for
    itself. -/
def decode (table : List Entity) : List Char → List Char
  | [] => []
  | c :: l =>
    match entityAt? table (c :: l) with
    | some e => e.char :: decode table ((c :: l).drop e.code.length)
    | none => c :: decode table l
termination_by l => l.length
decreasing_by
  · simp only [List.length_drop, List.length_cons, Entity.code]
    omega
  · exact Nat.lt_succ_self _

/-- Where an entity stands, it is read. -/
theorem decode_of_entity {table : List Entity} {c : Char} {l : List Char} {e : Entity}
    (h : entityAt? table (c :: l) = some e) :
    decode table (c :: l) = e.char :: decode table ((c :: l).drop e.code.length) := by
  rw [decode, h]

/-- Where none stands, the character is read as it is. -/
theorem decode_of_none {table : List Entity} {c : Char} {l : List Char}
    (h : entityAt? table (c :: l) = none) : decode table (c :: l) = c :: decode table l := by
  rw [decode, h]

/-! ## 3. Tables that can be read back -/

/-- What a table needs for its writing to be read back. -/
structure Readable (table : List Entity) : Prop where
  /-- An ampersand of the text is not left where it would begin an entity. -/
  ampersand : ∃ e ∈ table, e.char = '&'
  /-- No entity brings in a character that has one. -/
  clear : ∀ e ∈ table, ∀ e' ∈ table, e'.char ∉ e.name ++ [';']
  /-- A name stands for one character. -/
  apart : ∀ e ∈ table, ∀ e' ∈ table, e.name = e'.name → e.char = e'.char

theorem readable_textEntities : Readable textEntities where
  ampersand := by decide
  clear := by decide
  apart := by decide

theorem readable_valueEntities : Readable valueEntities where
  ampersand := by decide
  clear := by decide
  apart := by decide

/-- A character has an entity in the table, or stands for itself. -/
theorem encode_cases (table : List Entity) (c : Char) :
    (∃ e ∈ table, e.char = c ∧ encode table c = e.code) ∨
      (∀ e ∈ table, e.char ≠ c) ∧ encode table c = [c] := by
  unfold encode
  cases h : table.find? fun e => e.char = c with
  | some e => exact .inl ⟨e, List.mem_of_find?_eq_some h, by simpa using List.find?_some h, rfl⟩
  | none => exact .inr ⟨fun e he => by simpa using List.find?_eq_none.mp h e he, rfl⟩

/-- The first semicolon is the end of the name, so one entity at most stands at the beginning of a text. -/
theorem Entity.name_unique {e e' : Entity} {x y : List Char} (h : e.code ++ x = e'.code ++ y) :
    e.name = e'.name := by
  have hsplit : e.name ++ ';' :: x = e'.name ++ ';' :: y := by
    simpa [Entity.code] using h
  have hcut := (Text.cutFirst_eq_some_iff ';' _ e.name x).mpr ⟨rfl, e.closed⟩
  have hcut' := (Text.cutFirst_eq_some_iff ';' _ e'.name y).mpr ⟨hsplit, e'.closed⟩
  rw [hcut] at hcut'
  exact (Prod.mk.inj (Option.some.inj hcut')).1

namespace Readable

variable {table : List Entity} {c : Char} {l : List Char}

/-! ## 4. What an escaped text is made of -/

/-- A character that has an entity is left nowhere, but for the ampersands of the entities. -/
theorem not_mem_flatMap (h : Readable table) (hc : ∃ e ∈ table, e.char = c) (hne : c ≠ '&')
    (l : List Char) : c ∉ l.flatMap (encode table) := by
  obtain ⟨e, he, rfl⟩ := hc
  intro hm
  obtain ⟨c, _, hc⟩ := List.mem_flatMap.mp hm
  rcases encode_cases table c with ⟨e', he', _, hcode⟩ | ⟨hnone, hcode⟩ <;> rw [hcode] at hc
  · exact (List.mem_cons.mp hc).elim hne (h.clear e' he' e he)
  · exact hnone e he (List.mem_singleton.mp hc)

/-- The ampersand itself is never left as it is. -/
theorem ne_ampersand (h : Readable table) (hc : ∀ e ∈ table, e.char ≠ c) : '&' ≠ c := by
  obtain ⟨e, he, hamp⟩ := h.ampersand
  exact fun hne => hc e he (hamp.trans hne)

theorem ampersand_not_mem (h : Readable table) {e : Entity} (he : e ∈ table) :
    '&' ∉ e.name ++ [';'] := by
  obtain ⟨e', he', hamp⟩ := h.ampersand
  exact hamp ▸ h.clear e he e' he'

end Readable

/-- Past characters that are not `c`, the text from a `c` on comes later. -/
theorem suffix_of_not_mem {c : Char} {y r : List Char} : ∀ {w : List Char}, c ∉ w →
    c :: y <:+ w ++ r → c :: y <:+ r
  | [], _, h => h
  | a :: w, hw, h => by
    rcases List.suffix_cons_iff.mp h with heq | h
    · exact absurd (List.cons.inj heq).1 (List.ne_of_not_mem_cons hw)
    · exact suffix_of_not_mem (List.not_mem_of_not_mem_cons hw) h

/-- **Every ampersand of an escaped text begins an entity.** -/
theorem Readable.exists_code {table : List Entity} (h : Readable table) {y : List Char} :
    ∀ {l : List Char}, '&' :: y <:+ l.flatMap (encode table) → ∃ e ∈ table, e.code <+: '&' :: y
  | [], hy => absurd (List.suffix_nil.mp hy) (List.cons_ne_nil _ _)
  | c :: l, hy => by
    rw [List.flatMap_cons] at hy
    rcases encode_cases table c with ⟨e, he, _, hcode⟩ | ⟨hnone, hcode⟩ <;> rw [hcode] at hy
    · -- an entity has no other ampersand than its first character
      rcases List.suffix_cons_iff.mp hy with heq | hy
      · exact ⟨e, he, heq ▸ List.prefix_append _ _⟩
      · exact h.exists_code (suffix_of_not_mem (h.ampersand_not_mem he) hy)
    · have hc : '&' ∉ [c] := by simpa using h.ne_ampersand hnone
      exact h.exists_code (suffix_of_not_mem hc hy)

/-! ## 5. Reading back -/

namespace Readable

variable {table : List Entity}

/-- Before the writing of an entity the reader sees an entity of the same character and length. -/
theorem entityAt?_code (h : Readable table) {e : Entity} (he : e ∈ table) (l : List Char) :
    ∃ e', entityAt? table (e.code ++ l) = some e' ∧ e'.char = e.char ∧ e'.code = e.code := by
  cases hat : entityAt? table (e.code ++ l) with
  | none => exact absurd (List.prefix_append _ _) (entityAt?_eq_none_iff.mp hat e he)
  | some e' =>
    obtain ⟨he', r, hr⟩ := entityAt?_eq_some hat
    have hname : e'.name = e.name := Entity.name_unique hr
    exact ⟨e', rfl, h.apart e' he' e he hname, by rw [Entity.code, Entity.code, hname]⟩

/-- **One character is read back, whatever follows.** -/
theorem decode_encode (h : Readable table) (c : Char) (l : List Char) :
    decode table (encode table c ++ l) = c :: decode table l := by
  rcases encode_cases table c with ⟨e, he, rfl, hcode⟩ | ⟨hnone, hcode⟩ <;> rw [hcode]
  · obtain ⟨e', hat, hchar, hcode'⟩ := h.entityAt?_code he l
    refine (decode_of_entity hat).trans ?_
    rw [hchar, hcode']
    exact congrArg (e.char :: decode table ·) List.drop_left
  · -- an entity begins with the ampersand, which has an entity and so is not `c`
    have hat : entityAt? table (c :: l) = none := entityAt?_eq_none_iff.mpr fun e _ ⟨r, hr⟩ =>
      h.ne_ampersand hnone (List.cons.inj hr).1
    exact decode_of_none hat

/-- **Every text is read back.** -/
theorem decode_flatMap (h : Readable table) (l : List Char) :
    decode table (l.flatMap (encode table)) = l := by
  induction l with
  | nil => rw [List.flatMap_nil, decode]
  | cons c l ih => rw [List.flatMap_cons, h.decode_encode, ih]

end Readable

/-! ## 6. The two escapings -/

/-- A text with the entities of the table taken for their characters. -/
def unescape (table : List Entity) (s : String) : String := String.ofList (decode table s.toList)

/-- An escaping whose entities are those of the table takes the characters `marks` out of every text and
    loses nothing. -/
structure Lossless (escape : String → String) (table : List Entity) (marks : List Char) : Prop where
  /-- None of the marks is left. -/
  unmarked : ∀ s, ∀ c ∈ marks, c ∉ (escape s).toList
  /-- From every ampersand on one reads an entity. -/
  ampersand : ∀ s y, '&' :: y <:+ (escape s).toList → ∃ e ∈ table, e.code <+: '&' :: y
  /-- One pass over the entities gives the text back. -/
  unescape_escape : ∀ s, unescape table (escape s) = s
  /-- A text is escaped piece by piece. -/
  append : ∀ s s', escape (s ++ s') = escape s ++ escape s'

theorem Readable.lossless {escape : String → String} {table : List Entity} {marks : List Char}
    (h : Readable table) (hescape : ∀ s, (escape s).toList = s.toList.flatMap (encode table))
    (hmarks : marks = (table.map Entity.char).filter (· ≠ '&')) : Lossless escape table marks where
  unmarked s c hc := by
    rw [hmarks, List.mem_filter, List.mem_map, decide_eq_true_eq] at hc
    rw [hescape]
    exact h.not_mem_flatMap hc.1 hc.2 s.toList
  ampersand s y hy := by
    rw [hescape] at hy
    exact h.exists_code hy
  unescape_escape s := by rw [unescape, hescape, h.decode_flatMap, String.ofList_toList]
  append s s' := by
    apply String.toList_injective
    rw [String.toList_append, hescape, hescape, hescape, String.toList_append, List.flatMap_append]

/-- **Escaping takes the delimiters out and loses nothing**, whatever the text looks like. An escaped text
    has no angle bracket and an escaped value no quotation mark, neither has a no-break space, and every
    ampersand in them begins an entity. Reading the entities in one pass from left to right gives the text
    back, and texts may be escaped piece by piece. -/
theorem lossless_escaping :
    Lossless escapeText textEntities ['<', '>', noBreakSpace] ∧
      Lossless escapeValue valueEntities ['"', noBreakSpace] := by
  refine ⟨readable_textEntities.lossless (fun s => ?_) (by decide),
    readable_valueEntities.lossless (fun s => ?_) (by decide)⟩
  · rw [toList_escapeText, textEntity_eq]
  · rw [toList_escapeValue, valueEntity_eq]

/-- A text that looks escaped is escaped once more and comes back as it was. -/
example : escapeText "&lt;&" = "&amp;lt;&amp;" ∧ unescape textEntities "&amp;lt;&amp;" = "&lt;&" := by
  cbv

end DomBuilder.Markup
