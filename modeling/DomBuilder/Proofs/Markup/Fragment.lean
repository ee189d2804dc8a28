import DomBuilder.Markup.Writer
import DomBuilder.Proofs.Markup.Escape
import DomBuilder.Proofs.Naming

/-!
# Markup that can be read in one way only

This file fixes what markup is read as, and why there is one reading at most:

* `Fragment`: a row of texts and elements. An element has a name, attributes and a fragment inside;
* `Fragment.render`: the characters of a fragment. An element whose name is that of a void element has
  neither inside nor end tag;
* `Fragment.Normal`: no text is empty or follows another, void elements have nothing inside, and names
  are spelled;
* `span_unique`: what stands before the first delimiter is determined. It is used for texts, names and
  values in turn;
* `Normal.readable`: **two normal fragments with the same characters are the same**, also if an end tag
  and more follows them, which carries the induction into an element.
-/

namespace DomBuilder

open Markup

/-- A row of texts and elements, each with what comes after it. -/
inductive Fragment where
  | done
  | text (s : String) (rest : Fragment)
  | element (name : String) (attributes : List (String × String)) (inner rest : Fragment)
  deriving DecidableEq, Repr

namespace Fragment

/-! ## 1. Characters of a fragment -/

/-- An attribute, after the space before it. -/
def renderAttribute (a : String × String) : List Char :=
  ' ' :: a.1.toList ++ '=' :: '"' :: a.2.toList.flatMap valueEntity ++ ['"']

def render : Fragment → List Char
  | done => []
  | text s rest => s.toList.flatMap textEntity ++ rest.render
  | element name attributes inner rest =>
    '<' :: name.toList ++ attributes.flatMap renderAttribute ++
      '>' :: (if voidElements.contains name then rest.render
        else inner.render ++ '<' :: '/' :: name.toList ++ '>' :: rest.render)

/-- A text comes first. -/
def startsWithText : Fragment → Bool
  | text _ _ => true
  | _ => false

/-- Texts are merged and not empty, void elements are empty, and names are spelled. -/
def Normal : Fragment → Prop
  | done => True
  | text s rest => s ≠ "" ∧ rest.startsWithText = false ∧ rest.Normal
  | element name attributes inner rest =>
    Name.Spelled name ∧ (∀ a ∈ attributes, Name.Spelled a.1) ∧
      (voidElements.contains name = true → inner = done) ∧ inner.Normal ∧ rest.Normal

/-! ## 2. Where a part ends -/

/-- **Before the first delimiter there is one reading.** -/
theorem span_unique {p : Char → Bool} : ∀ {a b s t : List Char}, (∀ c ∈ a, p c = false) →
    (∀ c ∈ b, p c = false) → s.head?.any p = true → t.head?.any p = true →
    a ++ s = b ++ t → a = b ∧ s = t
  | [], [], _, _, _, _, _, _, e => ⟨rfl, e⟩
  | [], y :: b, s, t, _, hb, hs, _, e => by
    rw [List.nil_append] at e
    rw [e] at hs
    have hy : p y = true := hs
    rw [hb y List.mem_cons_self] at hy
    cases hy
  | x :: a, [], s, t, ha, _, _, ht, e => by
    rw [List.nil_append] at e
    rw [← e] at ht
    have hx : p x = true := ht
    rw [ha x List.mem_cons_self] at hx
    cases hx
  | x :: a, y :: b, s, t, ha, hb, hs, ht, e => by
    obtain ⟨rfl, e'⟩ := List.cons.inj e
    obtain ⟨rfl, e''⟩ := span_unique (fun c hc => ha c (List.mem_cons_of_mem _ hc))
      (fun c hc => hb c (List.mem_cons_of_mem _ hc)) hs ht e'
    exact ⟨rfl, e''⟩

/-- A character that may not stand in a name is not in a spelled one. -/
theorem spelled_avoids {n : String} (h : Name.Spelled n) {p : Char → Bool}
    (hp : ∀ c, Name.isChar c = true → p c = false) : ∀ c ∈ n.toList, p c = false :=
  fun c hc => hp c (h c hc)

theorem isChar_ne {x : Char} (hx : Name.isChar x = false) {c : Char} (hc : Name.isChar c = true) :
    c ≠ x := by
  rintro rfl
  rw [hx] at hc
  cases hc

/-! ## 3. Attributes -/

/-- **One attribute is read in one way.** -/
theorem renderAttribute_unique {a b : String × String} (ha : Name.Spelled a.1)
    (hb : Name.Spelled b.1) {s t : List Char}
    (h : renderAttribute a ++ s = renderAttribute b ++ t) : a = b ∧ s = t := by
  obtain ⟨n, v⟩ := a
  obtain ⟨m, w⟩ := b
  simp only [renderAttribute, List.cons_append, List.append_assoc, List.cons.injEq, true_and] at h
  have hp : ∀ c, Name.isChar c = true → decide (c = '=') = false := fun c hc =>
    decide_eq_false (isChar_ne Name.isChar_delimiters.2.2.1 hc)
  obtain ⟨hn, h'⟩ := span_unique (spelled_avoids ha hp) (spelled_avoids hb hp) rfl rfl h
  simp only [List.cons.injEq, true_and] at h'
  have hq : ∀ l : List Char, ∀ c ∈ l.flatMap valueEntity, decide (c = '"') = false := by
    intro l c hc
    refine decide_eq_false ?_
    rintro rfl
    exact not_mem_flatMap_valueEntity l hc
  obtain ⟨hv, h''⟩ := span_unique (hq _) (hq _) rfl rfl h'
  have hnm : n = m := String.toList_injective hn
  have hvw : v = w := String.toList_injective (separates_valueEntity.flatMap_inj hv)
  rw [hnm, hvw]
  exact ⟨rfl, (List.cons.inj h'').2⟩

/-- **A list of attributes up to the end of its tag is read in one way.** -/
theorem attributes_unique : ∀ {as bs : List (String × String)}, (∀ a ∈ as, Name.Spelled a.1) →
    (∀ b ∈ bs, Name.Spelled b.1) → ∀ {s t : List Char},
    as.flatMap renderAttribute ++ '>' :: s = bs.flatMap renderAttribute ++ '>' :: t → as = bs ∧ s = t
  | [], [], _, _, _, _, h => ⟨rfl, (List.cons.inj h).2⟩
  | [], b :: bs, _, _, s, t, h => by
    have hc := (List.cons.inj h).1
    exact absurd hc (by decide)
  | a :: as, [], _, _, s, t, h => by
    have hc := (List.cons.inj h).1
    exact absurd hc (by decide)
  | a :: as, b :: bs, ha, hb, s, t, h => by
    rw [List.flatMap_cons, List.flatMap_cons, List.append_assoc, List.append_assoc] at h
    obtain ⟨rfl, h'⟩ := renderAttribute_unique (ha a List.mem_cons_self) (hb b List.mem_cons_self) h
    obtain ⟨rfl, h''⟩ := attributes_unique (fun x hx => ha x (List.mem_cons_of_mem _ hx))
      (fun x hx => hb x (List.mem_cons_of_mem _ hx)) h'
    exact ⟨rfl, h''⟩

/-- **A start tag is read in one way.** -/
theorem startTag_unique {n m : String} {as bs : List (String × String)} (hn : Name.Spelled n)
    (hm : Name.Spelled m) (ha : ∀ a ∈ as, Name.Spelled a.1) (hb : ∀ b ∈ bs, Name.Spelled b.1)
    {s t : List Char} (h : n.toList ++ as.flatMap renderAttribute ++ '>' :: s =
      m.toList ++ bs.flatMap renderAttribute ++ '>' :: t) : n = m ∧ as = bs ∧ s = t := by
  rw [List.append_assoc, List.append_assoc] at h
  have hp : ∀ c, Name.isChar c = true → (decide (c = ' ') || decide (c = '>')) = false := by
    intro c hc
    rw [decide_eq_false (isChar_ne Name.isChar_delimiters.1 hc),
      decide_eq_false (isChar_ne Name.isChar_delimiters.2.1 hc)]
    rfl
  -- behind the name comes the space of an attribute or the end of the tag
  have hend : ∀ (cs : List (String × String)) (u : List Char),
      (cs.flatMap renderAttribute ++ '>' :: u).head?.any
        (fun c => decide (c = ' ') || decide (c = '>')) = true := by
    intro cs u
    cases cs <;> rfl
  obtain ⟨h1, h2⟩ := span_unique (spelled_avoids hn hp) (spelled_avoids hm hp) (hend as s)
    (hend bs t) h
  exact ⟨String.toList_injective h1, attributes_unique ha hb h2⟩

/-! ## 4. Fragments -/

/-- Behind the name in a tag comes the space of an attribute or the end of the tag. -/
theorem head?_attributes (as : List (String × String)) (s : List Char) :
    (as.flatMap renderAttribute ++ '>' :: s).head? = some ' ' ∨
      (as.flatMap renderAttribute ++ '>' :: s).head? = some '>' := by
  cases as with
  | nil => exact .inr rfl
  | cons a as => exact .inl rfl

/-- What begins with no text begins with a tag. -/
theorem head?_render {f : Fragment} (h : f.startsWithText = false) (s : List Char) :
    (f.render ++ '<' :: s).head? = some '<' := by
  cases f with
  | done => rfl
  | text r rest => cases h
  | element n as inner rest => rfl

/-- An end tag is not read as a start tag. -/
theorem endTag_ne_startTag {n : String} (hn : Name.Spelled n) (as : List (String × String))
    (s t : List Char) : '/' :: s ≠ n.toList ++ as.flatMap renderAttribute ++ '>' :: t := by
  intro h
  rw [List.append_assoc] at h
  cases hl : n.toList with
  | nil =>
    rw [hl, List.nil_append] at h
    rcases head?_attributes as t with e | e <;> rw [← h] at e <;> cases e
  | cons c r =>
    rw [hl] at h
    have hc := hn c (by rw [hl]; exact List.mem_cons_self)
    rw [← (List.cons.inj h).1, Name.isChar_delimiters.2.2.2] at hc
    cases hc

/-- **A text up to the next tag is read in one way.** -/
theorem text_unique {r r' : String} {u v : List Char} (hu : u.head? = some '<')
    (hv : v.head? = some '<')
    (h : r.toList.flatMap textEntity ++ u = r'.toList.flatMap textEntity ++ v) : r = r' ∧ u = v := by
  have hp : ∀ l : List Char, ∀ c ∈ l.flatMap textEntity, decide (c = '<') = false := by
    intro l c hc
    refine decide_eq_false ?_
    rintro rfl
    exact not_mem_flatMap_textEntity l hc
  have hu' : u.head?.any (fun c => decide (c = '<')) = true := by rw [hu]; rfl
  have hv' : v.head?.any (fun c => decide (c = '<')) = true := by rw [hv]; rfl
  obtain ⟨h1, h2⟩ := span_unique (hp _) (hp _) hu' hv' h
  exact ⟨String.toList_injective (separates_textEntity.flatMap_inj h1), h2⟩

/-- What begins with a tag is not read as a text. -/
theorem not_text {f : Fragment} (hf : f.startsWithText = false) {r : String} {s v : List Char}
    (hr : r ≠ "") (hv : v.head? = some '<') :
    f.render ++ '<' :: s ≠ r.toList.flatMap textEntity ++ v := by
  intro h
  have he : ("" : String).toList.flatMap textEntity ++ (f.render ++ '<' :: s) =
      r.toList.flatMap textEntity ++ v := h
  exact hr (text_unique (head?_render hf s) hv he).1.symm

theorem render_text_append (r : String) (rest : Fragment) (u : List Char) :
    (text r rest).render ++ u = r.toList.flatMap textEntity ++ (rest.render ++ u) := by
  rw [render, List.append_assoc]

theorem render_element_append (n : String) (as : List (String × String)) (inner rest : Fragment)
    (u : List Char) : (element n as inner rest).render ++ u =
      '<' :: (n.toList ++ as.flatMap renderAttribute ++ '>' ::
        (if voidElements.contains n then rest.render ++ u
        else inner.render ++ '<' :: '/' :: (n.toList ++ '>' :: (rest.render ++ u)))) := by
  rw [render]
  by_cases hv : voidElements.contains n = true
  · rw [if_pos hv, if_pos hv]
    simp only [List.cons_append, List.append_assoc]
  · rw [if_neg hv, if_neg hv]
    simp only [List.cons_append, List.append_assoc]

/-- **Normal fragments are read in one way, also in front of an end tag.** -/
theorem Normal.readable {f : Fragment} : ∀ {g : Fragment}, f.Normal → g.Normal → ∀ {s t : List Char},
    f.render ++ '<' :: '/' :: s = g.render ++ '<' :: '/' :: t → f = g ∧ s = t := by
  induction f with
  | done =>
    intro g _ hg s t h
    cases g with
    | done => exact ⟨rfl, (List.cons.inj (List.cons.inj h).2).2⟩
    | text r rest =>
      rw [render_text_append] at h
      exact absurd h (not_text (f := done) rfl hg.1 (head?_render hg.2.1 _))
    | element n as inner rest =>
      rw [render_element_append] at h
      exact absurd (List.cons.inj h).2 (endTag_ne_startTag hg.1 as _ _)
  | text r rest ih =>
    intro g hf hg s t h
    obtain ⟨hr, hs, hrest⟩ := hf
    rw [render_text_append] at h
    cases g with
    | done => exact absurd h.symm (not_text (f := done) rfl hr (head?_render hs _))
    | text r' rest' =>
      rw [render_text_append] at h
      obtain ⟨rfl, h'⟩ := text_unique (head?_render hs _) (head?_render hg.2.1 _) h
      obtain ⟨rfl, hst⟩ := ih hrest hg.2.2 h'
      exact ⟨rfl, hst⟩
    | element n as inner rest' =>
      exact absurd h.symm (not_text (f := element n as inner rest') rfl hr (head?_render hs _))
  | element n as inner rest ihi ihr =>
    intro g hf hg s t h
    cases g with
    | done =>
      rw [render_element_append] at h
      exact absurd (List.cons.inj h).2.symm (endTag_ne_startTag hf.1 as _ _)
    | text r' rest' =>
      rw [render_text_append] at h
      exact absurd h (not_text (f := element n as inner rest) rfl hg.1 (head?_render hg.2.1 _))
    | element m bs inner' rest' =>
      obtain ⟨hn, ha, hvoid, hinner, hrest⟩ := hf
      obtain ⟨hm, hb, hvoid', hinner', hrest'⟩ := hg
      rw [render_element_append, render_element_append] at h
      obtain ⟨rfl, rfl, h'⟩ := startTag_unique hn hm ha hb (List.cons.inj h).2
      by_cases hv : voidElements.contains n = true
      · rw [if_pos hv, if_pos hv] at h'
        obtain ⟨rfl, hst⟩ := ihr hrest hrest' h'
        rw [hvoid hv, hvoid' hv]
        exact ⟨rfl, hst⟩
      · rw [if_neg hv, if_neg hv] at h'
        obtain ⟨rfl, h''⟩ := ihi hinner hinner' h'
        obtain ⟨rfl, hst⟩ := ihr hrest hrest' (List.cons.inj (List.append_cancel_left h'')).2
        exact ⟨rfl, hst⟩

/-- **Normal fragments with the same characters are the same.** -/
theorem Normal.render_inj {f g : Fragment} (hf : f.Normal) (hg : g.Normal)
    (h : f.render = g.render) : f = g := by
  have he : f.render ++ ['<', '/'] = g.render ++ ['<', '/'] := by rw [h]
  exact (hf.readable hg he).1

end Fragment

end DomBuilder
