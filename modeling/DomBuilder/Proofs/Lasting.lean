import DomBuilder.Proofs.Reachable

/-!
# What lasts of a node

An element holds symbols, and the table that reads them grows with every element that comes later. This
file fixes what no step can change of a node that is there:

* `NodeContent.Becomes`: the document node stays, a text may get another text, and an element may get
  other attributes. Every step keeps to that (`becomes_edit`), so any number of steps does
  (`becomes_edits`);
* `named_edits`: an element that was given a name has that name for good;
* `NoneMade`: no node became an element. Putting leaves into an element makes none (`noneMade_place`).
-/

namespace DomBuilder

/-- What the content of a node may turn into. -/
inductive NodeContent.Becomes : NodeContent → NodeContent → Prop where
  | document : Becomes .document .document
  | text (s s' : String) : Becomes (.text s) (.text s')
  | element (e : Element) (l : AttributeList) : Becomes (.element e) (.element { e with attributes := l })

namespace NodeContent

theorem Becomes.refl : ∀ k : NodeContent, k.Becomes k
  | .document => .document
  | .text s => .text s s
  | .element e => .element e e.attributes

theorem Becomes.trans {k k' k'' : NodeContent} (h : k.Becomes k') (h' : k'.Becomes k'') :
    k.Becomes k'' := by
  cases h with
  | document => exact h'
  | text s s' =>
    cases h' with
    | text _ s'' => exact .text s s''
  | element e l =>
    cases h' with
    | element _ l' => exact .element e l'

end NodeContent

namespace Document

variable {raw : Prop} {d d' : Document} {x : NodeId} {k : NodeContent}

/-! ## 1. Contents -/

/-- New content for a node is what the old may turn into. -/
theorem becomes_rewritten {id : NodeId} {k₀ k₁ : NodeContent} (hid : d.content? id = some k₀)
    (hk : k₀.Becomes k₁) (h : d.content? x = some k) :
    ∃ k', (d.rewritten id k₁).content? x = some k' ∧ k.Becomes k' := by
  rw [content?_rewritten]
  by_cases he : x = id
  · subst he
    rw [hid] at h
    cases h
    exact ⟨k₁, by rw [if_pos rfl, hid]; rfl, hk⟩
  · exact ⟨k, by rw [if_neg he, h], .refl k⟩

/-- **What every step makes of the nodes there are.** -/
theorem becomes_edit (he : Edit raw d d') (h : d.content? x = some k) :
    ∃ k', d'.content? x = some k' ∧ k.Becomes k' := by
  cases he with
  | element _ _ _ _ => exact ⟨k, content?_added_of_some h, .refl k⟩
  | text s => exact ⟨k, content?_added_of_some h, .refl k⟩
  | moved _ => exact ⟨k, by rw [content?_moved, h], .refl k⟩
  | detached c => exact ⟨k, by rw [content?_detached, h], .refl k⟩
  | set hel _ _ => exact becomes_rewritten (element?_eq_some_iff.mp hel) (.element _ _) h
  | setNs hel _ _ => exact becomes_rewritten (element?_eq_some_iff.mp hel) (.element _ _) h
  | overwrite _ hel l => exact becomes_rewritten (element?_eq_some_iff.mp hel) (.element _ l) h
  | replaceText ht s => exact becomes_rewritten (text?_eq_some_iff.mp ht) (.text _ s) h

/-- **What any number of steps makes of them.** -/
theorem becomes_edits (he : Edits raw d d') (h : d.content? x = some k) :
    ∃ k', d'.content? x = some k' ∧ k.Becomes k' := by
  refine keeps_edits (P := fun u => ∃ k', u.content? x = some k' ∧ k.Becomes k')
    (fun u u' hu ⟨k', hk, hb⟩ => ?_) he ⟨k, h, .refl k⟩
  obtain ⟨k'', hk', hb'⟩ := becomes_edit hu hk
  exact ⟨k'', hk', hb.trans hb'⟩

/-! ## 2. Names -/

theorem grown_edits (he : Edits raw d d') : d.symbols.Grown d'.symbols :=
  keeps_edits (P := fun u => d.symbols.Grown u.symbols) (fun _ _ hu h => h.trans (symbols_edit hu)) he
    (.refl _)

/-- **An element keeps the name it was given.** -/
theorem named_edits (he : Edits raw d d') {el : Element} {q : QualifiedName}
    (hel : d.element? x = some el) (hn : el.Named d.symbols q) :
    ∃ el', d'.element? x = some el' ∧ el'.Named d'.symbols q := by
  obtain ⟨k, hk, hb⟩ := becomes_edits he (element?_eq_some_iff.mp hel)
  have hg := Element.Named.grown hn (grown_edits he)
  cases hb with
  | element _ l => exact ⟨_, element?_eq_some_iff.mpr hk, hg.nsUri, hg.nsPrefix, hg.localName⟩

/-! ## 3. Elements that are made -/

/-- What is an element now was one before. -/
def NoneMade (d d' : Document) : Prop :=
  ∀ x, (d'.element? x).isSome = true → (d.element? x).isSome = true

theorem NoneMade.refl (d : Document) : NoneMade d d := fun _ h => h

theorem NoneMade.trans {d'' : Document} (h : NoneMade d d') (h' : NoneMade d' d'') :
    NoneMade d d'' := fun x hx => h x (h' x hx)

theorem noneMade_createText (s : String) : Operation.Respects NoneMade (createText s) := by
  intro d x hx
  show (d.element? x).isSome = true
  have hx' : ((d.added (.text s) d.symbols).element? x).isSome = true := hx
  rw [element?_eq_content?, content?_added] at hx'
  by_cases hi : x.index = d.size
  · rw [if_pos hi] at hx'
    cases hx'
  · rw [if_neg hi, ← element?_eq_content?] at hx'
    exact hx'

/-- Where the contents stay, nothing is made. -/
theorem noneMade_of_content (h : ∀ x, d'.content? x = d.content? x) : NoneMade d d' := by
  intro x hx
  rw [element?_eq_content?, h x, ← element?_eq_content?] at hx
  exact hx

theorem noneMade_append (p c : NodeId) : Operation.Respects NoneMade (append p c) := by
  intro d
  by_cases h : d.MayAppend p c
  · rw [run_append_of_mayAppend h]
    exact noneMade_of_content (content?_moved d p c)
  · rw [snd_run_append h]
    exact .refl d

theorem noneMade_detach (c : NodeId) : Operation.Respects NoneMade (detach c) := by
  intro d
  rw [snd_run_detach]
  exact noneMade_of_content (content?_detached d c)

theorem noneMade_putAttributes {id : NodeId} {e : Element} (he : d.element? id = some e)
    (l : AttributeList) : NoneMade d (d.putAttributes id e l) := by
  intro x hx
  by_cases hi : x = id
  · rw [hi, he]
    rfl
  · rw [putAttributes_eq, element?_eq_content?, content?_rewritten, if_neg hi,
      ← element?_eq_content?] at hx
    exact hx

theorem noneMade_overwrite (d : Document) (id : NodeId)
    (write : AttributeList → Option String × AttributeList) :
    NoneMade d (((d.overwrite? id write).map (·.2)).getD d) := by
  unfold overwrite?
  cases he : d.element? id with
  | none => exact .refl d
  | some e => exact noneMade_putAttributes he _

theorem noneMade_replaceText (d : Document) (id : NodeId) (s : String) :
    NoneMade d (((d.replaceText? id s).map (·.2)).getD d) := by
  unfold replaceText?
  cases ht : d.text? id with
  | none => exact .refl d
  | some old =>
    intro x hx
    change ((d.rewritten id (.text s)).element? x).isSome = true at hx
    rw [element?_eq_content?, content?_rewritten] at hx
    by_cases hi : x = id
    · rw [if_pos hi, hi, text?_eq_some_iff.mp ht] at hx
      cases hx
    · rw [if_neg hi, ← element?_eq_content?] at hx
      exact hx

theorem noneMade_setAttribute (id : NodeId) (name value : String) :
    Operation.Respects NoneMade (setAttribute id name value) := by
  intro d
  rw [run_setAttribute]
  cases Name.check name with
  | error e => exact .refl d
  | ok u =>
    cases he : d.elementOf id with
    | error e => exact .refl d
    | ok e => exact noneMade_putAttributes (elementOf_eq_ok_iff.mp he) _

theorem noneMade_setAttributeNs (id : NodeId) (nsUri : Option String) (name value : String) :
    Operation.Respects NoneMade (setAttributeNs id nsUri name value) := by
  intro d
  rw [run_setAttributeNs]
  cases QualifiedName.extract nsUri name with
  | error e => exact .refl d
  | ok q =>
    cases he : d.elementOf id with
    | error e => exact .refl d
    | ok e => exact noneMade_putAttributes (elementOf_eq_ok_iff.mp he) _

/-- **What goes into an element is no new element.** -/
theorem noneMade_place (c : Config) (element : NodeId) (l : Leaf) :
    Operation.Respects NoneMade (l.place c element) := by
  have ht : ∀ s t u, NoneMade s t → NoneMade t u → NoneMade s u := fun _ _ _ => .trans
  cases l with
  | text s =>
    exact Operation.respects_bind ht (noneMade_createText s) fun _ =>
      Operation.respects_bind ht (noneMade_append _ _) fun _ => .refl
  | node id => exact Operation.respects_bind ht (noneMade_append _ _) fun _ => .refl
  | keys entries =>
    refine Operation.respects_forM .refl ht fun kv _ => ?_
    show Operation.Respects NoneMade (setKey c element kv.1 kv.2)
    unfold setKey
    cases (AttributeKey.ofKey kv.1).nsUri c with
    | none => exact noneMade_setAttribute _ _ _
    | some uri => exact noneMade_setAttributeNs _ _ _ _

end Document

end DomBuilder
