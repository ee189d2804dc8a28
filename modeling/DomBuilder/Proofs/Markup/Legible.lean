import DomBuilder.Proofs.Markup.Fragment
import DomBuilder.Proofs.Markup.Names

/-!
# Elements whose markup tells what they are

Raw text is written as it is, and only the name of an element tells that it is void. Where neither gets
in the way, the markup of an element determines the element. This file fixes:

* `Tree.onto`, `Document.normalForm`: an element as a normal fragment: written names, attribute values,
  texts merged, nothing inside void elements;
* `Tree.Legible`: no text under a raw-text element, no other element named like a void one, and all names
  spelled. Then the markup is that of the normal form (`write_onto`), which is normal (`normal_onto`);
* `Document.Legible`: the first two conditions for a node of a document and all below it;
* `spelled_after`: after checked calls all names are spelled;
* `normalForm_eq_of_outerHtml_eq`: two legible elements with the same markup have the same normal form.
-/

namespace DomBuilder

open Markup

/-! ## 1. Normal forms -/

namespace Fragment

/-- A text in front: no text if it is empty, and part of the first text if there is one. -/
def prependText (s : String) (f : Fragment) : Fragment :=
  if s = "" then f
  else
    match f with
    | text t rest => text (s ++ t) rest
    | _ => text s f

theorem render_prependText (s : String) (f : Fragment) :
    (f.prependText s).render = s.toList.flatMap textEntity ++ f.render := by
  unfold prependText
  by_cases hs : s = ""
  · rw [if_pos hs, hs]
    rfl
  · rw [if_neg hs]
    cases f with
    | text t rest => simp only [render, String.toList_append, List.flatMap_append, List.append_assoc]
    | done => rfl
    | element n as inner rest => rfl

theorem Normal.prependText {f : Fragment} (h : f.Normal) (s : String) : (f.prependText s).Normal := by
  unfold Fragment.prependText
  by_cases hs : s = ""
  · rw [if_pos hs]
    exact h
  · rw [if_neg hs]
    cases f with
    | text t rest =>
      refine ⟨fun e => hs ?_, h.2.1, h.2.2⟩
      have hl := congrArg String.toList e
      rw [String.toList_append] at hl
      exact String.toList_injective (List.append_eq_nil_iff.mp hl).1
    | done => exact ⟨hs, rfl, h⟩
    | element n as inner rest => exact ⟨hs, rfl, h⟩

end Fragment

/-- The name and the value of an attribute in a tag. -/
def Attribute.written (a : Attribute) : String × String := (writtenName a, a.value)

namespace Tree

mutual

/-- The normal form of a tree in front of a fragment. -/
def onto : Tree → Fragment → Fragment
  | document ts, f => ontoAll ts f
  | text s, f => f.prependText s
  | element l ts, f =>
    .element l.tagName (l.attributes.toList.map Attribute.written)
      (if l.isVoid then .done else ontoAll ts .done) f

/-- The normal forms of trees in a row, in front of a fragment. -/
def ontoAll : List Tree → Fragment → Fragment
  | [], f => f
  | t :: ts, f => t.onto (ontoAll ts f)

end

end Tree

/-- The normal form of a node. -/
def Document.normalForm (d : Document) (id : NodeId) : Fragment := (d.tree id).onto .done

/-! ## 2. Legible trees -/

/-- Names are spelled, and an element that is named like a void one is one of HTML. -/
structure Label.Legible (l : Label) : Prop where
  name : Name.Spelled l.tagName
  attributes : ∀ a ∈ l.attributes.toList, Name.Spelled (writtenName a)
  void : voidElements.contains l.tagName = true → l.isHtml = true

/-- The name alone tells that an element is void. -/
theorem Label.Legible.isVoid_eq {l : Label} (h : l.Legible) :
    l.isVoid = voidElements.contains l.tagName := by
  unfold isVoid
  cases hv : voidElements.contains l.tagName with
  | false => rw [Bool.and_false]
  | true => rw [h.void hv]; rfl

namespace Tree

mutual

/-- All labels are legible, and no text stands under a raw-text element. -/
def Legible (parent : Option Label) : Tree → Prop
  | document ts => LegibleAll none ts
  | text _ => parent.any Label.isRawText = false
  | element l ts => l.Legible ∧ LegibleAll (some l) ts

def LegibleAll (parent : Option Label) : List Tree → Prop
  | [] => True
  | t :: ts => t.Legible parent ∧ LegibleAll parent ts

end

theorem legibleAll_iff {parent : Option Label} : ∀ {ts : List Tree},
    LegibleAll parent ts ↔ ∀ t ∈ ts, t.Legible parent
  | [] => ⟨fun _ _ h => absurd h List.not_mem_nil, fun _ => trivial⟩
  | t :: ts => by rw [LegibleAll, legibleAll_iff, List.forall_mem_cons]

theorem toList_startTag (name : String) (l : AttributeList) :
    (startTag name l).toList = '<' :: name.toList ++
      (l.toList.map Attribute.written).flatMap Fragment.renderAttribute ++ ['>'] := by
  have ha : ∀ a : Attribute, (writeAttribute a).toList = Fragment.renderAttribute a.written := by
    intro a
    simp [writeAttribute, Fragment.renderAttribute, Attribute.written]
  have hj : (String.join (l.toList.map writeAttribute)).toList =
      (l.toList.map Attribute.written).flatMap Fragment.renderAttribute := by
    rw [String.toList_join, List.flatMap_map, List.flatMap_map]
    exact congrArg (fun f => List.flatMap f l.toList) (funext ha)
  simp only [startTag, String.toList_append, hj]
  rfl

theorem toList_endTag (name : String) : (endTag name).toList = '<' :: '/' :: name.toList ++ ['>'] := by
  simp only [endTag, String.toList_append]
  rfl

mutual

/-- **The markup of a legible tree is that of its normal form.** -/
theorem write_onto : ∀ (t : Tree) (parent : Option Label) (f : Fragment), t.Legible parent →
    (t.write parent).toList ++ f.render = (t.onto f).render
  | document ts, _, f, h => by
    rw [write, onto]
    exact writeAll_onto ts none f h
  | text s, parent, f, h => by
    have hr : parent.any Label.isRawText = false := h
    rw [write, onto, Label.writeText, hr, Fragment.render_prependText]
    exact congrArg (· ++ f.render) (toList_escapeText s)
  | element l ts, parent, f, h => by
    obtain ⟨hl, hts⟩ := h
    rw [write, onto, Fragment.render, hl.isVoid_eq]
    by_cases hv : voidElements.contains l.tagName = true
    · rw [if_pos hv, if_pos hv, toList_startTag]
      simp only [List.append_assoc, List.cons_append, List.nil_append]
    · have hi := writeAll_onto ts (some l) .done hts
      rw [show Fragment.done.render = [] from rfl, List.append_nil] at hi
      rw [if_neg hv, if_neg hv, if_neg hv, String.toList_append, String.toList_append,
        toList_startTag, toList_endTag, hi]
      simp only [List.append_assoc, List.cons_append, List.nil_append]

theorem writeAll_onto : ∀ (ts : List Tree) (parent : Option Label) (f : Fragment),
    LegibleAll parent ts → (writeAll parent ts).toList ++ f.render = (ontoAll ts f).render
  | [], _, _, _ => rfl
  | t :: ts, parent, f, h => by
    obtain ⟨ht, hts⟩ := h
    rw [writeAll, ontoAll, String.toList_append, List.append_assoc, writeAll_onto ts parent f hts]
    exact write_onto t parent _ ht

end

mutual

/-- **The normal form of a legible tree is normal.** -/
theorem normal_onto : ∀ (t : Tree) (parent : Option Label) (f : Fragment), t.Legible parent →
    f.Normal → (t.onto f).Normal
  | document ts, _, f, h, hf => by
    rw [onto]
    exact normal_ontoAll ts none f h hf
  | text s, _, f, _, hf => by
    rw [onto]
    exact hf.prependText s
  | element l ts, _, f, h, hf => by
    obtain ⟨hl, hts⟩ := h
    rw [onto]
    refine ⟨hl.name, fun a ha => ?_, fun hv => ?_, ?_, hf⟩
    · obtain ⟨b, hb, rfl⟩ := List.mem_map.mp ha
      exact hl.attributes b hb
    · rw [hl.isVoid_eq, if_pos hv]
    · by_cases hv : l.isVoid = true
      · rw [if_pos hv]
        trivial
      · rw [if_neg hv]
        exact normal_ontoAll ts (some l) .done hts trivial

theorem normal_ontoAll : ∀ (ts : List Tree) (parent : Option Label) (f : Fragment),
    LegibleAll parent ts → f.Normal → (ontoAll ts f).Normal
  | [], _, _, _, hf => hf
  | t :: ts, parent, f, h, hf => by
    obtain ⟨ht, hts⟩ := h
    rw [ontoAll]
    exact normal_onto t parent _ ht (normal_ontoAll ts parent f hts hf)

end

end Tree

namespace Document

variable {d d' : Document} {e : NodeId}

/-! ## 3. Legible nodes -/

/-- Text is not under a raw-text element, and an element outside HTML is not named like a void one. -/
def isLegible (d : Document) (x : NodeId) : Bool :=
  match d.content? x with
  | some (.text _) => !((d.parent? x).bind d.element?).any d.isRawText
  | some (.element el) => d.isHtml el || !voidElements.contains (d.tagName el)
  | _ => true

/-- The node and all below it are legible. -/
def Legible (d : Document) (e : NodeId) : Prop :=
  ∀ x, d.isInclusiveAncestor e x = true → d.isLegible x = true

theorem legible_iff_forall_lt : d.Legible e ↔ ∀ i, i < d.size →
    d.isInclusiveAncestor e (.ofNat i) = true → d.isLegible (.ofNat i) = true := by
  refine ⟨fun h i _ => h (.ofNat i), fun h x hx => ?_⟩
  have hc := contains_of_mem_path (isInclusiveAncestor_iff.mp hx)
  have hi := h x.index (contains_iff_lt.mp hc)
  rw [NodeId.ofNat_index] at hi
  exact hi hx

instance : Decidable (d.Legible e) := decidable_of_iff _ legible_iff_forall_lt.symm

/-- All names of the document are spelled. -/
structure Spelled (d : Document) : Prop where
  tag : ∀ x el, d.element? x = some el → Name.Spelled (d.tagName el)
  attributes : ∀ x el, d.element? x = some el →
    ∀ a ∈ el.attributes.toList, Name.Spelled (writtenName a)

/-- **What lies under a legible node of a document with spelled names is a legible tree.** -/
theorem legible_treeFrom (h : WellFormed d) (ht : Tabled d) (hs : Spelled d) (hl : d.Legible e)
    (n : Nat) (x : NodeId) (hx : e ∈ d.path x) : (d.treeFrom n x).Legible (d.parentLabel? x) := by
  induction n generalizing x with
  | zero => trivial
  | succ n ih =>
    have hlx := hl x (isInclusiveAncestor_iff.mpr hx)
    have hall : ∀ p, (d.element? x).map d.label = p →
        Tree.LegibleAll p ((d.children x).map (d.treeFrom n)) := by
      intro p hp
      refine Tree.legibleAll_iff.mpr fun t htm => ?_
      obtain ⟨c, hc, rfl⟩ := List.mem_map.mp htm
      have hi := ih c (h.mem_path_child hc hx)
      rw [h.parentLabel?_child hc, hp] at hi
      exact hi
    unfold treeFrom
    unfold isLegible at hlx
    cases hk : d.content? x with
    | none => trivial
    | some k =>
      rw [hk] at hlx
      cases k with
      | document => exact hall none (by rw [element?_eq_content?, hk]; rfl)
      | text s =>
        show (d.parentLabel? x).any Label.isRawText = false
        have hr : (fun el => (d.label el).isRawText) = d.isRawText :=
          funext fun el => ht.isRawText_label el
        rw [parentLabel?, Option.any_map, hr]
        exact Bool.not_eq_true' _ |>.mp hlx
      | element el =>
        have hel : d.element? x = some el := element?_eq_some_iff.mpr hk
        refine ⟨⟨hs.tag x el hel, hs.attributes x el hel, fun hv => ?_⟩, hall _ (by rw [hel]; rfl)⟩
        have hv' : voidElements.contains (d.tagName el) = true := hv
        rw [ht.isHtml_label]
        simp only [hv', Bool.not_true, Bool.or_false] at hlx
        exact hlx

/-! ## 4. Names after checked calls -/

/-- **After checked calls all names are spelled**, since they are valid. -/
theorem spelled_after {calls : List Action} (hc : ∀ a ∈ calls, a.isChecked = true)
    (hsize : (fresh.after calls).symbols.size ≤ UInt32.size) : Spelled (fresh.after calls) :=
  ⟨fun _ _ hel => Name.spelled_of_isValid ((tabled_after calls).isValid_tagName hsize hel),
    fun _ _ hel a ha =>
      Name.spelled_of_isValid ((checked_after hc hel).each a ha).isValid_writtenName⟩

/-! ## 5. One reading -/

/-- An element is read off its own markup as its normal form. -/
theorem render_normalForm (h : WellFormed d) (ht : Tabled d) (hs : Spelled d) (hl : d.Legible e)
    (he : d.contains e = true) :
    (d.outerHtml e).toList = (d.normalForm e).render ∧ (d.normalForm e).Normal := by
  have hlt := legible_treeFrom h ht hs hl d.size e (h.self_mem_path he)
  refine ⟨?_, Tree.normal_onto _ _ .done hlt trivial⟩
  have hw := Tree.write_onto _ _ .done hlt
  rw [show Fragment.done.render = [] from rfl, List.append_nil] at hw
  rw [outerHtml_eq h ht]
  exact hw

/-- **Two legible elements with the same markup have the same normal form**, in whichever documents that
    checked calls lead to, as long as the symbols fit the word. -/
theorem normalForm_eq_of_outerHtml_eq {calls calls' : List Action} {e' : NodeId}
    (hd : d = fresh.after calls) (hd' : d' = fresh.after calls')
    (hc : ∀ a ∈ calls, a.isChecked = true) (hc' : ∀ a ∈ calls', a.isChecked = true)
    (hsize : d.symbols.size ≤ UInt32.size) (hsize' : d'.symbols.size ≤ UInt32.size)
    (he : (d.element? e).isSome = true) (he' : (d'.element? e').isSome = true)
    (hl : d.Legible e) (hl' : d'.Legible e') (h : d.outerHtml e = d'.outerHtml e') :
    d.normalForm e = d'.normalForm e' := by
  have hcontains : ∀ {u : Document} {x : NodeId}, (u.element? x).isSome = true →
      u.contains x = true := by
    intro u x hx
    obtain ⟨el, hel⟩ := Option.isSome_iff_exists.mp hx
    exact contains_of_element? hel
  subst hd hd'
  obtain ⟨h1, h2⟩ := render_normalForm (wellFormed_after calls) (tabled_after calls)
    (spelled_after hc hsize) hl (hcontains he)
  obtain ⟨h3, h4⟩ := render_normalForm (wellFormed_after calls') (tabled_after calls')
    (spelled_after hc' hsize') hl' (hcontains he')
  exact h2.render_inj h4 (by rw [← h1, ← h3, h])

/-- A text in two parts, one of them like a tag, and the same text in one part behind an empty one. -/
theorem normalForm_eq_paragraph :
    let d := fresh.after [.createElement "p", .setAttribute ⟨1⟩ "id" "a\"b", .createText "1",
      .createText "<b>", .append ⟨1⟩ ⟨2⟩, .append ⟨1⟩ ⟨3⟩]
    let d' := fresh.after [.createText "1<b>", .createText "", .createElement "P", .append ⟨3⟩ ⟨2⟩,
      .append ⟨3⟩ ⟨1⟩, .setAttributeNs ⟨3⟩ none "id" "a\"b"]
    d.normalForm ⟨1⟩ = d'.normalForm ⟨3⟩ ∧
      d.normalForm ⟨1⟩ = .element "p" [("id", "a\"b")] (.text "1<b>" .done) .done :=
  ⟨normalForm_eq_of_outerHtml_eq rfl rfl (by decide) (by decide) (by decide +kernel)
    (by decide +kernel) (by decide +kernel) (by decide +kernel) (by decide +kernel)
    (by decide +kernel) (by decide +kernel), by decide +kernel⟩

end Document

end DomBuilder
