import DomBuilder.Proofs.Attributes
import DomBuilder.Proofs.Qualified
import DomBuilder.Proofs.Reachable

/-!
# Attributes that were checked

A write by name looks for a qualified name, a write by identity for a namespace and a local name. That the
two never leave one identity twice rests on one more fact: a prefix comes with a namespace. This file
fixes:

* `AttributeWrite`, `AttributeList.write`: one write of either kind; `AttributeList.afterWrites`: a list
  of them;
* `AttributeList.Distinct`: no identity twice, and no prefix without a namespace. Every write keeps it
  that brings no prefix without a namespace in (`Distinct.write`);
* `Attribute.Checked`: what checked writes bring in, a valid name or a name taken apart for its namespace.
  Whatever holds of these and does not look at the value holds of every attribute (`forall_write`);
* `checked_after`: after checked calls the attributes of each element are distinct and checked;
* `identified_after`: so they are told apart by namespace and local name, and their prefixes and
  namespaces are sound.
-/

namespace DomBuilder

/-! ## 1. Attributes -/

namespace Attribute

/-- A prefix comes with a namespace. -/
def isBound (a : Attribute) : Bool := a.nsPrefix.isNone || a.nsUri.isSome

theorem isBound_iff {a : Attribute} : a.isBound = true ↔ (a.nsUri = none → a.nsPrefix = none) := by
  unfold isBound
  cases a.nsUri <;> simp

/-- Without a namespace there is no prefix, so that the qualified name is the local name. -/
theorem isNamed_of_isBound {a : Attribute} (h : a.isBound = true) {name : String}
    (hi : a.identity = (none, name)) : a.isNamed name = true := by
  obtain ⟨hu, hl⟩ := Prod.mk.inj hi
  have hn := isNamed_of_no_prefix (isBound_iff.mp h hu) name
  rw [hn, hl]
  exact decide_eq_true rfl

/-- The attributes that checked writes bring in: a valid name without a namespace, or a name taken apart
    for its namespace. -/
inductive Checked : Attribute → Prop where
  | plain {name : String} (h : Name.isValid name = true) (value : String) :
      Checked (.plain name value)
  | extracted {nsUri : Option String} {name : String} {q : QualifiedName}
      (h : QualifiedName.extract nsUri name = .ok q) (value : String) :
      Checked { nsUri := q.nsUri, nsPrefix := q.nsPrefix, localName := q.localName, value }

/-- The check does not look at the value. -/
theorem Checked.withValue {a : Attribute} (h : a.Checked) (v : String) :
    ({ a with value := v } : Attribute).Checked := by
  cases h with
  | plain hn _ => exact .plain hn v
  | extracted hq _ => exact .extracted hq v

/-- Prefix and namespace are sound: a prefix has a namespace, is not empty and has no colon, and no
    namespace is the empty text. -/
structure Sound (a : Attribute) : Prop where
  bound : ∀ p, a.nsPrefix = some p → ∃ uri, a.nsUri = some uri ∧ uri ≠ ""
  nsPrefix : ∀ p, a.nsPrefix = some p → p ≠ "" ∧ ':' ∉ p.toList
  nsUri : a.nsUri ≠ some ""

/-- **What was checked is sound.** -/
theorem Checked.sound {a : Attribute} (h : a.Checked) : a.Sound := by
  cases h with
  | plain _ _ => exact ⟨fun _ hp => (by cases hp), fun _ hp => (by cases hp), fun hu => (by cases hu)⟩
  | @extracted _ name q hq _ =>
    obtain ⟨_, hs, hu, hf⟩ := QualifiedName.extract_eq_ok_iff.mp hq
    have hne : q.nsUri ≠ some "" := by
      intro he
      rw [hu] at he
      simpa using (Option.filter_eq_some_iff.mp he).2
    have hfits := Name.namespaceFault?_eq_none_iff.mp hf
    refine ⟨fun p hp => ?_, fun p hp => ?_, hne⟩
    · obtain ⟨uri, hn⟩ := Option.isSome_iff_exists.mp (hfits.bound (Option.isSome_of_eq_some hp))
      exact ⟨uri, hn, fun he => hne (by rw [hn, he])⟩
    · rcases Name.splitName_cases hs with ⟨hn, _, _⟩ | ⟨r, hr, _, hr0, hc, _, _⟩
      · rw [show q.nsPrefix = some p from hp] at hn
        cases hn
      · rw [show q.nsPrefix = some p from hp] at hr
        cases hr
        exact ⟨hr0, hc⟩

theorem Sound.isBound {a : Attribute} (h : a.Sound) : a.isBound = true := by
  refine isBound_iff.mpr fun hu => ?_
  cases hp : a.nsPrefix with
  | none => rfl
  | some p =>
    obtain ⟨uri, hn, _⟩ := h.bound p hp
    rw [hu] at hn
    cases hn

end Attribute

/-! ## 2. Writes -/

/-- One write to an attribute list, by qualified name or by identity. -/
inductive AttributeWrite where
  | set (name value : String)
  | setNs (a : Attribute)

namespace AttributeWrite

/-- The attribute that the write appends where it finds none. -/
def appended : AttributeWrite → Attribute
  | set name value => .plain name value
  | setNs a => a

end AttributeWrite

namespace AttributeList

variable {l : AttributeList} {w : AttributeWrite}

/-- The list after one write. -/
def write (l : AttributeList) : AttributeWrite → AttributeList
  | .set name value => (l.set name value).2
  | .setNs a => (l.setNs a).2

/-- The list after the writes, in order. -/
def afterWrites (l : AttributeList) (writes : List AttributeWrite) : AttributeList :=
  writes.foldl write l

/-- **What does not look at the value holds of all attributes if it holds of those written.** -/
theorem forall_write {P : Attribute → Prop} (hP : ∀ a v, P a → P { a with value := v })
    (hl : ∀ a ∈ l.toList, P a) (hw : P w.appended) : ∀ a ∈ (l.write w).toList, P a := by
  have hput : ∀ p, ∀ a ∈ (l.put p w.appended).2.toList, P a := by
    intro p a ha
    rcases mem_put ha with ⟨b, hb, hpre, hid⟩ | rfl
    · obtain ⟨hu, hn⟩ := Prod.mk.inj hid
      have he : a = { b with value := a.value } := by
        cases a
        cases b
        cases hpre
        cases hu
        cases hn
        rfl
      rw [he]
      exact hP b _ (hl b hb)
    · exact hw
  cases w with
  | set name value => exact hput _
  | setNs a => exact hput _

/-- No two attributes have one identity, and a prefix comes with a namespace. -/
structure Distinct (l : AttributeList) : Prop where
  nodup : l.identities.Nodup
  bound : ∀ a ∈ l.toList, a.isBound = true

theorem distinct_empty : empty.Distinct := ⟨List.nodup_nil, fun _ h => absurd h List.not_mem_nil⟩

/-- A write replaces a value or adds an identity that is new. -/
theorem Distinct.nodup_write (h : l.Distinct) (w : AttributeWrite) : (l.write w).identities.Nodup := by
  have hadd : ∀ {i : Option String × String}, i ∉ l.identities → (l.identities ++ [i]).Nodup :=
    fun hi => List.nodup_append.mpr ⟨h.nodup, List.nodup_singleton _, fun x hx y hy => by
      rw [List.mem_singleton.mp hy]
      exact fun e => hi (e ▸ hx)⟩
  cases w with
  | setNs a =>
    show (l.setNs a).2.identities.Nodup
    rw [identities_setNs]
    split
    · exact h.nodup
    · exact hadd ‹_›
  | set name value =>
    show ((l.put (Attribute.isNamed name) (.plain name value)).2.toList.map Attribute.identity).Nodup
    rcases put_cases l (Attribute.isNamed name) (.plain name value) with
      ⟨s, b, t, hl, _, _, he⟩ | ⟨hno, he⟩
    · have hn := h.nodup
      rw [identities, hl, List.map_append] at hn
      rw [he, List.map_append]
      exact hn
    · rw [he, List.map_append]
      refine hadd fun hm => ?_
      -- an attribute of this identity has no prefix, so it would have been found by its name
      obtain ⟨x, hx, hi⟩ := List.mem_map.mp hm
      have hx' : x.isNamed name = true := Attribute.isNamed_of_isBound (h.bound x hx) hi
      rw [hno x hx] at hx'
      cases hx'

/-- **A write keeps identities apart unless it brings in a prefix without a namespace.** -/
theorem Distinct.write (h : l.Distinct) (hw : w.appended.isBound = true) : (l.write w).Distinct :=
  ⟨h.nodup_write w,
    forall_write (P := fun a => a.isBound = true) (fun _ _ ha => ha) h.bound hw⟩

theorem Distinct.afterWrites {writes : List AttributeWrite} (h : l.Distinct)
    (hw : ∀ w ∈ writes, w.appended.isBound = true) : (l.afterWrites writes).Distinct := by
  induction writes generalizing l with
  | nil => exact h
  | cons w writes ih =>
    exact ih (h.write (hw w List.mem_cons_self)) fun x hx => hw x (List.mem_cons_of_mem _ hx)

/-- Distinct attributes, each of them checked. -/
structure Checked (l : AttributeList) : Prop where
  distinct : l.Distinct
  each : ∀ a ∈ l.toList, a.Checked

theorem Checked.write (h : l.Checked) (hw : w.appended.Checked) : (l.write w).Checked :=
  ⟨h.distinct.write hw.sound.isBound, forall_write (fun _ v ha => ha.withValue v) h.each hw⟩

end AttributeList

/-! ## 3. Elements -/

namespace Document

/-- A checked write to an element brings a checked attribute in. -/
theorem Written.exists_write {l l' : AttributeList} (h : Written False l l') :
    ∃ w : AttributeWrite, w.appended.Checked ∧ l' = l.write w := by
  cases h with
  | @plain name hn value => exact ⟨.set name value, .plain hn value, rfl⟩
  | @lower name hn value => exact ⟨.set name.toLower value, .plain (Name.isValid_toLower hn).1 value, rfl⟩
  | extracted hq value => exact ⟨.setNs _, .extracted hq value, rfl⟩
  | raw hraw _ => exact hraw.elim

theorem elementLaw_checked : ElementLaw False fun _ e => e.attributes.Checked where
  grown := fun _ _ _ _ h => h
  new := fun _ _ _ _ _ hl => by
    rw [hl]
    exact ⟨AttributeList.distinct_empty, fun _ h => absurd h List.not_mem_nil⟩
  written := fun _ e l hl h => by
    obtain ⟨w, hw, he⟩ := hl.exists_write
    show l.Checked
    rw [he]
    exact h.write hw

/-- **After checked calls the attributes of every element are distinct and checked.** -/
theorem checked_after {calls : List Action} (hc : ∀ a ∈ calls, a.isChecked = true) {id : NodeId}
    {e : Element} (he : (fresh.after calls).element? id = some e) : e.attributes.Checked := by
  have hs : Edits False fresh (fresh.after calls) := edits_after (fun a ha => .inl (hc a ha)) fresh
  refine keeps_edits (P := fun u => ∀ id e, u.element? id = some e → e.attributes.Checked)
    (fun _ _ hd hu => elementLaw_checked.edit hd hu) hs (fun id e hf => ?_) id e he
  rw [element?_fresh] at hf
  cases hf

/-! ## 4. One attribute for each identity -/

/-- **After checked calls no element has two attributes of one namespace and local name, and prefixes and
    namespaces are sound.** The same distinctness holds of a list on its own after any writes of which
    none brings in a prefix without a namespace. -/
theorem identified_after {calls : List Action} {writes : List AttributeWrite}
    (hc : ∀ a ∈ calls, a.isChecked = true) (hw : ∀ w ∈ writes, w.appended.isBound = true) :
    (∀ id l, (fresh.after calls).attributes? id = some l →
      l.identities.Nodup ∧ ∀ a ∈ l.toList, a.Sound) ∧
    (AttributeList.empty.afterWrites writes).identities.Nodup := by
  refine ⟨fun id l hl => ?_, (AttributeList.distinct_empty.afterWrites hw).nodup⟩
  obtain ⟨e, he, rfl⟩ := Option.map_eq_some_iff.mp hl
  have h := checked_after hc he
  exact ⟨h.distinct.nodup, fun a ha => (h.each a ha).sound⟩

/-- Names with and without a namespace side by side, on an element and on a list of its own. -/
theorem identified_after_link :
    let calls : List Action := [.createElement "a",
      .setAttributeNs ⟨1⟩ (some Namespace.xlink) "xlink:href" "/b",
      .setAttribute ⟨1⟩ "HREF" "/a", .setAttribute ⟨1⟩ "xlink:href" "/c"]
    let l : AttributeList := ⟨[⟨some Namespace.xlink, some "xlink", "href", "/c"⟩,
      ⟨none, none, "href", "/a"⟩]⟩
    let writes : List AttributeWrite := [.set "p:x" "1", .setNs ⟨some "u", some "p", "x", "2"⟩,
      .set "x" "3", .set "p:x" "4"]
    (fresh.after calls).attributes? ⟨1⟩ = some l ∧ l.identities.Nodup ∧ (∀ a ∈ l.toList, a.Sound) ∧
      (AttributeList.empty.afterWrites writes).names = ["p:x", "p:x", "x"] ∧
      (AttributeList.empty.afterWrites writes).identities.Nodup := by
  intro calls l writes
  have hc : ∀ a ∈ calls, a.isChecked = true := by decide
  have hw : ∀ w ∈ writes, w.appended.isBound = true := by decide
  have hl : (fresh.after calls).attributes? ⟨1⟩ = some l := by decide +kernel
  obtain ⟨hd, hn⟩ := identified_after hc hw
  exact ⟨hl, (hd _ l hl).1, (hd _ l hl).2, by decide +kernel, hn⟩

end Document

end DomBuilder
