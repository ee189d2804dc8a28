import DomBuilder.Proofs.GivenName
import DomBuilder.Proofs.Identity

/-!
# Names in markup

A name is checked, taken apart, put into lowercase, kept as symbols, and put together again with a prefix
that may be another one. This file fixes that it is a valid name each time it is put together:

* `joinName_of_extract`: the parts of a name give the name;
* `Tabled.tagName_eq`: an element reads as the name it was given, which is valid (`isValid_of_naming`);
* `writtenName_cases`: an attribute is written as its qualified name, as `xmlns`, or behind one of three
  prefixes. So what was checked is written under a valid name (`Checked.isValid_writtenName`);
* `exists_outerHtml_eq`: the markup of an element starts with its start tag;
* `names_after`: after checked calls every name in markup is valid, and an element made in the HTML
  namespace from a name alone is written without capitals.
-/

namespace DomBuilder

open Markup

/-! ## 1. Parts of names -/

theorem joinName_of_splitName {name l : String} {p : Option String}
    (h : Name.splitName name = .ok (p, l)) : joinName p l = name := by
  rcases Name.splitName_cases h with ⟨rfl, rfl, _⟩ | ⟨q, rfl, he, _⟩
  · rfl
  · exact String.toList_injective ((Name.toList_colon q l).trans he.symm)

/-- What was taken apart goes together again. -/
theorem joinName_of_extract {nsUri : Option String} {name : String} {q : QualifiedName}
    (h : QualifiedName.extract nsUri name = .ok q) : joinName q.nsPrefix q.localName = name :=
  joinName_of_splitName (QualifiedName.extract_eq_ok_iff.mp h).2.1

/-! ## 2. Elements -/

/-- The names that elements get are valid. -/
theorem isValid_of_naming {q : QualifiedName} (h : Naming q) :
    Name.isValid (joinName q.nsPrefix q.localName) = true := by
  cases h with
  | html hv => exact (Name.isValid_toLower hv).1
  | extracted hq =>
    rw [joinName_of_extract hq]
    exact (QualifiedName.extract_eq_ok_iff.mp hq).1

namespace Document

variable {d : Document}

/-- While the symbols fit the word, the tags of an element show the name it was given. -/
theorem Tabled.tagName_eq (h : Tabled d) (hsize : d.symbols.size ≤ UInt32.size) {el : Element}
    {q : QualifiedName} (hn : el.Named d.symbols q) :
    d.tagName el = joinName q.nsPrefix q.localName := by
  show joinName (d.readName el).nsPrefix (d.readName el).localName = _
  rw [h.readName_eq hsize hn]

theorem Tabled.isValid_tagName (h : Tabled d) (hsize : d.symbols.size ≤ UInt32.size) {x : NodeId}
    {el : Element} (hel : d.element? x = some el) : Name.isValid (d.tagName el) = true := by
  obtain ⟨q, hq, hn⟩ := h.named x el hel
  rw [h.tagName_eq hsize hn]
  exact isValid_of_naming hq

/-- The markup of an element starts with its start tag. -/
theorem exists_outerHtml_eq {x : NodeId} {el : Element} (hel : d.element? x = some el) :
    ∃ rest, d.outerHtml x = startTag (d.tagName el) el.attributes ++ rest := by
  have hlt := contains_iff_lt.mp (contains_of_element? hel)
  obtain ⟨n, hn⟩ : ∃ n, d.size = n + 1 := ⟨d.size - 1, by omega⟩
  obtain ⟨node, hg, hc⟩ := Option.map_eq_some_iff.mp (element?_eq_some_iff.mp hel)
  rw [outerHtml, hn, writeNode, hg]
  simp only [hc]
  by_cases hv : d.isVoid el = true
  · rw [if_pos hv]
    exact ⟨"", (String.append_empty).symm⟩
  · rw [if_neg hv, String.append_assoc]
    exact ⟨_, rfl⟩

end Document

/-! ## 3. Attributes -/

namespace Attribute

variable {a : Attribute}

theorem qualifiedName_eq (a : Attribute) : a.qualifiedName = joinName a.nsPrefix a.localName := by
  unfold qualifiedName
  cases a.nsPrefix <;> rfl

/-- **The names that an attribute may be written under.** -/
theorem writtenName_cases (h : a.isBound = true) : writtenName a = a.qualifiedName ∨
    writtenName a = "xmlns" ∨
    ∃ p ∈ ["xml", "xlink", "xmlns"], writtenName a = joinName (some p) a.localName := by
  unfold writtenName writtenPrefix
  cases hu : a.nsUri with
  | none =>
    left
    rw [qualifiedName_eq, isBound_iff.mp h hu]
  | some uri =>
    by_cases hx : uri = Namespace.xml
    · exact .inr (.inr ⟨"xml", by decide, by simp only [if_pos hx]⟩)
    by_cases hl : uri = Namespace.xlink
    · exact .inr (.inr ⟨"xlink", by decide, by simp only [if_neg hx, if_pos hl]⟩)
    by_cases hn : uri = Namespace.xmlns
    · by_cases he : a.localName = "xmlns"
      · refine .inr (.inl ?_)
        simp only [if_neg hx, if_neg hl, if_pos hn, if_pos he]
        exact he
      · exact .inr (.inr ⟨"xmlns", by decide, by simp only [if_neg hx, if_neg hl, if_pos hn, if_neg he]⟩)
    · left
      simp only [if_neg hx, if_neg hl, if_neg hn]
      exact (qualifiedName_eq a).symm

theorem Checked.isValid_qualifiedName (h : a.Checked) : Name.isValid a.qualifiedName = true := by
  cases h with
  | plain hn _ => exact hn
  | extracted hq _ =>
    rw [qualifiedName_eq]
    exact (joinName_of_extract hq).symm ▸ (QualifiedName.extract_eq_ok_iff.mp hq).1

theorem Checked.isValid_localName (h : a.Checked) : Name.isValid a.localName = true := by
  cases h with
  | plain hn _ => exact hn
  | extracted hq _ =>
    obtain ⟨hv, hs, _, _⟩ := QualifiedName.extract_eq_ok_iff.mp hq
    exact Name.isValid_of_splitName hv hs

/-- **What was checked is written under a valid name.** -/
theorem Checked.isValid_writtenName (h : a.Checked) : Name.isValid (writtenName a) = true := by
  have hp : ∀ p ∈ ["xml", "xlink", "xmlns"], Name.isValid p = true := by decide
  rcases writtenName_cases h.sound.isBound with hw | hw | ⟨p, hm, hw⟩
  · rw [hw]
    exact h.isValid_qualifiedName
  · rw [hw]
    exact hp "xmlns" (by decide)
  · rw [hw]
    exact Name.isValid_colon (hp p hm) h.isValid_localName

end Attribute

/-! ## 4. Names after checked calls -/

namespace Document

/-- **After checked calls every name in markup is valid**, as long as the symbols fit the word: the name in
    the tags of an element, the qualified names of its attributes, and the names that these are written
    under. What a call made in the HTML namespace from a name alone stays an element and is written
    without capitals. -/
theorem names_after {calls : List Action} (hc : ∀ a ∈ calls, a.isChecked = true)
    (hsize : (fresh.after calls).symbols.size ≤ UInt32.size) :
    let d := fresh.after calls
    (∀ x el, d.element? x = some el →
      (∃ rest, d.outerHtml x = startTag (d.tagName el) el.attributes ++ rest) ∧
      Name.isValid (d.tagName el) = true ∧
      ∀ a ∈ el.attributes.toList,
        Name.isValid a.qualifiedName = true ∧ Name.isValid (writtenName a) = true) ∧
    ∀ earlier a later x, calls = earlier ++ a :: later → a.createsHtml = true →
      (fresh.after earlier).contains x = false →
      ((a.apply (fresh.after earlier)).element? x).isSome = true →
      ∃ el, d.element? x = some el ∧ ∀ c ∈ (d.tagName el).toList, c.isUpper = false := by
  intro d
  have ht : Tabled d := tabled_after calls
  refine ⟨fun x el hel => ⟨exists_outerHtml_eq hel, ht.isValid_tagName hsize hel, fun a ha => ?_⟩,
    fun earlier a later x he hcr hx hmade => ?_⟩
  · have hchecked := (checked_after hc hel).each a ha
    exact ⟨hchecked.isValid_qualifiedName, hchecked.isValid_writtenName⟩
  · obtain ⟨e, hel⟩ := Option.isSome_iff_exists.mp hmade
    obtain ⟨name, hv, hn⟩ := named_of_createsHtml hcr hx hel
    have hd : d = (a.apply (fresh.after earlier)).after later := by
      simp only [d, he, after, List.foldl_append, List.foldl_cons]
    have hsteps : Edits True (a.apply (fresh.after earlier)) d := hd ▸ edits_after_raw later _
    obtain ⟨el, hel', hn'⟩ := named_edits hsteps hel hn
    refine ⟨el, hel', ?_⟩
    rw [ht.tagName_eq hsize hn']
    exact (Name.isValid_toLower hv).2

/-- Capitals that go and capitals that stay, a colon that divides a name and one that does not, and a
    prefix that is written as another. -/
theorem names_after_xlink :
    let calls : List Action := [.createElement "DIV", .createElementNs (some Namespace.svg) "svg:G",
      .setAttribute ⟨1⟩ "a:B" "1", .setAttributeNs ⟨2⟩ (some Namespace.xlink) "x:Href" "#"]
    let d := fresh.after calls
    d.outerHtml ⟨1⟩ = "<div a:b=\"1\"></div>" ∧
      d.outerHtml ⟨2⟩ = "<svg:G xlink:Href=\"#\"></svg:G>" ∧
      (∀ x el, d.element? x = some el → Name.isValid (d.tagName el) = true ∧
        ∀ a ∈ el.attributes.toList, Name.isValid (writtenName a) = true) ∧
      ∃ el, d.element? ⟨1⟩ = some el ∧ ∀ c ∈ (d.tagName el).toList, c.isUpper = false := by
  intro calls d
  have hc : ∀ a ∈ calls, a.isChecked = true := by decide
  have hsize : d.symbols.size ≤ UInt32.size := by decide +kernel
  obtain ⟨hnames, hmade⟩ := names_after hc hsize
  refine ⟨by decide +kernel, by decide +kernel, fun x el hel => ?_, ?_⟩
  · obtain ⟨_, hv, ha⟩ := hnames x el hel
    exact ⟨hv, fun a ham => (ha a ham).2⟩
  · exact hmade [] (.createElement "DIV") calls.tail ⟨1⟩ rfl rfl (by decide +kernel) (by decide +kernel)

end Document

end DomBuilder
