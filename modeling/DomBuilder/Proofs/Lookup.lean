import DomBuilder.Proofs.Identity
import DomBuilder.Proofs.Tree

/-!
# Attributes looked up by name

An attribute list is read and written by two keys, the qualified name and the identity. A name that is
looked for is cut at its first colon, the names that a list gives are prefixes and local names joined. This
file fixes what the two keys have in common and when the cut and the joining agree:

* `Attribute.soughtName?`: the one name that finds an attribute, if any does. So looking up by name is
  looking up by a key (`isNamed_eq`), as by identity;
* `write_spec`: one write by either key, what it gives back, what is read after it, and what it does to the
  list; `keys_afterWrites`: no number of writes moves or renames an attribute;
* `AttributeList.ColonFree`: no prefix has a colon. Then the name that finds an attribute is the one that
  it is listed under (`ColonFree.soughtName?_eq`). Checked calls keep to it (`colonFree_after`);
* `lookup_listed`: looking up by name finds what is listed, and an attribute of an element that was set is
  read back.
-/

namespace DomBuilder

/-! ## 1. The name that finds an attribute -/

namespace Attribute

/-- The name that finds the attribute. A prefix with a colon would be cut there, so that no name does. -/
def soughtName? (a : Attribute) : Option String :=
  match a.nsPrefix with
  | some p => if ':' ∈ p.toList then none else some a.qualifiedName
  | none => some a.qualifiedName

/-- A name that is cut at its first colon is the prefix and the local name around that colon. -/
theorem splitFirst_eq_iff {name p l : String} :
    Text.splitFirst ':' name = some (p, l) ↔ ':' ∉ p.toList ∧ p ++ ":" ++ l = name := by
  rw [Name.splitFirst_eq_some_iff, ← Name.toList_colon, String.toList_inj, eq_comm, and_comm]

/-- **Looking for a name is looking for the attribute that it finds.** -/
theorem isNamed_eq (name : String) : isNamed name = fun a => decide (a.soughtName? = some name) := by
  funext a
  unfold isNamed soughtName? qualifiedName
  cases a.nsPrefix with
  | none => simp
  | some p =>
    simp only
    rw [decide_eq_decide, splitFirst_eq_iff]
    by_cases hp : ':' ∈ p.toList
    · simp [hp]
    · simp [hp]

/-- What a write never changes of an attribute. -/
def key (a : Attribute) : Option String × Option String × String := (a.nsUri, a.nsPrefix, a.localName)

end Attribute

namespace AttributeList

variable {l l' : AttributeList} {a : Attribute} {found : Option Attribute}

/-! ## 2. Writes -/

/-- Reading by name after a write by name. -/
theorem get?_set (l : AttributeList) (name value n : String) :
    (l.set name value).2.get? n = if n = name then some value else l.get? n := by
  have hput : l.set name value =
      l.put (fun x => x.soughtName? = (Attribute.plain name value).soughtName?) (.plain name value) := by
    rw [set, Attribute.isNamed_eq]
    rfl
  have hname : (Attribute.plain name value).soughtName? = some name := rfl
  have hread := read_put Attribute.soughtName? (fun _ _ => rfl) l (.plain name value) (some n)
  rw [← hput, hname] at hread
  simp only [get?, find?, Attribute.isNamed_eq, hread, Option.some_inj]
  rfl

def keys (l : AttributeList) : List (Option String × Option String × String) :=
  l.toList.map Attribute.key

/-- A write moves and renames nothing. -/
theorem Stores.keys (h : Stores found a l l') : l.keys <+: l'.keys := by
  unfold AttributeList.keys
  cases found with
  | none =>
    have h : l'.toList = l.toList ++ [a] := h
    rw [h, List.map_append]
    exact List.prefix_append _ _
  | some b =>
    obtain ⟨s, t, hl, _, hl'⟩ := h
    rw [hl, hl', List.map_append, List.map_append]
    exact List.prefix_rfl

theorem keys_write (l : AttributeList) (w : AttributeWrite) : l.keys <+: (l.write w).keys := by
  cases w with
  | set name value => exact (stores_put l _ _).keys
  | setNs a => exact (stores_put l _ _).keys

/-- **However often a list is written to, each attribute keeps its place, namespace, prefix and local
    name.** -/
theorem keys_afterWrites (l : AttributeList) (writes : List AttributeWrite) :
    l.keys <+: (l.afterWrites writes).keys := by
  induction writes generalizing l with
  | nil => exact List.prefix_rfl
  | cons w writes ih => exact (keys_write l w).trans (ih (l.write w))

/-- **What one write does to a list, whatever was written to it before.** A write by name and one by
    identity both give back the value that was read by the same key, which then reads as the new value,
    while every other key of that kind reads as before. The attribute that was found takes the value in its
    place, or, where none was found, the new one comes to the end. So no number of writes moves or renames
    an attribute. -/
theorem write_spec (l : AttributeList) :
    (∀ name value,
      (l.set name value).1 = l.get? name ∧
      (∀ n, (l.set name value).2.get? n = if n = name then some value else l.get? n) ∧
      Stores (l.find? name) (.plain name value) l (l.set name value).2) ∧
    (∀ a : Attribute,
      (l.setNs a).1 = l.getNs? a.nsUri a.localName ∧
      (∀ nsUri localName, (l.setNs a).2.getNs? nsUri localName =
        if (nsUri, localName) = (a.nsUri, a.localName) then some a.value else l.getNs? nsUri localName) ∧
      Stores (l.findNs? a.nsUri a.localName) a l (l.setNs a).2) ∧
    ∀ writes : List AttributeWrite, l.keys <+: (l.afterWrites writes).keys :=
  ⟨fun name value => ⟨put_fst .., get?_set l name value, stores_put ..⟩,
    fun a => ⟨put_fst .., fun u n => getNs?_setNs l a (u, n), stores_put ..⟩, keys_afterWrites l⟩

/-- A prefix without a namespace, and the same name set plainly: the name finds the first of the two, the
    identity of no namespace the second. -/
example :
    let writes : List AttributeWrite :=
      [.setNs ⟨none, some "p", "x", "1"⟩, .set "p:x" "2", .setNs ⟨none, none, "p:x", "3"⟩]
    let l := empty.afterWrites writes
    l.toList = [⟨none, some "p", "x", "2"⟩, ⟨none, none, "p:x", "3"⟩] ∧ l.get? "p:x" = some "2" ∧
      l.getNs? none "p:x" = some "3" := by
  decide +kernel

/-! ## 3. Names as they are listed -/

/-- No prefix has a colon. -/
def ColonFree (l : AttributeList) : Prop := ∀ a ∈ l.toList, ∀ p, a.nsPrefix = some p → ':' ∉ p.toList

/-- Without a colon in its prefix, an attribute is found by the name that it is listed under. -/
theorem ColonFree.soughtName?_eq (h : l.ColonFree) (ha : a ∈ l.toList) :
    a.soughtName? = some a.qualifiedName := by
  unfold Attribute.soughtName?
  cases hp : a.nsPrefix with
  | none => rfl
  | some p => exact if_neg (h a ha p hp)

/-- **A name finds the first attribute that is listed under it.** -/
theorem ColonFree.find?_eq (h : l.ColonFree) (name : String) :
    l.find? name = l.toList.find? fun a => a.qualifiedName = name := by
  rw [find?, Attribute.isNamed_eq]
  refine List.find?_congr fun a ha => ?_
  rw [h.soughtName?_eq ha, decide_eq_decide, Option.some_inj]

theorem ColonFree.contains_iff (h : l.ColonFree) (name : String) :
    l.contains name = true ↔ name ∈ l.names := by
  rw [contains, h.find?_eq, List.find?_isSome, names, List.mem_map]
  simp only [decide_eq_true_eq]

end AttributeList

namespace Document

/-! ## 4. Elements -/

variable {d d' : Document} {id : NodeId}

theorem attributes?_putAttributes {e : Element} (he : d.element? id = some e) (l : AttributeList)
    (x : NodeId) :
    (d.putAttributes id e l).attributes? x = if x = id then some l else d.attributes? x := by
  simp only [attributes?, element?_eq_content?, putAttributes_eq, content?_rewritten]
  by_cases hx : x = id
  · rw [if_pos hx, if_pos hx, hx, element?_eq_some_iff.mp he]
    rfl
  · rw [if_neg hx, if_neg hx]

/-- A write by name that succeeds has put the attribute into the list of its element. -/
theorem run_setAttribute_eq_ok {name value : String}
    (h : (setAttribute id name value).run d = (.ok (), d')) : ∃ e, d.element? id = some e ∧
      d' = d.putAttributes id e (e.attributes.set (d.attributeName e name) value).2 := by
  rw [run_setAttribute] at h
  cases hn : Name.check name with
  | error err => rw [hn] at h; cases h
  | ok u =>
    cases he : d.elementOf id with
    | error err => rw [hn, he] at h; cases h
    | ok e =>
      rw [hn, he] at h
      cases h
      exact ⟨e, elementOf_eq_ok_iff.mp he, rfl⟩

/-- **After checked calls no prefix of an element's attributes has a colon.** -/
theorem colonFree_after {calls : List Action} (hc : ∀ a ∈ calls, a.isChecked = true) {l : AttributeList}
    (hl : (fresh.after calls).attributes? id = some l) : l.ColonFree := by
  obtain ⟨e, he, rfl⟩ := Option.map_eq_some_iff.mp hl
  exact fun a ha p hp => (((checked_after hc he).each a ha).sound.nsPrefix p hp).2

/-- **Where no prefix has a colon, a name finds the first attribute that is listed under it, and so is found
    exactly if it is listed. The elements of every document that checked calls lead to are such.** An
    attribute that was set on one of them by name is read back by that name, in lowercase on an element of
    HTML. Every other name of the element reads as before, and no other element has other attributes. -/
theorem lookup_listed :
    (∀ l : AttributeList, l.ColonFree → ∀ name,
      l.find? name = l.toList.find? (fun a => a.qualifiedName = name) ∧
      (l.contains name = true ↔ name ∈ l.names) ∧
      (name ∈ l.names → ∃ a ∈ l.toList, l.find? name = some a ∧ a.qualifiedName = name)) ∧
    ∀ calls : List Action, (∀ a ∈ calls, a.isChecked = true) →
      let d := fresh.after calls
      (∀ id l, d.attributes? id = some l → l.ColonFree) ∧
      ∀ id name value d', (setAttribute id name value).run d = (.ok (), d') →
        let written := if d.nsUri? id = some Namespace.html then name.toLower else name
        (∀ n, d'.getAttribute id n = if n = written then some value else d.getAttribute id n) ∧
        ∀ x, x ≠ id → d'.attributes? x = d.attributes? x := by
  refine ⟨fun l hl name => ⟨hl.find?_eq name, hl.contains_iff name, fun hn => ?_⟩, fun calls hc => ?_⟩
  · obtain ⟨a, ha⟩ := Option.isSome_iff_exists.mp ((hl.contains_iff name).mpr hn)
    have hfind := hl.find?_eq name ▸ ha
    have hlisted := List.find?_some hfind
    exact ⟨a, List.mem_of_find?_eq_some hfind, ha, of_decide_eq_true hlisted⟩
  · intro d
    refine ⟨fun id l hl => colonFree_after hc hl, fun id name value d' hrun => ?_⟩
    obtain ⟨e, he, rfl⟩ := run_setAttribute_eq_ok hrun
    have hname : d.attributeName e name =
        if d.nsUri? id = some Namespace.html then name.toLower else name := by
      rw [attributeName, (tabled_after calls).isHtml_iff_nsUri? he]
      simp only [decide_eq_true_eq]
      rfl
    refine ⟨fun n => ?_, fun x hx => by rw [attributes?_putAttributes he, if_neg hx]⟩
    have hold : d.attributes? id = some e.attributes := by rw [attributes?, he, Option.map_some]
    simp only [getAttribute, attributes?_putAttributes he, hold, if_true, Option.bind_some, hname,
      AttributeList.get?_set]

/-- A link of a prefix, the same name set plainly, and capitals on an element of HTML and on one of no
    namespace. -/
theorem lookup_listed_link :
    let calls : List Action := [.createElement "a", .createElementNs none "b",
      .setAttributeNs ⟨1⟩ (some Namespace.xlink) "xlink:href" "/b", .setAttribute ⟨2⟩ "Title" "t"]
    let l : AttributeList := ⟨[⟨some Namespace.xlink, some "xlink", "href", "/b"⟩]⟩
    let d := fresh.after calls
    let d' := ((setAttribute ⟨1⟩ "XLINK:Href" "/c").run d).2
    d.attributes? ⟨1⟩ = some l ∧ l.ColonFree ∧
      (l.contains "xlink:href" = true ↔ "xlink:href" ∈ l.names) ∧
      d'.getAttribute ⟨1⟩ "xlink:href" = some "/c" ∧ d'.attributes? ⟨2⟩ = d.attributes? ⟨2⟩ := by
  intro calls l d d'
  have hl : d.attributes? ⟨1⟩ = some l := by decide +kernel
  obtain ⟨hlist, hdoc⟩ := lookup_listed
  obtain ⟨hfree, hset⟩ := hdoc calls (by decide)
  have hrun : (setAttribute ⟨1⟩ "XLINK:Href" "/c").run d = (.ok (), d') := Prod.ext (by decide +kernel) rfl
  obtain ⟨hread, hother⟩ := hset _ _ _ _ hrun
  have hlink := hfree ⟨1⟩ l hl
  exact ⟨hl, hlink, (hlist l hlink "xlink:href").2.1, (hread "xlink:href").trans (by decide +kernel),
    hother ⟨2⟩ (by decide)⟩

end Document

end DomBuilder
