import DomBuilder.Proofs.Lasting
import DomBuilder.Proofs.Tree
import Mathlib.Data.List.Induction

/-!
# The name that an element was given

An element is given its name once, by the call that makes it, and keeps it as symbols. This file fixes
that the symbols read as that name for good:

* `Action.givenName?`: the name that a call gives a new element, if it makes one;
* `Made q d d'`: of the elements of `d'` only the one behind all nodes of `d` is new, and it is named `q`.
  Every call makes the element of its name (`made_apply`), or none (`noneMade_apply`);
* `exists_giver`: every element of a run was made by one of its calls, by induction on the run from its
  end;
* `named_of_createsHtml`: what a call makes in the HTML namespace from a name alone has the lowercase of a
  valid name;
* `names_last`: no later call changes what kind a node is, or what the name of an element reads as.
-/

namespace DomBuilder

/-! ## 1. Calls that make an element -/

theorem toOption_eq_some_iff {ε α : Type} {r : Except ε α} {a : α} :
    r.toOption = some a ↔ r = .ok a := by
  cases r <;> simp [Except.toOption]

theorem exists_of_toOption_eq_none {ε α : Type} {r : Except ε α} (h : r.toOption = none) :
    ∃ e, r = .error e := by
  cases r with
  | error e => exact ⟨e, rfl⟩
  | ok a => cases h

namespace Action

/-- The name that the call gives a new element, if it makes one. -/
def givenName? : Action → Option QualifiedName
  | createElement name => (QualifiedName.forHtml name).toOption
  | createElementNs nsUri name => (QualifiedName.extract nsUri name).toOption
  | build config tag _ => (QualifiedName.ofTag config tag).toOption
  | _ => none

/-- The new element that the call gives back. -/
def result? (d : Document) : Action → Option NodeId
  | createElement name => ((Document.createElement name).run d).1.toOption
  | createElementNs nsUri name => ((Document.createElementNs nsUri name).run d).1.toOption
  | build config tag content => ((Builder.mk d config false).build tag content).result.toOption
  | _ => none

/-- The call makes its element, if any, in the HTML namespace from a name alone. -/
def createsHtml : Action → Bool
  | createElement _ => true
  | build config _ _ => config.elementNamespace.isNone
  | _ => false

theorem givenName?_of_createsHtml {a : Action} {q : QualifiedName} (ha : a.createsHtml = true)
    (hq : a.givenName? = some q) : ∃ name, Name.isValid name = true ∧
      q = ⟨some Namespace.html, none, name.toLower⟩ := by
  have hof : ∀ {name}, (QualifiedName.forHtml name).toOption = some q → ∃ name,
      Name.isValid name = true ∧ q = ⟨some Namespace.html, none, name.toLower⟩ :=
    fun {name} h => ⟨name, QualifiedName.forHtml_eq_ok (toOption_eq_some_iff.mp h)⟩
  cases a with
  | createElement name => exact hof hq
  | build config tag content =>
    rw [givenName?, QualifiedName.ofTag, Option.isNone_iff_eq_none.mp ha] at hq
    exact hof hq
  | _ => cases ha

end Action

namespace Document

variable {raw : Prop} {d d' d₁ : Document} {x : NodeId} {el : Element} {q : QualifiedName}
  {r : Except DomError QualifiedName}

/-! ## 2. The element that a call makes -/

/-- Of the elements of `d'` only the one behind all nodes of `d` is new, and it is named `q`. -/
structure Made (q : QualifiedName) (d d' : Document) : Prop where
  there : d.size < UInt32.size → (d'.element? (.ofNat d.size)).isSome = true
  only : ∀ x el, d.element? x = none → d'.element? x = some el →
    x.index = d.size ∧ el.Named d'.symbols q

theorem element?_of_not_contains (h : ¬ d.contains x = true) : d.element? x = none :=
  Option.eq_none_iff_forall_ne_some.mpr fun _ hel => h (contains_of_element? hel)

theorem Made.named (h : Made q d d') (hsize : d.size < UInt32.size) :
    ∃ el, d'.element? (.ofNat d.size) = some el ∧ el.Named d'.symbols q := by
  obtain ⟨el, hel⟩ := Option.isSome_iff_exists.mp (h.there hsize)
  exact ⟨el, hel, (h.only _ el (element?_of_not_contains (not_contains_new hsize)) hel).2⟩

theorem Creates.made {y : DomM NodeId} (h : Creates y d q) : Made q d (y.run d).2 := by
  obtain ⟨e, t, hrun, _, hn, _⟩ := h
  rw [hrun]
  refine ⟨fun hsize => by rw [element?_added_self hsize]; rfl, fun x el hx hel => ?_⟩
  rw [element?_eq_some_iff, content?_added] at hel
  by_cases hi : x.index = d.size
  · rw [if_pos hi] at hel
    cases hel
    exact ⟨hi, hn⟩
  · rw [if_neg hi, ← element?_eq_some_iff, hx] at hel
    cases hel

/-- What makes no further element leaves the new one with its name. -/
theorem Made.trans (h : Made q d d₁) (he : Edits raw d₁ d') (hn : NoneMade d₁ d') : Made q d d' := by
  refine ⟨fun hsize => ?_, fun x el hx hel => ?_⟩
  · obtain ⟨e, hel, hname⟩ := h.named hsize
    obtain ⟨e', hel', _⟩ := named_edits he hel hname
    rw [hel']
    rfl
  · obtain ⟨e, hel₁⟩ := Option.isSome_iff_exists.mp (hn x (by rw [hel]; rfl))
    obtain ⟨hi, hname⟩ := h.only x e hx hel₁
    obtain ⟨e', hel', hname'⟩ := named_edits he hel₁ hname
    rw [hel] at hel'
    cases hel'
    exact ⟨hi, hname'⟩

/-- **What a build makes has the name that its creation gave**, whether its leaves succeed or not. -/
theorem made_createWith {c : Config} {tag : String} {leaves : List Leaf}
    (h : Creates (BuildM.createElement c tag) d q) :
    Made q d ((createWith c tag leaves).run d).2 := by
  have hmade := h.made
  obtain ⟨e, t, hrun, _⟩ := h
  rw [hrun] at hmade
  have hrest : ∀ {R : Document → Document → Prop}, (∀ u, R u u) → (∀ u v w, R u v → R v w → R u w) →
      (∀ id l, Operation.Respects R (Leaf.place c id l)) →
      Operation.Respects R (leaves.forM (Leaf.place c (.ofNat d.size))) :=
    fun hr ht hl => Operation.respects_forM hr ht fun l _ => hl _ l
  rw [run_createWith_of_created hrun]
  exact hmade.trans (hrest (R := Edits False) (fun _ => .refl) (fun _ _ _ => .trans) (edits_place c) _)
    (hrest .refl (fun _ _ _ => .trans) (noneMade_place c) _)

/-- A creation that fails makes nothing. -/
theorem Gives.noneMade {y : DomM NodeId} (h : Gives y d r) (hr : r.toOption = none) :
    NoneMade d (y.run d).2 := by
  obtain ⟨e, rfl⟩ := exists_of_toOption_eq_none hr
  rw [h.run_error]
  exact .refl d

theorem Gives.creates {y : DomM NodeId} (h : Gives y d r) (hr : r.toOption = some q) :
    Creates y d q := by
  rw [toOption_eq_some_iff.mp hr] at h
  exact h

/-- **A call that gives a name makes the element of that name.** -/
theorem made_apply {a : Action} (ha : a.givenName? = some q) (d : Document) : Made q d (a.apply d) := by
  cases a with
  | createElement name => exact ((gives_createElement name d).creates ha).made
  | createElementNs nsUri name => exact ((gives_createElementNs nsUri name d).creates ha).made
  | build config tag content =>
    rw [apply_build]
    exact made_createWith ((gives_creation config tag d).creates ha)
  | _ => cases ha

/-- **Every other call makes no element.** -/
theorem noneMade_apply {a : Action} (ha : a.givenName? = none) (d : Document) :
    NoneMade d (a.apply d) := by
  cases a with
  | createElement name => exact (gives_createElement name d).noneMade ha
  | createElementNs nsUri name => exact (gives_createElementNs nsUri name d).noneMade ha
  | createText s => exact noneMade_createText s d
  | append p c => exact noneMade_append p c d
  | detach c => exact noneMade_detach c d
  | setAttribute id name value => exact noneMade_setAttribute id name value d
  | setAttributeNs id nsUri name value => exact noneMade_setAttributeNs id nsUri name value d
  | overwriteAttribute id name value => exact noneMade_overwrite d id _
  | overwriteAttributeNs id a => exact noneMade_overwrite d id _
  | replaceText id s => exact noneMade_replaceText d id s
  | build config tag content =>
    obtain ⟨e, he⟩ := exists_of_toOption_eq_none ha
    have hg := gives_creation config tag d
    rw [he] at hg
    rw [apply_build, run_createWith_of_error hg.run_error]
    exact .refl d

/-- What a call gives back is the element that it made. -/
theorem result?_eq_some {a : Action} (h : a.result? d = some x) :
    x = .ofNat d.size ∧ ∃ q, a.givenName? = some q := by
  have hof : ∀ {y : DomM NodeId} {r : Except DomError QualifiedName}, Gives y d r →
      (y.run d).1.toOption = some x → x = .ofNat d.size ∧ ∃ q, r.toOption = some q := by
    intro y r hg hx
    cases r with
    | error e =>
      rw [hg.run_error] at hx
      cases hx
    | ok q =>
      obtain ⟨e, t, hrun, _⟩ := hg
      rw [hrun] at hx
      cases hx
      exact ⟨rfl, q, rfl⟩
  cases a with
  | createElement name => exact hof (gives_createElement name d) h
  | createElementNs nsUri name => exact hof (gives_createElementNs nsUri name d) h
  | build config tag content =>
    have hb := Builder.run_createWith_of_build (toOption_eq_some_iff.mp h)
    have hg := gives_creation config tag d
    cases hr : QualifiedName.ofTag config tag with
    | error e =>
      rw [hr] at hg
      rw [run_createWith_of_error hg.run_error] at hb
      cases hb
    | ok q =>
      rw [hr] at hg
      obtain ⟨e, t, hrun, _⟩ := hg
      rw [run_createWith_of_created hrun] at hb
      refine ⟨?_, q, toOption_eq_some_iff.mpr hr⟩
      rcases hl : (content.leaves.forM (Leaf.place config (.ofNat d.size))).run
        (d.added (.element e) t) with ⟨err | u, d₂⟩
      · rw [hl] at hb
        cases hb
      · rw [hl] at hb
        cases hb
        rfl
  | _ => cases h

/-- **What a call makes in the HTML namespace from a name alone has the lowercase of a valid name.** -/
theorem named_of_createsHtml {a : Action} (ha : a.createsHtml = true) (hx : d.contains x = false)
    (hel : (a.apply d).element? x = some el) : ∃ name, Name.isValid name = true ∧
      el.Named (a.apply d).symbols ⟨some Namespace.html, none, name.toLower⟩ := by
  have hx : d.element? x = none := element?_of_not_contains (by rw [hx]; exact Bool.false_ne_true)
  cases hq : a.givenName? with
  | none =>
    have hs := noneMade_apply hq d x (by rw [hel]; rfl)
    rw [hx] at hs
    cases hs
  | some q =>
    obtain ⟨name, hv, rfl⟩ := Action.givenName?_of_createsHtml ha hq
    exact ⟨name, hv, ((made_apply hq d).only x el hx hel).2⟩

/-! ## 3. The elements of a run -/

/-- The call of a run that gives a name leaves it to its element for the rest of the run. -/
theorem named_of_giver {before rest : List Action} {a : Action} (ha : a.givenName? = some q)
    (hsize : (d.after (before ++ a :: rest)).size < UInt32.size) :
    let d' := d.after (before ++ a :: rest)
    ∃ el, d'.element? (.ofNat (d.after before).size) = some el ∧ el.Named d'.symbols q := by
  intro d'
  have hrest : Edits True (a.apply (d.after before)) d' := by
    have hd : d' = (a.apply (d.after before)).after rest := after_append d before (a :: rest)
    exact hd ▸ edits_after_raw rest _
  have hfirst : Edits True (d.after before) (a.apply (d.after before)) := edits_apply a (.inr trivial) _
  have hlt : (d.after before).size < UInt32.size :=
    Nat.lt_of_le_of_lt (size_le_edits (hfirst.trans hrest)) hsize
  obtain ⟨e, hel, hn⟩ := (made_apply ha (d.after before)).named hlt
  exact named_edits hrest hel hn

/-- **Every element of a run was made by one of its calls**, at the end of the nodes there were. -/
theorem exists_giver {calls : List Action} (hsize : (fresh.after calls).size < UInt32.size)
    (hel : (fresh.after calls).element? x = some el) :
    ∃ before a rest q, calls = before ++ a :: rest ∧ a.givenName? = some q ∧
      x = .ofNat (fresh.after before).size := by
  -- the last call made the element, or it was there before
  induction calls using List.reverseRecOn generalizing el with
  | nil =>
    rw [after, List.foldl_nil, element?_fresh] at hel
    cases hel
  | append_singleton calls a ih =>
    rw [after_append] at hsize hel
    change (a.apply (fresh.after calls)).element? x = some el at hel
    have hlt : (fresh.after calls).size < UInt32.size :=
      Nat.lt_of_le_of_lt (size_le_edits (edits_after_raw [a] _)) hsize
    cases he : (fresh.after calls).element? x with
    | some e =>
      obtain ⟨before, b, rest, q, rfl, hq, hx⟩ := ih hlt he
      exact ⟨before, b, rest ++ [a], q, by simp, hq, hx⟩
    | none =>
      cases hq : a.givenName? with
      | none =>
        have hs := noneMade_apply hq _ x (by rw [hel]; rfl)
        rw [he] at hs
        cases hs
      | some q =>
        obtain ⟨hi, _⟩ := (made_apply hq _).only x el he hel
        refine ⟨calls, a, [], q, rfl, hq, NodeId.index_inj.mp ?_⟩
        rw [hi, NodeId.index_ofNat hlt]

/-! ## 4. Names as they read -/

/-- What the name of an element reads as. -/
def readName (d : Document) (e : Element) : QualifiedName :=
  ⟨e.nsUri.map d.symbolText, e.nsPrefix.map d.symbolText, d.symbolText e.localName⟩

/-- What the name of the element at `id` reads as. -/
def nameOf? (d : Document) (id : NodeId) : Option QualifiedName := (d.element? id).map d.readName

theorem nsUri?_eq_nameOf? (d : Document) (id : NodeId) :
    d.nsUri? id = (d.nameOf? id).bind (·.nsUri) := by
  rw [nsUri?, nameOf?, Option.bind_map]
  rfl

theorem localName?_eq_nameOf? (d : Document) (id : NodeId) :
    d.localName? id = (d.nameOf? id).map (·.localName) := by
  rw [localName?, nameOf?, Option.map_map]
  rfl

/-- While the symbols fit the word, an element reads as the name it was given. -/
theorem Tabled.readName_eq (h : Tabled d) (hsize : d.symbols.size ≤ UInt32.size)
    (hn : el.Named d.symbols q) : d.readName el = q := by
  have hx := SymbolTable.exact_of_grown_initial h.table hsize
  have hu : el.nsUri.map d.symbolText = q.nsUri := hx.map_text hn.nsUri
  have hp : el.nsPrefix.map d.symbolText = q.nsPrefix := hx.map_text hn.nsPrefix
  have hl : d.symbolText el.localName = q.localName := hx.text hn.localName
  rw [readName, hu, hp, hl]

/-- **What a name reads as, no step changes.** -/
theorem Tabled.nameOf?_edits (h : Tabled d) (he : Edits raw d d') (hx : d.contains x = true) :
    d'.nameOf? x = d.nameOf? x := by
  obtain ⟨k, hk⟩ := exists_content? hx
  obtain ⟨k', hk', hb⟩ := becomes_edits he hk
  rw [nameOf?, nameOf?, element?_eq_content?, element?_eq_content?, hk, hk']
  cases hb with
  | document => rfl
  | text s s' => rfl
  | element e l =>
    obtain ⟨q, _, hn⟩ := h.named x e (element?_eq_some_iff.mpr hk)
    have hg := grown_edits he
    have hname : d'.readName { e with attributes := l } = d.readName e := by
      show d'.readName e = d.readName e
      rw [readName, readName, map_symbolText_grown h hg hn.nsUri,
        map_symbolText_grown h hg hn.nsPrefix, symbolText_grown h hg hn.localName]
    exact congrArg some hname

/-- The test for HTML compares symbols, and holds exactly for the text. -/
theorem Tabled.nsUri_eq_lookup_iff (h : Tabled d) (hel : d.element? x = some el) :
    el.nsUri = d.symbols.lookup Namespace.html ↔ d.nsUri? x = some Namespace.html := by
  rw [nsUri?, hel]
  cases hu : el.nsUri with
  | none =>
    obtain ⟨z, hz, _⟩ := h.regular.html
    rw [hz]
    exact ⟨fun hn => (by cases hn), fun hn => (by rw [Option.bind_some, hu] at hn; cases hn)⟩
  | some y =>
    rw [Option.bind_some, hu, Option.map_some, Option.some_inj, eq_comm]
    exact h.regular.lookup_html_iff

/-! ## 5. Names in reachable documents -/

/-- **No later call changes what kind a node is, or what the name of an element reads as; the symbol of a
    namespace decides about HTML as its text does. As long as ids and symbols fit their words, the elements
    are those that the calls with a name gave back or left behind, and each reads as the name that its
    call gave.** -/
theorem names_last (earlier later : List Action) :
    let d := fresh.after earlier
    let d' := d.after later
    (∀ x k, d.content? x = some k → (∃ k', d'.content? x = some k' ∧ k.Becomes k') ∧
      d'.nameOf? x = d.nameOf? x ∧ d'.nsUri? x = d.nsUri? x ∧ d'.localName? x = d.localName? x) ∧
    (∀ x el, d'.element? x = some el →
      (el.nsUri = d'.symbols.lookup Namespace.html ↔ d'.nsUri? x = some Namespace.html) ∧
      (d'.isHtml el = true ↔ d'.nsUri? x = some Namespace.html)) ∧
    (d'.size < UInt32.size → d'.symbols.size ≤ UInt32.size →
      (∀ before a rest, earlier ++ later = before ++ a :: rest →
        let new := NodeId.ofNat (fresh.after before).size
        (∀ q, a.givenName? = some q → d'.nameOf? new = some q) ∧
        ∀ id, a.result? (fresh.after before) = some id → id = new ∧ d'.nameOf? id = a.givenName?) ∧
      ∀ x el, d'.element? x = some el → ∃ before a rest, earlier ++ later = before ++ a :: rest ∧
        x = .ofNat (fresh.after before).size ∧ d'.nameOf? x = a.givenName?) := by
  intro d d'
  have ht : Tabled d := tabled_after earlier
  have hsteps : Edits True d d' := edits_after_raw later d
  have ht' : Tabled d' := ht.edits hsteps
  refine ⟨fun x k hk => ?_, fun x el hel => ⟨ht'.nsUri_eq_lookup_iff hel, ?_⟩, fun hsize hsym => ?_⟩
  · have hn := ht.nameOf?_edits hsteps (contains_of_content? hk)
    refine ⟨becomes_edits hsteps hk, hn, ?_, ?_⟩
    · rw [nsUri?_eq_nameOf?, nsUri?_eq_nameOf?, hn]
    · rw [localName?_eq_nameOf?, localName?_eq_nameOf?, hn]
  · rw [ht'.isHtml_iff_nsUri? hel, decide_eq_true_iff]
  have hd : d' = fresh.after (earlier ++ later) := (after_append fresh earlier later).symm
  have hgiver : ∀ before a rest q, earlier ++ later = before ++ a :: rest → a.givenName? = some q →
      d'.nameOf? (.ofNat (fresh.after before).size) = some q := by
    intro before a rest q hsplit ha
    rw [hd, hsplit] at hsize
    obtain ⟨el, hel, hn⟩ := named_of_giver ha hsize
    rw [← hsplit, ← hd] at hel hn
    rw [nameOf?, hel, Option.map_some, ht'.readName_eq hsym hn]
  refine ⟨fun before a rest hsplit => ⟨fun q => hgiver before a rest q hsplit, fun id hid => ?_⟩,
    fun x el hel => ?_⟩
  · obtain ⟨rfl, q, hq⟩ := result?_eq_some hid
    exact ⟨rfl, by rw [hgiver before a rest q hsplit hq, hq]⟩
  · rw [hd] at hsize hel
    obtain ⟨before, a, rest, q, hsplit, hq, rfl⟩ := exists_giver hsize hel
    exact ⟨before, a, rest, hsplit, rfl, by rw [hgiver before a rest q hsplit hq, hq]⟩

/-- Names with and without a namespace and a prefix, one of them from a build that fails after it. The text
    gets another text, and the elements move. -/
theorem names_last_svg :
    let earlier : List Action :=
      [.createElement "DIV", .createElementNs (some Namespace.svg) "svg:G", .createText "x"]
    let later : List Action := [.build Config.default "P" (.list [.node ⟨3⟩, .node ⟨9⟩]),
      .append ⟨2⟩ ⟨1⟩, .replaceText ⟨3⟩ "y", .createElementNs none "DIV"]
    let d := fresh.after earlier
    let d' := d.after later
    d'.nameOf? ⟨1⟩ = some ⟨some Namespace.html, none, "div"⟩ ∧
      d'.nameOf? ⟨2⟩ = some ⟨some Namespace.svg, some "svg", "G"⟩ ∧ d'.nsUri? ⟨2⟩ = d.nsUri? ⟨2⟩ ∧
      (∃ k, d'.content? ⟨3⟩ = some k ∧ (NodeContent.text "x").Becomes k) ∧
      d'.text? ⟨3⟩ = some "y" ∧ (later.head?.bind (·.result? d)) = none ∧
      d'.nameOf? ⟨4⟩ = some ⟨some Namespace.html, none, "p"⟩ ∧
      d'.nameOf? ⟨5⟩ = some ⟨none, none, "DIV"⟩ := by
  intro earlier later d d'
  obtain ⟨hkind, _, hlast⟩ := names_last earlier later
  obtain ⟨hgiven, _⟩ := hlast (by decide +kernel) (by decide +kernel)
  have hg : ∃ k, d.content? ⟨2⟩ = some k := exists_content? (by decide +kernel)
  have hx : d.content? ⟨3⟩ = some (.text "x") := by decide +kernel
  obtain ⟨k, hk⟩ := hg
  refine ⟨?_, ?_, (hkind ⟨2⟩ k hk).2.2.1, (hkind ⟨3⟩ _ hx).1, by decide +kernel, by decide +kernel,
    ?_, ?_⟩
  · exact (hgiven [] _ _ rfl).1 _ (by decide +kernel)
  · exact (hgiven [.createElement "DIV"] _ _ rfl).1 _ (by decide +kernel)
  · exact (hgiven earlier _ _ rfl).1 _ (by decide +kernel)
  · exact (hgiven (earlier ++ later.take 3) _ [] rfl).1 _ (by decide +kernel)

end Document

end DomBuilder
