import DomBuilder.Proofs.Symbols
import Mathlib.Data.List.Dedup
import Mathlib.Data.List.Perm.Subperm

/-!
# The numbering of a symbol table

A symbol table is written twice at each new text, once for either direction. This file fixes what comes of
it for all tables that interning makes out of the fresh one, as long as the places fit the word:

* `Exact.lookup_iff`: a text has a symbol exactly if it is the text of that place, so the two directions are
  inverse to each other;
* `size_internAll_initial`: a table has as many places as there were different texts;
* `numbering_after`: both of them, with what one more text does and what any number of later ones keep.
-/

namespace DomBuilder.SymbolTable

variable {t : SymbolTable} {s : String} {y : Symbol} {names : List String}

/-! ## 1. The two directions -/

theorem getElem?_texts (h : y.val.toNat < t.size) : t.texts[y.val.toNat]? = some (t.text y) := by
  rw [text, Array.getElem?_eq_getElem h]
  rfl

/-- A symbol that was never given reads as the empty text. -/
theorem text_of_size_le (h : t.size ≤ y.val.toNat) : t.text y = "" := by
  rw [text, Array.getElem?_eq_none h]
  rfl

/-- **Looking a text up is reading a symbol backwards.** -/
theorem Exact.lookup_iff (h : Exact t) (hb : ∀ s y, t.lookup s = some y → y.val.toNat < t.size)
    (hk : ∀ s ∈ t.texts.toList, (t.lookup s).isSome = true) (hn : t.texts.toList.Nodup) :
    t.lookup s = some y ↔ y.val.toNat < t.size ∧ t.text y = s := by
  refine ⟨fun hs => ⟨hb s y hs, h.text hs⟩, fun ⟨hy, hs⟩ => ?_⟩
  have hy' : t.texts[y.val.toNat]? = some s := by rw [getElem?_texts hy, hs]
  have hm : s ∈ t.texts.toList := by
    rw [← Array.getElem?_toList] at hy'
    exact List.mem_of_getElem? hy'
  obtain ⟨z, hz⟩ := Option.isSome_iff_exists.mp (hk s hm)
  -- no text comes twice, so the place of `s` is the one that its symbol names
  have hplace : t.texts.toList[z.val.toNat]? = t.texts.toList[y.val.toNat]? := by
    rw [Array.getElem?_toList, Array.getElem?_toList, hy', h s z hz]
  have hval : z.val.toNat = y.val.toNat := (List.getElem?_inj (hb s z hz) hn).mp hplace
  have hzy : z = y := congrArg Symbol.mk (UInt32.toNat_inj.mp hval)
  rw [← hzy, hz]

/-! ## 2. Different texts -/

theorem mem_texts_intern {r : String} (h : r ∈ (t.intern s).2.texts.toList) :
    r ∈ t.texts.toList ∨ r = s := by
  rcases intern_cases t s with ⟨_, _, e⟩ | ⟨_, _, e⟩
  · rw [e] at h
    exact .inl h
  · rw [e, Array.toList_push, List.mem_append, List.mem_singleton] at h
    exact h

theorem mem_texts_internAll {r : String} (h : r ∈ (t.internAll names).texts.toList) :
    r ∈ t.texts.toList ++ names := by
  induction names generalizing t with
  | nil => rwa [List.append_nil]
  | cons s names ih =>
    have hr := ih (t := (t.intern s).2) h
    rw [List.mem_append] at hr
    rw [List.mem_append, List.mem_cons]
    rcases hr with hr | hr
    · rcases mem_texts_intern hr with hr | hr
      · exact .inl hr
      · exact .inr (.inl hr)
    · exact .inr (.inr hr)

theorem grown_internAll (t : SymbolTable) (names : List String) : Grown t (t.internAll names) :=
  ⟨names, rfl⟩

/-- No text comes twice, so a table has no more places than there were different texts. -/
theorem size_internAll_le_dedup (names : List String) :
    (initial.internAll names).size ≤ (initial.texts.toList ++ names).dedup.length := by
  have hnodup := (grown_empty (grown_initial.trans (grown_internAll initial names))).2.2.1
  exact (hnodup.subperm fun r hr => List.mem_dedup.mpr (mem_texts_internAll hr)).length_le

/-- Every text that was interned has a place, as long as the places fit the word. -/
theorem size_internAll_initial (h : (initial.internAll names).size ≤ UInt32.size) :
    (initial.internAll names).size = (initial.texts.toList ++ names).dedup.length := by
  refine Nat.le_antisymm (size_internAll_le_dedup names) ?_
  have hgrown := grown_internAll initial names
  have hexact := exact_of_grown_initial hgrown h
  have hold := grown_empty grown_initial
  refine ((List.nodup_dedup _).subperm fun r hr => ?_).length_le
  have hlookup : ∃ y, (initial.internAll names).lookup r = some y := by
    rcases List.mem_append.mp (List.mem_dedup.mp hr) with hr | hr
    · obtain ⟨y, hy⟩ := Option.isSome_iff_exists.mp (hold.2.1 r hr)
      exact ⟨y, hgrown.lookup hy⟩
    · exact lookup_internAll_of_mem hr initial
  obtain ⟨y, hy⟩ := hlookup
  have ht := hexact r y hy
  rw [← Array.getElem?_toList] at ht
  exact List.mem_of_getElem? ht

/-! ## 3. The numbering -/

theorem text_zero (names : List String) : (initial.internAll names).text ⟨0⟩ = "" := by
  have hfirst : (empty.intern "").2.texts = #[""] := by
    rcases intern_cases empty "" with ⟨y, hy, _⟩ | ⟨_, _, e⟩
    · rw [lookup_empty] at hy
      cases hy
    · exact e
  have hgrown : Grown (empty.intern "").2 initial :=
    ⟨commonTags ++ [Namespace.html, Namespace.svg, Namespace.xlink], by
      rw [initial, ofList, List.cons_append, List.foldl_cons, internAll]⟩
  have hlt : (⟨0⟩ : Symbol).val.toNat < (empty.intern "").2.size := by
    rw [size, hfirst]
    exact Nat.one_pos
  rw [(hgrown.trans (grown_internAll initial names)).text hlt, text, hfirst]
  rfl

/-- **A symbol table is a numbering that grows.** After any texts at all, fewer different ones than the word
    has values, the table has one place for each text, the empty one at place 0. Symbols below the size read
    as different texts, those from the size on as the empty one, and a text has a symbol exactly if it is
    what the symbol reads as. Interning a text gives a symbol that reads as it, changes nothing if the text
    has one, and else gives the next place. Whatever is interned later, a symbol that was given keeps its
    text, and a text its symbol. -/
theorem numbering_after (names : List String)
    (hfew : (initial.texts.toList ++ names).dedup.length < UInt32.size) :
    let t := initial.internAll names
    t.size = (initial.texts.toList ++ names).dedup.length ∧ t.text ⟨0⟩ = "" ∧
      (∀ y z, y.val.toNat < t.size → z.val.toNat < t.size → t.text y = t.text z → y = z) ∧
      (∀ s y, t.lookup s = some y ↔ y.val.toNat < t.size ∧ t.text y = s) ∧
      (∀ y, t.size ≤ y.val.toNat → t.text y = "") ∧
      (∀ s, (t.intern s).2.text (t.intern s).1 = s) ∧
      (∀ s y, t.lookup s = some y → t.intern s = (y, t)) ∧
      (∀ s, t.lookup s = none →
        (t.intern s).1.val.toNat = t.size ∧ (t.intern s).2.size = t.size + 1) ∧
      ∀ later, (∀ y, y.val.toNat < t.size → (t.internAll later).text y = t.text y) ∧
        ∀ s y, t.lookup s = some y → (t.internAll later).lookup s = some y := by
  intro t
  have hsize : t.size < UInt32.size := Nat.lt_of_le_of_lt (size_internAll_le_dedup names) hfew
  have hgrown : Grown initial t := grown_internAll initial names
  obtain ⟨hb, hk, hn, _⟩ := grown_empty (grown_initial.trans hgrown)
  have hexact : Exact t := exact_of_grown_initial hgrown (Nat.le_of_lt hsize)
  have hiff : ∀ s y, t.lookup s = some y ↔ y.val.toNat < t.size ∧ t.text y = s := fun s y =>
    hexact.lookup_iff hb hk hn
  refine ⟨size_internAll_initial (Nat.le_of_lt hsize), text_zero names, fun y z hy hz h => ?_, hiff,
    fun y => text_of_size_le, fun s => ?_, fun s y => intern_of_lookup, fun s hs => ?_, fun later =>
    ⟨fun y => (grown_internAll t later).text, fun s y => (grown_internAll t later).lookup⟩⟩
  · have e := (hiff _ y).mpr ⟨hy, h⟩
    rw [(hiff _ z).mpr ⟨hz, rfl⟩] at e
    exact (Option.some.inj e).symm
  · have hnext : (t.intern s).2.size ≤ UInt32.size := Nat.le_trans (size_intern_le t s) hsize
    exact (exact_of_grown_initial (hgrown.trans (grown_intern t s)) hnext).text (lookup_intern_self t s)
  · rcases intern_cases t s with ⟨y, hy, _⟩ | ⟨_, hy, ht⟩
    · rw [hs] at hy
      cases hy
    · exact ⟨by rw [hy, UInt32.toNat_ofNat_of_lt' hsize], by rw [size, ht, Array.size_push]; rfl⟩

/-- A new name that comes twice, with a common one between: the next place once, and none for the other. -/
theorem numbering_after_twice :
    let t := initial.internAll ["x", "div", "x"]
    t.size = 53 ∧ t.lookup "x" = some ⟨52⟩ ∧ t.text ⟨52⟩ = "x" ∧ t.intern "div" = (⟨4⟩, t) ∧
      (t.intern "y").1.val.toNat = 53 ∧ (t.internAll ["y", "z"]).text ⟨52⟩ = "x" := by
  intro t
  have hcount : (initial.texts.toList ++ ["x", "div", "x"]).dedup.length = 53 := by decide +kernel
  have hall := numbering_after ["x", "div", "x"] (by rw [hcount]; decide)
  obtain ⟨hsize, -, -, hiff, -, -, hold, hnew, hlater⟩ := hall
  have ht : t.size = 53 := hsize.trans hcount
  have hx : t.lookup "x" = some ⟨52⟩ := by decide +kernel
  have hy : t.lookup "y" = none := by decide +kernel
  obtain ⟨hplace, htext⟩ := (hiff "x" ⟨52⟩).mp hx
  refine ⟨ht, hx, htext, hold "div" ⟨4⟩ (by decide +kernel), ?_, ?_⟩
  · rw [(hnew "y" hy).1, ht]
  · rw [(hlater ["y", "z"]).1 ⟨52⟩ hplace, htext]

end DomBuilder.SymbolTable
