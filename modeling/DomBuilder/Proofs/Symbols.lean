import DomBuilder.SymbolTable

/-!
# Symbol tables as they grow

A symbol table is read in two directions, from a text to its symbol and back. This file fixes what
holds between the two on every table that interning can give:

* `Grown t t'`: `t'` came from `t` by interning. Symbols that were given stay (`Grown.lookup`), and a
  symbol below the size of the table keeps its text (`Grown.text`);
* `Regular`: symbols lie below the size, every text has a symbol, no text comes twice, and the
  symbol of the HTML namespace reads as that URI. It needs no bound on the number of texts, and
  decides whether a symbol stands for that URI (`Regular.lookup_html_iff`);
* `Exact`: every symbol reads as the text it was given for. It holds as long as the places fit the
  32-bit word (`exact_of_grown_initial`).
-/

namespace DomBuilder.SymbolTable

variable {t t' : SymbolTable} {s r : String} {y : Symbol}

/-! ## 1. One text more -/

/-- Interning gives the symbol there is, or puts the text at the next place. -/
theorem intern_cases (t : SymbolTable) (s : String) :
    (∃ y, t.lookup s = some y ∧ t.intern s = (y, t)) ∨
    (t.lookup s = none ∧ (t.intern s).1 = ⟨UInt32.ofNat t.size⟩ ∧
      (t.intern s).2.texts = t.texts.push s) := by
  cases h : t.lookup s with
  | some y => exact .inl ⟨y, rfl, intern_of_lookup h⟩
  | none => exact .inr ⟨rfl, by simp [intern, h, size], by simp [intern, h]⟩

theorem lookup_intern (h : t.lookup r = some y) : (t.intern s).2.lookup r = some y := by
  by_cases hr : r = s
  · subst hr
    rw [intern_of_lookup h]
    exact h
  · rw [lookup_intern_of_ne hr, h]

theorem size_le_intern (t : SymbolTable) (s : String) : t.size ≤ (t.intern s).2.size := by
  rcases intern_cases t s with ⟨y, _, e⟩ | ⟨_, _, e⟩
  · exact Nat.le_of_eq (by rw [e])
  · rw [size, size, e, Array.size_push]
    exact Nat.le_succ _

theorem size_intern_le (t : SymbolTable) (s : String) : (t.intern s).2.size ≤ t.size + 1 := by
  rcases intern_cases t s with ⟨y, _, e⟩ | ⟨_, _, e⟩
  · rw [e]
    exact Nat.le_succ _
  · exact Nat.le_of_eq (by rw [size, size, e, Array.size_push])

/-- A place that is taken keeps its text. -/
theorem getElem?_texts_intern {i : Nat} (h : i < t.size) :
    (t.intern s).2.texts[i]? = t.texts[i]? := by
  rcases intern_cases t s with ⟨y, _, e⟩ | ⟨_, _, e⟩
  · rw [e]
  · rw [e, Array.getElem?_push_lt h, Array.getElem?_eq_getElem h]

/-! ## 2. Many texts more -/

/-- Interns each text in turn. -/
def internAll (t : SymbolTable) (names : List String) : SymbolTable :=
  names.foldl (fun t s => (t.intern s).2) t

/-- `t'` came from `t` by interning. -/
def Grown (t t' : SymbolTable) : Prop := ∃ names, t' = t.internAll names

theorem Grown.refl (t : SymbolTable) : Grown t t := ⟨[], rfl⟩

theorem Grown.trans {t'' : SymbolTable} (h : Grown t t') (h' : Grown t' t'') : Grown t t'' := by
  obtain ⟨names, rfl⟩ := h
  obtain ⟨names', rfl⟩ := h'
  exact ⟨names ++ names', by simp [internAll]⟩

theorem grown_intern (t : SymbolTable) (s : String) : Grown t (t.intern s).2 := ⟨[s], rfl⟩

/-- **What interning a text keeps, growing keeps.** -/
theorem Grown.keeps {P : SymbolTable → Prop} (hP : ∀ t s, P t → P (t.intern s).2)
    (h : Grown t t') (ht : P t) : P t' := by
  obtain ⟨names, rfl⟩ := h
  induction names generalizing t with
  | nil => exact ht
  | cons s names ih => exact ih (hP t s ht)

theorem Grown.lookup (h : Grown t t') (hs : t.lookup s = some y) : t'.lookup s = some y :=
  h.keeps (P := fun u => u.lookup s = some y) (fun _ _ => lookup_intern) hs

theorem Grown.getElem?_texts (h : Grown t t') {i : Nat} (hi : i < t.size) :
    t'.texts[i]? = t.texts[i]? := by
  have hk := h.keeps (P := fun u => t.size ≤ u.size ∧ u.texts[i]? = t.texts[i]?)
    (fun u s hu => ⟨Nat.le_trans hu.1 (size_le_intern u s), by
      rw [getElem?_texts_intern (Nat.lt_of_lt_of_le hi hu.1), hu.2]⟩) ⟨Nat.le_refl _, rfl⟩
  exact hk.2

/-- A symbol below the size keeps its text. -/
theorem Grown.text (h : Grown t t') (hy : y.val.toNat < t.size) : t'.text y = t.text y := by
  rw [SymbolTable.text, SymbolTable.text, h.getElem?_texts hy]

/-! ## 3. What holds without a bound -/

structure Regular (t : SymbolTable) : Prop where
  below : ∀ s y, t.lookup s = some y → y.val.toNat < t.size
  known : ∀ s ∈ t.texts.toList, (t.lookup s).isSome = true
  nodup : t.texts.toList.Nodup
  html : ∃ y, t.lookup Namespace.html = some y ∧ t.texts[y.val.toNat]? = some Namespace.html

/-- The fresh symbol of a table lies at most at its end. -/
theorem ofNat_toNat_le (n : Nat) : (UInt32.ofNat n).toNat ≤ n := by
  rw [UInt32.toNat_ofNat']
  exact Nat.mod_le _ _

theorem lookup_intern_of_none (h : t.lookup s = none) (hr : (t.intern s).2.lookup r = some y) :
    (r = s ∧ y = ⟨UInt32.ofNat t.size⟩) ∨ t.lookup r = some y := by
  by_cases e : r = s
  · subst e
    rw [lookup_intern_self] at hr
    rcases intern_cases t r with ⟨z, hz, _⟩ | ⟨_, hy, _⟩
    · rw [h] at hz
      cases hz
    · rw [hy] at hr
      exact .inl ⟨rfl, (Option.some.inj hr).symm⟩
  · rw [lookup_intern_of_ne e] at hr
    exact .inr hr

theorem below_intern (hb : ∀ s y, t.lookup s = some y → y.val.toNat < t.size) (n : String) :
    ∀ s y, (t.intern n).2.lookup s = some y → y.val.toNat < (t.intern n).2.size := by
  intro s y hs
  rcases intern_cases t n with ⟨z, _, e⟩ | ⟨hn, _, e⟩
  · rw [e] at hs ⊢
    exact hb s y hs
  · rw [size, e, Array.size_push]
    rcases lookup_intern_of_none hn hs with ⟨_, rfl⟩ | h
    · exact Nat.lt_succ_of_le (ofNat_toNat_le _)
    · exact Nat.lt_succ_of_lt (hb s y h)

theorem known_intern (hk : ∀ s ∈ t.texts.toList, (t.lookup s).isSome = true) (n : String) :
    ∀ s ∈ (t.intern n).2.texts.toList, ((t.intern n).2.lookup s).isSome = true := by
  intro s hs
  rcases intern_cases t n with ⟨z, _, e⟩ | ⟨_, _, e⟩
  · rw [e] at hs ⊢
    exact hk s hs
  · rw [e, Array.toList_push] at hs
    rcases List.mem_append.mp hs with h | h
    · obtain ⟨y, hy⟩ := Option.isSome_iff_exists.mp (hk s h)
      rw [lookup_intern hy]
      rfl
    · rw [List.mem_singleton.mp h, lookup_intern_self]
      rfl

theorem nodup_intern (hk : ∀ s ∈ t.texts.toList, (t.lookup s).isSome = true)
    (hn : t.texts.toList.Nodup) (n : String) : (t.intern n).2.texts.toList.Nodup := by
  rcases intern_cases t n with ⟨z, _, e⟩ | ⟨h, _, e⟩
  · rw [e]
    exact hn
  · rw [e, Array.toList_push, List.nodup_append]
    refine ⟨hn, by simp, fun a ha b hb => ?_⟩
    rintro rfl
    rw [List.mem_singleton] at hb
    have hs := hk a ha
    rw [hb, h] at hs
    cases hs

theorem Regular.intern (h : Regular t) (n : String) : Regular (t.intern n).2 := by
  refine ⟨below_intern h.below n, known_intern h.known n, nodup_intern h.known h.nodup n, ?_⟩
  obtain ⟨y, hy, ht⟩ := h.html
  exact ⟨y, lookup_intern hy, by rw [getElem?_texts_intern (h.below _ y hy), ht]⟩

theorem Grown.regular (hg : Grown t t') (h : Regular t) : Regular t' :=
  hg.keeps (fun _ n ht => ht.intern n) h

/-- **A symbol reads as the HTML namespace exactly if it is the symbol of that URI.** -/
theorem Regular.lookup_html_iff (h : Regular t) :
    t.lookup Namespace.html = some y ↔ t.text y = Namespace.html := by
  obtain ⟨z, hz, ht⟩ := h.html
  constructor
  · intro hy
    rw [hz] at hy
    cases hy
    rw [text, ht]
    rfl
  · intro hy
    have hne : Namespace.html ≠ "" := by decide
    have ht' : t.texts[y.val.toNat]? = some Namespace.html := by
      cases he : t.texts[y.val.toNat]? with
      | none =>
        rw [text, he] at hy
        exact absurd hy.symm hne
      | some s =>
        rw [text, he] at hy
        exact congrArg some hy
    -- no text comes twice, so both symbols name one place
    have hl : t.texts.toList[z.val.toNat]? = t.texts.toList[y.val.toNat]? := by simp [ht, ht']
    have hlt : z.val.toNat < t.texts.toList.length := h.below _ z hz
    have he : z.val.toNat = y.val.toNat := (List.getElem?_inj hlt h.nodup).mp hl
    have hzy : z = y := congrArg Symbol.mk (UInt32.toNat_inj.mp he)
    rw [← hzy, hz]

/-! ## 4. What holds while the places fit the word -/

/-- Every symbol reads as the text it was given for. -/
def Exact (t : SymbolTable) : Prop :=
  ∀ s y, t.lookup s = some y → t.texts[y.val.toNat]? = some s

theorem Exact.text (h : Exact t) (hs : t.lookup s = some y) : t.text y = s := by
  rw [SymbolTable.text, h s y hs]
  rfl

/-- So do symbols of texts that may be missing. -/
theorem Exact.map_text (h : Exact t) {o : Option String} {y : Option Symbol}
    (hy : o.map t.lookup = y.map some) : y.map t.text = o := by
  cases o with
  | none =>
    cases y with
    | none => rfl
    | some z => cases hy
  | some s =>
    cases y with
    | none => cases hy
    | some z => exact congrArg some (h.text (Option.some.inj hy))

theorem exact_intern (hb : ∀ s y, t.lookup s = some y → y.val.toNat < t.size)
    (h : t.size ≤ UInt32.size → Exact t) (n : String) :
    (t.intern n).2.size ≤ UInt32.size → Exact (t.intern n).2 := by
  intro hsize s y hs
  have ht := h (Nat.le_trans (size_le_intern t n) hsize)
  rcases intern_cases t n with ⟨z, _, e⟩ | ⟨hn, _, e⟩
  · rw [e] at hs ⊢
    exact ht s y hs
  · rcases lookup_intern_of_none hn hs with ⟨rfl, rfl⟩ | hs'
    · rw [size, e, Array.size_push] at hsize
      have hlt : t.size < UInt32.size := hsize
      rw [e, UInt32.toNat_ofNat_of_lt' hlt]
      simp [size]
    · rw [getElem?_texts_intern (hb s y hs')]
      exact ht s y hs'

/-! ## 5. The table of a fresh document -/

theorem size_internAll_le (t : SymbolTable) (names : List String) :
    (t.internAll names).size ≤ t.size + names.length := by
  induction names generalizing t with
  | nil => exact Nat.le_refl _
  | cons s names ih =>
    have h := ih (t.intern s).2
    have hs := size_intern_le t s
    simp only [internAll, List.foldl_cons, List.length_cons] at h ⊢
    omega

theorem lookup_internAll_of_mem {names : List String} (hs : s ∈ names) (t : SymbolTable) :
    ∃ y, (t.internAll names).lookup s = some y := by
  obtain ⟨a, b, rfl⟩ := List.append_of_mem hs
  refine ⟨((t.internAll a).intern s).1, ?_⟩
  have hg : Grown ((t.internAll a).intern s).2 (t.internAll (a ++ s :: b)) := ⟨b, by simp [internAll]⟩
  exact hg.lookup (lookup_intern_self _ s)

theorem lookup_empty (s : String) : empty.lookup s = none := by
  simp [lookup, empty]

/-- What a table from nothing is like before the HTML namespace is in it. -/
theorem grown_empty (h : Grown empty t) :
    (∀ s y, t.lookup s = some y → y.val.toNat < t.size) ∧
    (∀ s ∈ t.texts.toList, (t.lookup s).isSome = true) ∧ t.texts.toList.Nodup ∧
    (t.size ≤ UInt32.size → Exact t) := by
  refine h.keeps (P := fun u => (∀ s y, u.lookup s = some y → y.val.toNat < u.size) ∧
    (∀ s ∈ u.texts.toList, (u.lookup s).isSome = true) ∧ u.texts.toList.Nodup ∧
    (u.size ≤ UInt32.size → Exact u)) (fun u n hu => ?_) ?_
  · obtain ⟨h1, h2, h3, h4⟩ := hu
    exact ⟨below_intern h1 n, known_intern h2 n, nodup_intern h2 h3 n, exact_intern h1 h4 n⟩
  · refine ⟨fun s y hs => ?_, fun s hs => ?_, List.nodup_nil, fun _ s y hs => ?_⟩
    · rw [lookup_empty] at hs
      cases hs
    · cases hs
    · rw [lookup_empty] at hs
      cases hs

theorem grown_initial : Grown empty initial :=
  ⟨"" :: commonTags ++ [Namespace.html, Namespace.svg, Namespace.xlink], rfl⟩

theorem regular_initial : Regular initial := by
  obtain ⟨h1, h2, h3, h4⟩ := grown_empty grown_initial
  have hsize : initial.size ≤ UInt32.size :=
    Nat.le_trans (size_internAll_le empty _) (by decide)
  have hm : Namespace.html ∈ "" :: commonTags ++
      [Namespace.html, Namespace.svg, Namespace.xlink] := by simp
  obtain ⟨y, hy⟩ := lookup_internAll_of_mem hm empty
  exact ⟨h1, h2, h3, y, hy, h4 hsize _ y hy⟩

theorem exact_of_grown_initial (h : Grown initial t) (hsize : t.size ≤ UInt32.size) : Exact t :=
  (grown_empty (grown_initial.trans h)).2.2.2 hsize

end DomBuilder.SymbolTable
