import DomBuilder.Attribute
import DomBuilder.Proofs.Bindings
import Mathlib.Data.List.Find

/-!
# Attribute lists that were written to

An element's attributes are told apart by namespace and local name. This file fixes what writing by
this identity does to a list, and when writing by name is the same:

* `Attribute.identity`, `AttributeList.identities`: what attributes are told apart by;
* `put_cases`: a write either replaces the value of the first match or appends; `Stores`, `stores_put`: the
  same told of the attribute that is found;
* `read_put`: one write by some key, read back by that key; `getNs?_setNs`, `identities_setNs`: one write
  by identity, read back by identity;
* `setAll`: a list of writes from nothing. It holds the last value for each identity (`getNs?_setAll`),
  and the identities in the order in which they came first (`find?_identities_setAll`);
* `set_eq_setNs`: among attributes without prefix, writing by name is writing by the identity of the
  first attribute of that local name.
-/

namespace DomBuilder

namespace Attribute

/-- Namespace and local name. -/
def identity (a : Attribute) : Option String × String := (a.nsUri, a.localName)

/-- The attribute of this identity without a prefix. -/
def ofIdentity (i : Option String × String) (value : String) : Attribute := ⟨i.1, none, i.2, value⟩

theorem isIdentified_iff {a : Attribute} {nsUri : Option String} {localName : String} :
    a.isIdentified nsUri localName = true ↔ a.identity = (nsUri, localName) := by
  simp [isIdentified, identity]

theorem isIdentified_eq (a : Attribute) (i : Option String × String) :
    a.isIdentified i.1 i.2 = decide (a.identity = i) := by
  rw [Bool.eq_iff_iff, isIdentified_iff]
  simp

/-- Without a prefix the qualified name is the local name. -/
theorem isNamed_of_no_prefix {a : Attribute} (h : a.nsPrefix = none) (name : String) :
    a.isNamed name = decide (a.localName = name) := by
  rw [isNamed, h]

end Attribute

namespace AttributeList

variable {p q : Attribute → Bool} {v : String} {l : AttributeList} {a : Attribute}

/-! ## 1. One write -/

theorem replaceFirst?_eq_none_iff {as : List Attribute} :
    replaceFirst? p v as = none ↔ ∀ x ∈ as, p x = false := by
  induction as with
  | nil => simp [replaceFirst?]
  | cons b as ih =>
    by_cases hb : p b = true
    · simp [replaceFirst?, hb]
    · rw [Bool.not_eq_true] at hb
      simp only [replaceFirst?, hb, List.forall_mem_cons, true_and, ← ih]
      cases replaceFirst? p v as <;> simp

/-- A replacement finds the first match and changes its value alone. -/
theorem replaceFirst?_eq_some {as as' : List Attribute} {old : String}
    (h : replaceFirst? p v as = some (old, as')) : ∃ s b t, as = s ++ b :: t ∧ p b = true ∧
      (∀ x ∈ s, p x = false) ∧ as' = s ++ { b with value := v } :: t := by
  induction as generalizing as' with
  | nil => cases h
  | cons b as ih =>
    by_cases hb : p b = true
    · simp only [replaceFirst?, hb, if_true] at h
      cases h
      exact ⟨[], b, as, rfl, hb, fun _ hx => absurd hx List.not_mem_nil, rfl⟩
    · rw [Bool.not_eq_true] at hb
      simp only [replaceFirst?, hb] at h
      cases hr : replaceFirst? p v as with
      | none => rw [hr] at h; cases h
      | some r =>
        rw [hr] at h
        cases h
        obtain ⟨s, c, t, rfl, hc, hs, he⟩ := ih hr
        refine ⟨b :: s, c, t, rfl, hc, fun x hx => ?_, by rw [he]; rfl⟩
        rcases List.mem_cons.mp hx with rfl | hx
        · exact hb
        · exact hs x hx

/-- **A write replaces the value of the first match, or appends where there is none.** -/
theorem put_cases (l : AttributeList) (p : Attribute → Bool) (a : Attribute) :
    (∃ s b t, l.toList = s ++ b :: t ∧ p b = true ∧ (∀ x ∈ s, p x = false) ∧
      (l.put p a).2.toList = s ++ { b with value := a.value } :: t) ∨
    ((∀ x ∈ l.toList, p x = false) ∧ (l.put p a).2.toList = l.toList ++ [a]) := by
  unfold put
  cases hr : replaceFirst? p a.value l.toList with
  | none => exact .inr ⟨replaceFirst?_eq_none_iff.mp hr, rfl⟩
  | some r =>
    obtain ⟨s, b, t, h1, h2, h3, h4⟩ := replaceFirst?_eq_some hr
    exact .inl ⟨s, b, t, h1, h2, h3, h4⟩

theorem mem_put {x : Attribute} (h : x ∈ (l.put p a).2.toList) :
    (∃ y ∈ l.toList, x.nsPrefix = y.nsPrefix ∧ x.identity = y.identity) ∨ x = a := by
  rcases put_cases l p a with ⟨s, b, t, hl, _, _, he⟩ | ⟨_, he⟩
  · rw [he] at h
    rcases List.mem_append.mp h with h | h
    · exact .inl ⟨x, by rw [hl]; exact List.mem_append_left _ h, rfl, rfl⟩
    · rcases List.mem_cons.mp h with rfl | h
      · exact .inl ⟨b, by rw [hl]; exact List.mem_append_right _ List.mem_cons_self, rfl, rfl⟩
      · refine .inl ⟨x, ?_, rfl, rfl⟩
        rw [hl]
        exact List.mem_append_right _ (List.mem_cons_of_mem _ h)
  · rw [he] at h
    rcases List.mem_append.mp h with h | h
    · exact .inl ⟨x, h, rfl, rfl⟩
    · exact .inr (List.mem_singleton.mp h)

theorem find?_of_forall_false {as : List Attribute} (h : ∀ x ∈ as, p x = false) : as.find? p = none :=
  List.find?_eq_none.mpr fun x hx => by rw [h x hx]; exact Bool.false_ne_true

/-- What a write of `a` makes of a list, where `found` is the attribute that it looked for: that one takes
    the value of `a` and keeps its place and its names, or, where there is none, `a` comes to the end. -/
def Stores (found : Option Attribute) (a : Attribute) (l l' : AttributeList) : Prop :=
  match found with
  | some b => ∃ s t, l.toList = s ++ b :: t ∧ b ∉ s ∧ l'.toList = s ++ { b with value := a.value } :: t
  | none => l'.toList = l.toList ++ [a]

/-- **A write stores its attribute where it was looked for.** -/
theorem stores_put (l : AttributeList) (p : Attribute → Bool) (a : Attribute) :
    Stores (l.toList.find? p) a l (l.put p a).2 := by
  rcases put_cases l p a with ⟨s, b, t, hl, hb, hs, he⟩ | ⟨hno, he⟩
  · have hfound : l.toList.find? p = some b := by
      rw [hl, List.find?_append, find?_of_forall_false hs, List.find?_cons_of_pos hb]
      rfl
    rw [hfound]
    refine ⟨s, t, hl, fun hm => ?_, he⟩
    rw [hs b hm] at hb
    cases hb
  · rw [find?_of_forall_false hno]
    exact he

/-- **What is read by some key after a write by that key**, where the key does not look at the value: under
    the key of the write the new value, and under every other key what was read before. -/
theorem read_put {κ : Type} [DecidableEq κ] (key : Attribute → κ)
    (hkey : ∀ a v, key { a with value := v } = key a) (l : AttributeList) (a : Attribute) (k : κ) :
    ((l.put (fun x => key x = key a) a).2.toList.find? fun x => key x = k).map (·.value) =
      if k = key a then some a.value else (l.toList.find? fun x => key x = k).map (·.value) := by
  rcases put_cases l (fun x => key x = key a) a with ⟨s, b, t, hl, hb, hs, he⟩ | ⟨hno, he⟩
  · have hb : key b = key a := of_decide_eq_true hb
    have hb' : key { b with value := a.value } = key a := (hkey b _).trans hb
    rw [he, hl]
    by_cases hk : k = key a
    · subst hk
      rw [if_pos rfl, List.find?_append, find?_of_forall_false hs, List.find?_cons_of_pos (by simp [hb'])]
      rfl
    · have hne : ¬ key a = k := fun h => hk h.symm
      rw [if_neg hk, List.find?_append, List.find?_append, List.find?_cons_of_neg (by simpa [hb'] using hne),
        List.find?_cons_of_neg (by simpa [hb] using hne)]
  · rw [he, List.find?_append]
    by_cases hk : k = key a
    · subst hk
      rw [if_pos rfl, find?_of_forall_false hno, List.find?_cons_of_pos (by simp)]
      rfl
    · have hne : ¬ key a = k := fun h => hk h.symm
      rw [if_neg hk, List.find?_cons_of_neg (by simpa using hne), List.find?_nil, Option.or_none]

/-- The value read by identity after a write by identity. -/
theorem getNs?_setNs (l : AttributeList) (a : Attribute) (i : Option String × String) :
    (l.setNs a).2.getNs? i.1 i.2 = if i = a.identity then some a.value else l.getNs? i.1 i.2 := by
  have hq : ∀ j : Option String × String, Attribute.isIdentified j.1 j.2 = fun x => decide (x.identity = j) :=
    fun j => funext fun x => x.isIdentified_eq j
  have hput : (l.setNs a).2 = (l.put (fun x => x.identity = a.identity) a).2 := by
    show (l.put (Attribute.isIdentified a.identity.1 a.identity.2) a).2 = _
    rw [hq]
  simp only [getNs?, findNs?, hq i, hput]
  exact read_put Attribute.identity (fun _ _ => rfl) l a i

/-! ## 2. Identities -/

def identities (l : AttributeList) : List (Option String × String) := l.toList.map Attribute.identity

/-- A write by identity adds the identity if it is new. -/
theorem identities_setNs (l : AttributeList) (a : Attribute) :
    (l.setNs a).2.identities =
      if a.identity ∈ l.identities then l.identities else l.identities ++ [a.identity] := by
  unfold identities setNs
  rcases put_cases l (Attribute.isIdentified a.nsUri a.localName) a with
    ⟨s, b, t, hl, hb, _, he⟩ | ⟨hno, he⟩
  · have hbi : b.identity = a.identity := Attribute.isIdentified_iff.mp hb
    have hm : a.identity ∈ l.toList.map Attribute.identity :=
      List.mem_map.mpr ⟨b, by rw [hl]; exact List.mem_append_right _ List.mem_cons_self, hbi⟩
    rw [if_pos hm, he, hl, List.map_append, List.map_append]
    rfl
  · have hm : a.identity ∉ l.toList.map Attribute.identity := fun hm => by
      obtain ⟨x, hx, hxi⟩ := List.mem_map.mp hm
      have hxn := hno x hx
      rw [Attribute.isIdentified_iff.mpr hxi] at hxn
      cases hxn
    rw [if_neg hm, he, List.map_append]
    rfl

/-! ## 3. Many writes -/

/-- The attributes after each identity in turn is set to its value. -/
def setAll (pairs : List ((Option String × String) × String)) : AttributeList :=
  pairs.foldl (fun l (i, v) => (l.setNs (.ofIdentity i v)).2) {}

variable {pairs : List ((Option String × String) × String)}

theorem setAll_append (pairs : List ((Option String × String) × String))
    (x : (Option String × String) × String) :
    setAll (pairs ++ [x]) = ((setAll pairs).setNs (.ofIdentity x.1 x.2)).2 := by
  rw [setAll, List.foldl_append]
  rfl

/-- **Each identity has the last value that it was set to.** -/
theorem getNs?_setAll (i : Option String × String) :
    (setAll pairs).getNs? i.1 i.2 = lastValue pairs i := by
  induction pairs using List.reverseRecOn with
  | nil => rfl
  | append_singleton pairs x ih =>
    rw [setAll_append, getNs?_setNs, lastValue_append, ih]
    rfl

/-- The first identity with a property is the first one set. -/
theorem find?_identities_setAll (f : Option String × String → Bool) :
    (setAll pairs).identities.find? f = (pairs.map Prod.fst).find? f := by
  induction pairs using List.reverseRecOn with
  | nil => rfl
  | append_singleton pairs x ih =>
    rw [setAll_append, identities_setNs, List.map_append, List.find?_append, ← ih]
    by_cases hm : x.1 ∈ (setAll pairs).identities
    · rw [if_pos (show (Attribute.ofIdentity x.1 x.2).identity ∈ _ from hm)]
      cases hf : (setAll pairs).identities.find? f with
      | some i => rfl
      | none =>
        have hx := List.find?_eq_none.mp hf x.1 hm
        rw [List.map_singleton, List.find?_cons_of_neg hx, List.find?_nil]
        rfl
    · rw [if_neg (show (Attribute.ofIdentity x.1 x.2).identity ∉ _ from hm), List.find?_append]
      rfl

/-- No identity is there but those that were set. -/
theorem mem_identities_setAll {i : Option String × String} (h : i ∈ (setAll pairs).identities) :
    i ∈ pairs.map Prod.fst := by
  have hf : ((setAll pairs).identities.find? (· = i)).isSome = true :=
    List.find?_isSome.mpr ⟨i, h, by simp⟩
  rw [find?_identities_setAll] at hf
  obtain ⟨j, hj, hji⟩ := List.find?_isSome.mp hf
  rw [← of_decide_eq_true hji]
  exact hj

theorem nsPrefix_setAll {x : Attribute} (h : x ∈ (setAll pairs).toList) : x.nsPrefix = none := by
  induction pairs using List.reverseRecOn generalizing x with
  | nil => cases h
  | append_singleton pairs y ih =>
    rw [setAll_append] at h
    rcases mem_put h with ⟨z, hz, hp, _⟩ | rfl
    · rw [hp, ih hz]
    · rfl

/-! ## 4. Writing by name -/

/-- Two tests with the same first match replace the same. -/
theorem replaceFirst?_congr {as : List Attribute} (h : ∀ x ∈ as, q x = true → p x = true)
    (hf : ∀ b, as.find? p = some b → q b = true) :
    replaceFirst? p v as = replaceFirst? q v as := by
  induction as with
  | nil => rfl
  | cons b as ih =>
    by_cases hb : p b = true
    · have hq := hf b (List.find?_cons_of_pos hb)
      simp only [replaceFirst?, hb, hq, if_true]
    · have hq : ¬ q b = true := fun hq => hb (h b List.mem_cons_self hq)
      rw [List.find?_cons_of_neg hb] at hf
      simp only [replaceFirst?, hb, hq, ih (fun x hx => h x (List.mem_cons_of_mem _ hx)) hf]

/-- **Among attributes without prefix, a write by name goes to the first attribute of that local name,
    or else makes a plain one.** -/
theorem set_eq_setNs (h : ∀ x ∈ l.toList, x.nsPrefix = none) (name value : String) :
    (l.set name value).2 = (l.setNs (.ofIdentity
      ((l.identities.find? fun i => i.2 = name).getD (none, name)) value)).2 := by
  have hnamed : ∀ x ∈ l.toList, x.isNamed name = decide (x.identity.2 = name) :=
    fun x hx => Attribute.isNamed_of_no_prefix (h x hx) name
  have hfind : l.identities.find? (fun i => i.2 = name) =
      (l.toList.find? (Attribute.isNamed name)).map Attribute.identity := by
    rw [identities, List.find?_map, List.find?_congr hnamed]
    rfl
  let i := (l.identities.find? fun i => i.2 = name).getD (none, name)
  have hi : i.2 = name := by
    cases hf : l.identities.find? fun i => i.2 = name with
    | none => simp only [i, hf, Option.getD_none]
    | some j =>
      simp only [i, hf, Option.getD_some]
      have hj := List.find?_some hf
      exact of_decide_eq_true hj
  have hr : replaceFirst? (Attribute.isNamed name) value l.toList =
      replaceFirst? (Attribute.isIdentified i.1 i.2) value l.toList := by
    refine replaceFirst?_congr (fun x hx hq => ?_) fun b hb => ?_
    · rw [hnamed x hx, Attribute.isIdentified_iff.mp hq]
      exact decide_eq_true hi
    · refine Attribute.isIdentified_iff.mpr ?_
      simp only [i, hfind, hb, Option.map_some, Option.getD_some]
  show (l.put (Attribute.isNamed name) (.plain name value)).2 =
    (l.put (Attribute.isIdentified i.1 i.2) (.ofIdentity i value)).2
  unfold put
  rw [show (Attribute.plain name value).value = value from rfl, hr,
    show (Attribute.ofIdentity i value).value = value from rfl]
  cases hv : replaceFirst? (Attribute.isIdentified i.1 i.2) value l.toList with
  | some r => rfl
  | none =>
    -- nothing has the name, so the attribute that is appended is plain either way
    have hn : l.toList.find? (Attribute.isNamed name) = none := by
      rw [hv, replaceFirst?_eq_none_iff] at hr
      exact find?_of_forall_false hr
    have hin : i = (none, name) := by
      simp only [i, hfind, hn, Option.map_none, Option.getD_none]
    rw [hin]
    rfl

end AttributeList

end DomBuilder
