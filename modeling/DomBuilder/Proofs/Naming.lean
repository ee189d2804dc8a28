import DomBuilder.AttributeKey
import DomBuilder.Name.Qualified

/-!
# Names that were taken apart

This file fixes what is known of a qualified name once its check has passed, and of the local name of
a key:

* `extract_eq_ok_iff`: the check passes exactly if the name is valid, its parts are those at its colon
  and no rule of namespaces is broken;
* `splitName_cases`: either there is no colon and no prefix, or the name is prefix, colon and local
  name, neither of which is empty or has a colon;
* `isValid_toLower`, `isValid_of_splitName`: the lowercase of a valid name is valid and has no capitals,
  and its local name is valid;
* `Spelled`: all characters of a text may stand in a name, as in a valid name. None of the characters that
  end a name in markup may stand in one. So a text that begins with a name is one if the rest is spelled
  (`isValid_append_iff`), and two names with a colon between them are one (`isValid_colon`);
* `colon_not_mem_ofKey`: a key is cut at its last colon, so its local name has none, and a namespaced
  attribute that is set by a key has no prefix (`extract_of_key`).
-/

namespace DomBuilder

namespace Name

theorem splitFirst_eq_none_iff {s : String} : Text.splitFirst ':' s = none ↔ ':' ∉ s.toList := by
  rw [Text.splitFirst, Option.map_eq_none_iff, Text.cutFirst_eq_none_iff]

theorem splitFirst_eq_some_iff {s p l : String} : Text.splitFirst ':' s = some (p, l) ↔
    s.toList = p.toList ++ ':' :: l.toList ∧ ':' ∉ p.toList := by
  rw [← Text.cutFirst_eq_some_iff, Text.splitFirst, Option.map_eq_some_iff]
  constructor
  · rintro ⟨⟨a, b⟩, hab, he⟩
    cases he
    rw [String.toList_ofList, String.toList_ofList, hab]
  · exact fun h => ⟨_, h, by simp only [String.ofList_toList]⟩

/-- A name without a colon is its own local name. -/
theorem splitName_of_not_mem {name : String} (h : ':' ∉ name.toList) :
    splitName name = .ok (none, name) := by
  rw [splitName, splitFirst_eq_none_iff.mpr h]

/-- The parts of a name, with its colon between them if it has a prefix. -/
theorem splitName_cases {name l : String} {p : Option String} (h : splitName name = .ok (p, l)) :
    (p = none ∧ l = name ∧ ':' ∉ name.toList) ∨
    (∃ q, p = some q ∧ name.toList = q.toList ++ ':' :: l.toList ∧ q ≠ "" ∧ ':' ∉ q.toList ∧
      isValid l = true ∧ ':' ∉ l.toList) := by
  unfold splitName at h
  cases hs : Text.splitFirst ':' name with
  | none =>
    rw [hs] at h
    cases h
    exact .inl ⟨rfl, rfl, splitFirst_eq_none_iff.mp hs⟩
  | some r =>
    obtain ⟨q, m⟩ := r
    obtain ⟨he, hq⟩ := splitFirst_eq_some_iff.mp hs
    rw [hs] at h
    simp only at h
    by_cases hf : q = "" ∨ m = "" ∨ ':' ∈ m.toList
    · rw [if_pos hf] at h
      cases h
    · rw [if_neg hf] at h
      obtain ⟨hq0, hm⟩ := not_or.mp hf
      cases hc : check m with
      | error x => rw [hc] at h; cases h
      | ok u =>
        rw [hc] at h
        cases h
        refine .inr ⟨q, rfl, he, hq0, hq, (check_eq_ok_iff _).mp hc, ?_⟩
        exact (not_or.mp hm).2

/-! ## 2. Characters of names -/

/-- All characters may stand in a name. -/
def Spelled (s : String) : Prop := ∀ c ∈ s.toList, isChar c = true

theorem spelled_of_isValid {s : String} (h : isValid s = true) : Spelled s := by
  intro c hc
  unfold isValid at h
  cases hs : s.toList with
  | nil => rw [hs] at hc; cases hc
  | cons x r =>
    rw [hs, isName_cons, Bool.and_eq_true] at h
    rw [hs] at hc
    rcases List.mem_cons.mp hc with rfl | hc
    · rw [isChar, h.1, Bool.true_or]
    · exact List.all_eq_true.mp h.2 c hc

/-- What begins a valid name, if anything does, is one, and only characters of names follow it. -/
theorem isValid_append_iff {p s : String} (hp : p ≠ "") :
    isValid (p ++ s) = true ↔ isValid p = true ∧ Spelled s := by
  unfold isValid Spelled
  rw [String.toList_append]
  cases hc : p.toList with
  | nil => exact absurd (String.toList_injective hc) hp
  | cons x r =>
    rw [List.cons_append, isName_cons, isName_cons, List.all_append, ← Bool.and_assoc, Bool.and_eq_true,
      List.all_eq_true]

theorem ne_empty_of_isValid {s : String} (h : isValid s = true) : s ≠ "" := by
  rintro rfl
  cases h

theorem toList_colon (p l : String) : (p ++ ":" ++ l).toList = p.toList ++ ':' :: l.toList := by
  rw [String.toList_append, String.toList_append, List.append_assoc]
  rfl

/-- Two valid names with a colon between them are a valid name. -/
theorem isValid_colon {p l : String} (hp : isValid p = true) (hl : isValid l = true) :
    isValid (p ++ ":" ++ l) = true := by
  rw [String.append_assoc, isValid_append_iff (ne_empty_of_isValid hp)]
  refine ⟨hp, fun c hc => ?_⟩
  rw [String.toList_append] at hc
  rcases List.mem_cons.mp hc with rfl | hc
  · decide
  · exact spelled_of_isValid hl c hc

/-- A capital letter becomes a small one, and any other character stays. -/
theorem toLower_cases (c : Char) :
    (c.toLower = c ∧ c.isUpper = false) ∨ (0x61 ≤ c.toLower.toNat ∧ c.toLower.toNat ≤ 0x7a) := by
  by_cases hu : c.val ≥ 'A'.val ∧ c.val ≤ 'Z'.val
  · have hv : c.toLower.val = c.val + ('a'.val - 'A'.val) := congrArg Char.val (dif_pos hu)
    have h1 : 65 ≤ c.val.toNat := UInt32.le_iff_toNat_le.mp hu.1
    have h2 : c.val.toNat ≤ 90 := UInt32.le_iff_toNat_le.mp hu.2
    have hn : c.toLower.toNat = c.val.toNat + 32 := by
      rw [Char.toNat, hv, UInt32.toNat_add]
      have h32 : ('a'.val - 'A'.val).toNat = 32 := by decide
      rw [h32]
      omega
    right
    omega
  · exact .inl ⟨dif_neg hu, decide_eq_false hu⟩

theorem isUpper_toLower (c : Char) : c.toLower.isUpper = false := by
  rcases toLower_cases c with ⟨e, hc⟩ | ⟨h, _⟩
  · rw [e]
    exact hc
  · refine decide_eq_false fun hu => ?_
    have hn : c.toLower.toNat ≤ 90 := UInt32.le_iff_toNat_le.mp hu.2
    omega

theorem isStart_of_small {c : Char} (h : 0x61 ≤ c.toNat ∧ c.toNat ≤ 0x7a) : isStart c = true := by
  refine List.any_eq_true.mpr ⟨(0x61, 0x7a), by decide, ?_⟩
  simpa using h

theorem isStart_toLower {c : Char} (h : isStart c = true) : isStart c.toLower = true := by
  rcases toLower_cases c with ⟨e, _⟩ | hc
  · rw [e]
    exact h
  · exact isStart_of_small hc

/-- The lowercase of a character of names is one. -/
theorem isChar_toLower {c : Char} (h : isChar c = true) : isChar c.toLower = true := by
  unfold isChar at h ⊢
  rcases toLower_cases c with ⟨e, _⟩ | hc
  · rw [e]
    exact h
  · rw [isStart_of_small hc, Bool.true_or]

theorem toList_toLower (s : String) : s.toLower.toList = s.toList.map Char.toLower := String.toList_map

/-- **The lowercase of a valid name is valid**, and has no capitals. -/
theorem isValid_toLower {s : String} (h : isValid s = true) :
    isValid s.toLower = true ∧ ∀ c ∈ s.toLower.toList, c.isUpper = false := by
  unfold isValid at h ⊢
  rw [toList_toLower]
  refine ⟨?_, fun c hc => ?_⟩
  · cases hs : s.toList with
    | nil => rw [hs] at h; cases h
    | cons x r =>
      rw [hs, isName_cons, Bool.and_eq_true] at h
      have hr : ∀ c ∈ r.map Char.toLower, isChar c = true := List.forall_mem_map.mpr fun c hc =>
        isChar_toLower (List.all_eq_true.mp h.2 c hc)
      rw [List.map_cons, isName_cons, isStart_toLower h.1, List.all_eq_true.mpr hr]
      rfl
  · obtain ⟨c₀, _, rfl⟩ := List.mem_map.mp hc
    exact isUpper_toLower c₀

/-- The local name of a valid name is valid. -/
theorem isValid_of_splitName {name l : String} {p : Option String} (hv : isValid name = true)
    (h : splitName name = .ok (p, l)) : isValid l = true := by
  rcases splitName_cases h with ⟨_, rfl, _⟩ | ⟨_, _, _, _, _, hl, _⟩
  · exact hv
  · exact hl

theorem isChar_delimiters :
    isChar ' ' = false ∧ isChar '>' = false ∧ isChar '=' = false ∧ isChar '/' = false := by
  decide

end Name

namespace QualifiedName

/-- **A name passes exactly if it is valid, has these parts and breaks no rule.** -/
theorem extract_eq_ok_iff {nsUri : Option String} {name : String} {q : QualifiedName} :
    extract nsUri name = .ok q ↔ Name.isValid name = true ∧
      Name.splitName name = .ok (q.nsPrefix, q.localName) ∧ q.nsUri = nsUri.filter (· ≠ "") ∧
      Name.namespaceFault? q.nsUri name q.nsPrefix = none := by
  unfold extract
  rw [← Name.check_eq_ok_iff]
  cases hc : Name.check name with
  | error x =>
    refine ⟨fun h => (by cases h), fun h => ?_⟩
    cases h.1
  | ok u =>
    cases hs : Name.splitName name with
    | error x =>
      refine ⟨fun h => (by cases h), fun h => ?_⟩
      cases h.2.1
    | ok r =>
      obtain ⟨p, l⟩ := r
      cases hf : Name.namespaceFault? (nsUri.filter (· ≠ "")) name p with
      | some x =>
        constructor
        · intro h
          simp only [bind, Except.bind, hf] at h
          cases h
        · rintro ⟨_, h, hu, h'⟩
          cases h
          rw [hu, hf] at h'
          cases h'
      | none =>
        constructor
        · intro h
          simp only [bind, Except.bind, hf] at h
          cases h
          exact ⟨rfl, rfl, rfl, hf⟩
        · rintro ⟨_, h, hu, h'⟩
          simp only [bind, Except.bind, hf]
          cases h
          rw [← hu]
          rfl

end QualifiedName

namespace AttributeKey

theorem colon_not_mem_unalias {s : String} (h : ':' ∉ s.toList) : ':' ∉ (unalias s).toList := by
  unfold unalias
  by_cases hc : classAliases.contains s = true
  · rw [if_pos hc]
    decide
  · rw [if_neg hc]
    exact h

/-- The local name of a key stands behind the last colon. -/
theorem colon_not_mem_ofKey (key : String) : ':' ∉ (ofKey key).localName.toList := by
  unfold ofKey Text.splitLast
  cases hk : Text.cutLast ':' key.toList with
  | none => exact colon_not_mem_unalias ((Text.cutLast_eq_none_iff ':' _).mp hk)
  | some r =>
    obtain ⟨a, b⟩ := r
    refine colon_not_mem_unalias ?_
    rw [String.toList_ofList]
    exact ((Text.cutLast_eq_some_iff ':' _ a b).mp hk).2

/-- A namespace that a key resolves to is not the empty one. -/
theorem nsUri_ne_empty {k : AttributeKey} {c : Config} {uri : String} (h : k.nsUri c = some uri) :
    uri ≠ "" := by
  obtain ⟨_, hne⟩ := Option.filter_eq_some_iff.mp h
  simpa using hne

/-- What a key names in a namespace has no prefix. -/
theorem extract_of_key {c : Config} {key uri : String} {q : QualifiedName}
    (hu : (ofKey key).nsUri c = some uri)
    (hq : QualifiedName.extract (some uri) (ofKey key).localName = .ok q) :
    q = ⟨some uri, none, (ofKey key).localName⟩ := by
  obtain ⟨_, hs, hn, _⟩ := QualifiedName.extract_eq_ok_iff.mp hq
  rw [Name.splitName_of_not_mem (colon_not_mem_ofKey key)] at hs
  have hf : (some uri).filter (fun s : String => s ≠ "") = some uri := by
    simp [nsUri_ne_empty hu]
  rw [hf] at hn
  cases q
  cases hs
  cases hn
  rfl

end AttributeKey

end DomBuilder
