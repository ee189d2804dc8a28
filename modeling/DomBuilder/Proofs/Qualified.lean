import DomBuilder.Proofs.Naming

/-!
# The grammar of qualified names

A qualified name is cut at its first colon. The whole name and the part behind that colon are held against
the production `Name`, and the part before it never is. This file fixes that nothing is missed by that:

* `NcName`, `Parts`: the grammar. A qualified name is a name without a colon, or two of them around one;
* `parts_iff`: the two checks and the cut accept this grammar. A prefix is valid because the name that it
  begins is, and has no colon because the cut is at the first one. So a name has its parts in one way;
* `Fits`: what a namespace asks of a name, with all four rules at once. `namespaceFault?` takes them one
  after the other and finds nothing if they all hold;
* `extract_cases`: outside the grammar the name is at fault, inside it at most the namespace;
* `extract_spec`: what is accepted, what comes of it, and which of the two faults is reported.
-/

namespace DomBuilder

namespace Name

/-! ## 1. The grammar -/

/-- The production `NCName`: a name without a colon. -/
def NcName (s : String) : Prop := isValid s = true ∧ ':' ∉ s.toList

/-- The production `QName`: `name` is a local name, or a prefix and a local name around a colon. -/
inductive Parts : String → Option String → String → Prop
  | plain {l : String} (hl : NcName l) : Parts l none l
  | prefixed {p l : String} (hp : NcName p) (hl : NcName l) : Parts (p ++ ":" ++ l) (some p) l

/-- What the grammar names is a valid name. -/
theorem Parts.isValid {name l : String} {p : Option String} (h : Parts name p l) :
    isValid name = true := by
  cases h with
  | plain hl => exact hl.1
  | prefixed hp hl => exact isValid_colon hp.1 hl.1

/-- The cut finds the parts that the grammar names. -/
theorem Parts.splitName_eq {name l : String} {p : Option String} (h : Parts name p l) :
    splitName name = .ok (p, l) := by
  cases h with
  | plain hl => exact splitName_of_not_mem hl.2
  | @prefixed q l hq hl =>
    have hcut := splitFirst_eq_some_iff.mpr ⟨toList_colon q l, hq.2⟩
    have hsound : ¬ (q = "" ∨ l = "" ∨ ':' ∈ l.toList) :=
      not_or.mpr ⟨ne_empty_of_isValid hq.1, not_or.mpr ⟨ne_empty_of_isValid hl.1, hl.2⟩⟩
    rw [splitName, hcut]
    simp only [if_neg hsound, (check_eq_ok_iff l).mpr hl.1]
    rfl

/-- **A valid name that is cut without a fault is one of the grammar, in these parts.** -/
theorem parts_iff {name l : String} {p : Option String} :
    Parts name p l ↔ isValid name = true ∧ splitName name = .ok (p, l) := by
  constructor
  · exact fun h => ⟨h.isValid, h.splitName_eq⟩
  · rintro ⟨hv, hs⟩
    rcases splitName_cases hs with ⟨rfl, rfl, hc⟩ | ⟨q, rfl, he, hq0, hq, hl, hlc⟩
    · exact .plain ⟨hv, hc⟩
    · obtain rfl : name = q ++ ":" ++ l := String.toList_injective (he.trans (toList_colon q l).symm)
      rw [String.append_assoc, isValid_append_iff hq0] at hv
      exact .prefixed ⟨hv.1, hq⟩ ⟨hl, hlc⟩

/-- A name has its parts in one way. -/
theorem Parts.unique {name l l' : String} {p p' : Option String} (h : Parts name p l)
    (h' : Parts name p' l') : p' = p ∧ l' = l := by
  have he := h'.splitName_eq.symm.trans h.splitName_eq
  cases he
  exact ⟨rfl, rfl⟩

/-! ## 2. Faults of the name -/

theorem invalidCharacter_of_check {name : String} {err : DomError} (h : check name = .error err) :
    err = .invalidCharacter name := by
  unfold check at h
  by_cases hv : Name.isValid name = true
  · rw [if_pos hv] at h
    cases h
  · rw [if_neg hv] at h
    cases h
    rfl

/-- A name that is not cut has a fault of its own, and so has a part that is not valid. -/
theorem invalidCharacter_of_splitName {name : String} {err : DomError}
    (h : splitName name = .error err) : ∃ shown, err = .invalidCharacter shown := by
  unfold splitName at h
  cases hs : Text.splitFirst ':' name with
  | none =>
    rw [hs] at h
    cases h
  | some r =>
    obtain ⟨q, l⟩ := r
    rw [hs] at h
    simp only at h
    by_cases hf : q = "" ∨ l = "" ∨ ':' ∈ l.toList
    · rw [if_pos hf] at h
      cases h
      exact ⟨name, rfl⟩
    · rw [if_neg hf] at h
      cases hc : check l with
      | ok u =>
        rw [hc] at h
        cases h
      | error e =>
        rw [hc] at h
        cases h
        exact ⟨l, invalidCharacter_of_check hc⟩

/-! ## 3. The rules of namespaces -/

/-- The namespace suits the name: a prefix stands for one, the prefix `xml` for its own, and `xmlns` goes
    with its namespace and with no other. -/
structure Fits (nsUri : Option String) (name : String) (nsPrefix : Option String) : Prop where
  bound : nsPrefix.isSome → nsUri.isSome
  xml : nsPrefix = some "xml" → nsUri = some Namespace.xml
  xmlns : (name = "xmlns" ∨ nsPrefix = some "xmlns") ↔ nsUri = some Namespace.xmlns

theorem namespaceFault?_eq_none_iff {nsUri nsPrefix : Option String} {name : String} :
    namespaceFault? nsUri name nsPrefix = none ↔ Fits nsUri name nsPrefix := by
  unfold namespaceFault?
  by_cases h₁ : nsPrefix.isSome ∧ nsUri = none
  · rw [if_pos h₁]
    refine ⟨fun h => (by cases h), fun h => ?_⟩
    have := h.bound h₁.1
    rw [h₁.2] at this
    cases this
  rw [if_neg h₁]
  by_cases h₂ : nsPrefix = some "xml" ∧ nsUri ≠ some Namespace.xml
  · rw [if_pos h₂]
    exact ⟨fun h => (by cases h), fun h => absurd (h.xml h₂.1) h₂.2⟩
  rw [if_neg h₂]
  by_cases h₃ : (name = "xmlns" ∨ nsPrefix = some "xmlns") ↔ nsUri = some Namespace.xmlns
  · rw [if_pos h₃]
    refine ⟨fun _ => ⟨fun hp => ?_, fun hp => ?_, h₃⟩, fun _ => rfl⟩
    · exact Option.isSome_iff_ne_none.mpr fun hu => h₁ ⟨hp, hu⟩
    · exact Classical.byContradiction fun hu => h₂ ⟨hp, hu⟩
  · rw [if_neg h₃]
    exact ⟨fun h => (by cases h), fun h => absurd h.xmlns h₃⟩

end Name

/-! ## 4. The whole check -/

namespace QualifiedName

open Name (Parts Fits)

/-- Outside the grammar the name is at fault. Inside it the name is taken apart, or its namespace is at
    fault. -/
theorem extract_cases (nsUri : Option String) (name : String) :
    let uri := nsUri.filter (· ≠ "")
    ((∀ p l, ¬ Parts name p l) ∧ ∃ shown, extract nsUri name = .error (.invalidCharacter shown)) ∨
    ∃ p l, Parts name p l ∧
      ((Fits uri name p ∧ extract nsUri name = .ok ⟨uri, p, l⟩) ∨
       (¬ Fits uri name p ∧ ∃ fault, extract nsUri name = .error (.namespaceFault fault))) := by
  intro uri
  simp only [Name.parts_iff]
  unfold extract
  cases hc : Name.check name with
  | error err =>
    obtain rfl := Name.invalidCharacter_of_check hc
    refine .inl ⟨fun p l h => ?_, name, rfl⟩
    rw [(Name.check_eq_ok_iff name).mpr h.1] at hc
    cases hc
  | ok u =>
    have hv := (Name.check_eq_ok_iff name).mp hc
    cases hs : Name.splitName name with
    | error err =>
      obtain ⟨shown, rfl⟩ := Name.invalidCharacter_of_splitName hs
      exact .inl ⟨fun p l h => (by cases h.2), shown, rfl⟩
    | ok r =>
      obtain ⟨p, l⟩ := r
      refine .inr ⟨p, l, ⟨hv, rfl⟩, ?_⟩
      cases hf : Name.namespaceFault? uri name p with
      | none =>
        refine .inl ⟨Name.namespaceFault?_eq_none_iff.mp hf, ?_⟩
        simp only [bind, Except.bind, uri, hf]
        rfl
      | some fault =>
        refine .inr ⟨fun h => ?_, fault, ?_⟩
        · rw [Name.namespaceFault?_eq_none_iff.mpr h] at hf
          cases hf
        · simp only [bind, Except.bind, uri, hf]
          rfl

/-- **The check accepts the qualified names that fit their namespace, and no others.** The empty namespace
    is none. What comes of it is that namespace, and the parts of the name in the grammar. What is
    refused is refused for its characters exactly if it has no such parts, and for its namespace otherwise. -/
theorem extract_spec (nsUri : Option String) (name : String) :
    let uri := nsUri.filter (· ≠ "")
    ((∃ q, extract nsUri name = .ok q) ↔ ∃ p l, Parts name p l ∧ Fits uri name p) ∧
    (∀ q, extract nsUri name = .ok q → q.nsUri = uri ∧ Parts name q.nsPrefix q.localName) ∧
    ∀ err, extract nsUri name = .error err →
      ((∃ shown, err = .invalidCharacter shown) ↔ ¬ ∃ p l, Parts name p l) ∧
      ((∃ fault, err = .namespaceFault fault) ↔ ∃ p l, Parts name p l) := by
  intro uri
  rcases extract_cases nsUri name with ⟨hno, shown, he⟩ | ⟨p, l, hp, ⟨hf, he⟩ | ⟨hf, fault, he⟩⟩
  · have hnone : ¬ ∃ p l, Parts name p l := fun ⟨p, l, h⟩ => hno p l h
    rw [he]
    refine ⟨⟨fun ⟨_, h⟩ => (by cases h), fun ⟨p, l, h, _⟩ => absurd h (hno p l)⟩,
      fun _ h => (by cases h), fun err h => ?_⟩
    cases h
    exact ⟨⟨fun _ => hnone, fun _ => ⟨shown, rfl⟩⟩,
      ⟨fun ⟨_, h⟩ => (by cases h), fun h => absurd h hnone⟩⟩
  · rw [he]
    refine ⟨⟨fun _ => ⟨p, l, hp, hf⟩, fun _ => ⟨_, rfl⟩⟩, fun q h => ?_, fun _ h => (by cases h)⟩
    cases h
    exact ⟨rfl, hp⟩
  · rw [he]
    refine ⟨⟨fun ⟨_, h⟩ => (by cases h), fun ⟨p', l', hp', hf'⟩ => ?_⟩, fun _ h => (by cases h),
      fun err h => ?_⟩
    · rw [(hp.unique hp').1] at hf'
      exact absurd hf' hf
    · cases h
      exact ⟨⟨fun ⟨_, h⟩ => (by cases h), fun h => absurd ⟨p, l, hp⟩ h⟩,
        ⟨fun _ => ⟨p, l, hp⟩, fun _ => ⟨fault, rfl⟩⟩⟩

/-- A second colon is the name's fault, even where the prefix would have no namespace to stand for. -/
example : extract none "a:b:c" = .error (.invalidCharacter "a:b:c") ∧
    extract (some "") "a:b" = .error (.namespaceFault (.prefixUnbound "a:b")) ∧
    extract (some "u") "a:b" = .ok ⟨some "u", some "a", "b"⟩ :=
  ⟨rfl, rfl, rfl⟩

end QualifiedName

end DomBuilder
