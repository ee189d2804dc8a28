import DomBuilder.Proofs.Config.Members
import DomBuilder.Proofs.Json.Written

/-!
# A configuration through its JSON text

Reading lays the prefixes of a text over the default table, so a text cannot unbind a default prefix.
This file fixes what becomes of a configuration that is written and read back:

* `PrefixTable.get?_ofOverrides_toList`: a table laid over the default one wins where it binds a prefix;
* `Config.overDefaults`, `Config.read_write`: what is written is read, with the default table under the
  prefixes;
* `Config.ofJson_toJson`: which configuration that is, when it is the one that was written, and that a
  second time nothing more changes.
-/

namespace DomBuilder

/-! ## 1. Tables over tables -/

namespace PrefixTable

theorem get?_ofOverrides_toList (t : PrefixTable) (p : String) :
    (ofOverrides t.toList).get? p = (t.get? p).or (defaultUri? p) := by
  rw [get?_ofOverrides, lastValue_toList]

/-- Over the default table all of its prefixes are bound. -/
theorem isSome_get?_ofOverrides_toList (t : PrefixTable) :
    ∀ p ∈ ["svg", "html", "xlink"], ((ofOverrides t.toList).get? p).isSome = true := by
  intro p hp
  have hdef : ∀ q ∈ ["svg", "html", "xlink"], (defaultUri? q).isSome = true := by decide
  rw [get?_ofOverrides_toList, Option.isSome_or, hdef p hp, Bool.or_true]

/-- **Over the default table a table stays as it is exactly if it binds the three prefixes.** -/
theorem ofOverrides_toList_eq_iff (t : PrefixTable) :
    ofOverrides t.toList = t ↔ ∀ p ∈ ["svg", "html", "xlink"], (t.get? p).isSome = true := by
  constructor
  · intro h
    have hall := t.isSome_get?_ofOverrides_toList
    rw [h] at hall
    exact hall
  · intro h
    refine ext_get? fun p => ?_
    rw [get?_ofOverrides_toList]
    cases hp : t.get? p with
    | some uri => rfl
    | none =>
      have hne : ∀ q ∈ ["svg", "html", "xlink"], p ≠ q := by
        rintro q hq rfl
        have hs := h p hq
        rw [hp] at hs
        cases hs
      rw [Option.none_or, defaultUri?, if_neg (hne _ (by decide)), if_neg (hne _ (by decide)),
        if_neg (hne _ (by decide))]

end PrefixTable

namespace Config

open Json

/-! ## 2. The whole text -/

/-- The configuration with its prefixes over the default table. -/
def overDefaults (c : Config) : Config :=
  { c with prefixes := .ofOverrides c.prefixes.toList }

theorem overDefaults_eq_iff (c : Config) :
    c.overDefaults = c ↔ ∀ p ∈ ["svg", "html", "xlink"], (c.prefixes.get? p).isSome = true := by
  rw [← c.prefixes.ofOverrides_toList_eq_iff]
  constructor
  · exact congrArg Config.prefixes
  · intro h
    rw [overDefaults, h]

/-- A configuration is written as an object of its two members. -/
theorem membersText_write (c : Config) :
    MembersText [.elementNamespace c.elementNamespace, .prefixes c.prefixes.toList] c.write := by
  refine ⟨[], c.write, [], blanks_nil, ?_, blanks_nil, (List.append_nil _).symm⟩
  have hn : (Member.elementNamespace c.elementNamespace).Text
      (writeString "namespace" ++ ':' :: writeOption c.elementNamespace) :=
    memberText_write "namespace" (optionText_write c.elementNamespace)
  have hp : (Member.prefixes c.prefixes.toList).Text
      (writeString "namespaces" ++ ':' :: c.prefixes.write) :=
    memberText_write "namespaces" (objectText_write c.prefixes)
  have h := ObjectText.filled (.more blanks_nil hn blanks_nil (.last blanks_nil hp blanks_nil))
  simpa [write] using h

/-- **What is written is read, with the default table under the prefixes.** -/
theorem read_write (c : Config) : read c.write = .ok c.overDefaults := by
  rw [read_of_text c.membersText_write]
  rfl

theorem ofJson_toJson_eq (c : Config) : ofJson c.toJson = .ok c.overDefaults := by
  rw [ofJson, toJson, String.toList_ofList, read_write]

/-- **A configuration that is written can be read.** The namespace comes back, and with the prefixes come
    the default ones that were not bound. So the configuration comes back as it was exactly if it binds the
    three default prefixes, and what came back once comes back as it is. -/
theorem ofJson_toJson (c : Config) :
    ∃ c', ofJson c.toJson = .ok c' ∧ c'.elementNamespace = c.elementNamespace ∧
      (∀ p, c'.prefixes.get? p = (c.prefixes.get? p).or (PrefixTable.defaultUri? p)) ∧
      (c' = c ↔ ∀ p ∈ ["svg", "html", "xlink"], (c.prefixes.get? p).isSome = true) ∧
      ofJson c'.toJson = .ok c' := by
  refine ⟨c.overDefaults, ofJson_toJson_eq c, rfl, c.prefixes.get?_ofOverrides_toList,
    c.overDefaults_eq_iff, ?_⟩
  have hbound : ∀ p ∈ ["svg", "html", "xlink"], (c.overDefaults.prefixes.get? p).isSome = true :=
    c.prefixes.isSome_get?_ofOverrides_toList
  rw [ofJson_toJson_eq, (overDefaults_eq_iff _).mpr hbound]

end Config

end DomBuilder
