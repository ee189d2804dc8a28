import DomBuilder.Proofs.Json.Written
import DomBuilder.Proofs.Bindings

/-!
# One configuration, one text

A configuration comes about by changes, one after another, and different changes may lead to the same one.
This file fixes that its JSON text tells what was arrived at, and nothing of how:

* `Change`, `Config.changed`: one change, and a configuration after any number of them;
* `elementNamespace_changed`, `get?_changed`: the last namespace stays, and the last URI of each prefix;
* `write_injective`: different configurations have different texts. The readers take the two members off
  the text one after the other, so no mark inside a string is taken for one between strings;
* `toJson_changed_eq_iff`: the texts of two runs of changes are the same exactly if the runs end in the
  same namespace and the same URI for every prefix.
-/

namespace DomBuilder

/-! ## 1. Changes -/

/-- One change to a configuration or to its table. -/
inductive Change where
  | withNamespace (ns : String)
  | withPrefix (p uri : String)
  | insert (p uri : String)
  | extend (pairs : List (String × String))

namespace Change

def apply (c : Config) : Change → Config
  | withNamespace ns => c.withNamespace ns
  | withPrefix p uri => c.withPrefix p uri
  | insert p uri => { c with prefixes := (c.prefixes.insert p uri).2 }
  | extend pairs => { c with prefixes := c.prefixes.extend pairs }

/-- The namespace that is set, if it is. -/
def elementNamespace? : Change → Option String
  | withNamespace ns => some ns
  | _ => none

/-- What is bound, in order. -/
def pairs : Change → List (String × String)
  | withNamespace _ => []
  | withPrefix p uri => [(p, uri)]
  | insert p uri => [(p, uri)]
  | extend pairs => pairs

theorem elementNamespace_apply (c : Config) (x : Change) :
    (x.apply c).elementNamespace = x.elementNamespace?.or c.elementNamespace := by
  cases x <;> rfl

theorem prefixes_apply (c : Config) (x : Change) :
    (x.apply c).prefixes = c.prefixes.extend x.pairs := by
  cases x <;> rfl

end Change

namespace Config

open Json

/-- The configuration after the changes, in order. -/
def changed (c : Config) (changes : List Change) : Config := changes.foldl Change.apply c

/-- The last namespace stays. -/
theorem elementNamespace_changed (c : Config) (changes : List Change) :
    (c.changed changes).elementNamespace =
      (changes.filterMap Change.elementNamespace?).getLast?.or c.elementNamespace := by
  induction changes using List.reverseRecOn with
  | nil => rfl
  | append_singleton changes x ih =>
    have hlast : (c.changed (changes ++ [x])).elementNamespace =
        x.elementNamespace?.or (c.changed changes).elementNamespace := by
      rw [changed, List.foldl_append]
      exact x.elementNamespace_apply _
    rw [hlast, ih, List.filterMap_append, List.getLast?_append, Option.or_assoc]
    cases hx : x.elementNamespace? <;> simp [hx]

theorem prefixes_changed (c : Config) (changes : List Change) :
    (c.changed changes).prefixes = c.prefixes.extend (changes.flatMap Change.pairs) := by
  induction changes generalizing c with
  | nil => rfl
  | cons x changes ih =>
    rw [changed, List.foldl_cons, ← changed, ih, Change.prefixes_apply, List.flatMap_cons,
      PrefixTable.extend_append]

/-- The last URI of each prefix stays. -/
theorem get?_changed (c : Config) (changes : List Change) (p : String) :
    (c.changed changes).prefixes.get? p =
      (lastValue (changes.flatMap Change.pairs) p).or (c.prefixes.get? p) := by
  rw [prefixes_changed, PrefixTable.get?_extend]

/-! ## 2. Texts -/

/-- **Different configurations have different texts.** -/
theorem write_injective {c c' : Config} (h : c.write = c'.write) : c = c' := by
  have hmembers : writeOption c.elementNamespace ++
      ',' :: (writeString "namespaces" ++ ':' :: (c.prefixes.write ++ ['\x7d'])) =
        writeOption c'.elementNamespace ++
          ',' :: (writeString "namespaces" ++ ':' :: (c'.prefixes.write ++ ['\x7d'])) :=
    (List.cons.inj (List.append_cancel_left (List.cons.inj h).2)).2
  have hread := congrArg readOption hmembers
  rw [readOption_write, readOption_write] at hread
  obtain ⟨hname, hrest⟩ := Prod.mk.inj (Except.ok.inj hread)
  have htables : c.prefixes.write ++ ['\x7d'] = c'.prefixes.write ++ ['\x7d'] :=
    (List.cons.inj (List.append_cancel_left (List.cons.inj hrest).2)).2
  have hobject := congrArg readObject htables
  rw [readObject_write, readObject_write] at hobject
  have hlist := (Prod.mk.inj (Except.ok.inj hobject)).1
  obtain ⟨n, t⟩ := c
  obtain ⟨n', t'⟩ := c'
  cases hname
  cases PrefixTable.toList_injective hlist
  rfl

theorem toJson_eq_iff {c c' : Config} : c.toJson = c'.toJson ↔ c = c' := by
  refine ⟨fun h => write_injective ?_, congrArg toJson⟩
  have hl := congrArg String.toList h
  rwa [toJson, toJson, String.toList_ofList, String.toList_ofList] at hl

/-- Configurations are the same that have the same namespace and bind alike. -/
theorem ext_iff_get? {c c' : Config} : c = c' ↔ c.elementNamespace = c'.elementNamespace ∧
    ∀ p, c.prefixes.get? p = c'.prefixes.get? p := by
  constructor
  · rintro rfl
    exact ⟨rfl, fun _ => rfl⟩
  · rintro ⟨hn, hp⟩
    obtain ⟨n, t⟩ := c
    obtain ⟨n', t'⟩ := c'
    cases hn
    cases PrefixTable.ext_get? hp
    rfl

/-- **The text tells what was arrived at, and nothing of how.** Two runs of changes, each from a table of
    its own, end in the same text exactly if they end in the same configuration, and that is exactly if they
    set the same namespace last and every prefix is left with the same URI. -/
theorem toJson_changed_eq_iff (t t' : PrefixTable) (changes changes' : List Change) :
    let c := changed { prefixes := t } changes
    let c' := changed { prefixes := t' } changes'
    (c.toJson = c'.toJson ↔ c = c') ∧
    (c = c' ↔
      (changes.filterMap Change.elementNamespace?).getLast? =
        (changes'.filterMap Change.elementNamespace?).getLast? ∧
      ∀ p, (lastValue (changes.flatMap Change.pairs) p).or (t.get? p) =
        (lastValue (changes'.flatMap Change.pairs) p).or (t'.get? p)) := by
  intro c c'
  refine ⟨toJson_eq_iff, ?_⟩
  rw [ext_iff_get?]
  simp only [c, c', elementNamespace_changed, get?_changed, Option.or_none]

end Config

end DomBuilder
