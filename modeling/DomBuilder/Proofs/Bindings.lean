import DomBuilder.PrefixTable
import Mathlib.Data.List.Induction

/-!
# Bindings by lists of pairs

Keys are bound by pairs, one after another, and the last pair of a key counts. This file fixes what a list
of pairs binds, and what the tables of prefixes bind that are made of such lists:

* `lastValue`: the value of the last pair with a key; `lastValue_eq_some_iff`: where no key comes twice, it
  is the value of the key's only pair;
* `PrefixTable.get?_default`: the three prefixes that the default table binds;
* `PrefixTable.get?_extend`: pairs over a table bind the last URI of a prefix, or else leave what the table
  binds;
* `PrefixTable.lastValue_toList`: a table binds what the pairs of its listing do, so the listing determines
  the table (`toList_injective`).
-/

namespace DomBuilder

/-! ## 1. Lists of pairs -/

/-- The value of the last pair with this key. -/
def lastValue {κ : Type} [DecidableEq κ] (pairs : List (κ × String)) (k : κ) : Option String :=
  pairs.reverse.lookup k

section LastValue

variable {κ : Type} [DecidableEq κ]

theorem lastValue_append (pairs : List (κ × String)) (k i : κ) (v : String) :
    lastValue (pairs ++ [(k, v)]) i = if i = k then some v else lastValue pairs i := by
  rw [lastValue, List.reverse_append, List.reverse_singleton, List.singleton_append, List.lookup_cons]
  by_cases h : i = k
  · rw [if_pos h, beq_iff_eq.mpr h]
  · rw [if_neg h, beq_eq_false_iff_ne.mpr h]
    rfl

/-- There is a last value exactly for the keys that occur. -/
theorem exists_lastValue_iff {pairs : List (κ × String)} {k : κ} :
    (∃ v, lastValue pairs k = some v) ↔ k ∈ pairs.map Prod.fst := by
  induction pairs using List.reverseRecOn with
  | nil => simp [lastValue]
  | append_singleton pairs x ih =>
    obtain ⟨i, v⟩ := x
    rw [List.map_append, List.mem_append, ← ih]
    simp only [lastValue_append]
    by_cases h : k = i
    · simp [h]
    · simp [h]

/-- Where no key comes twice, the order of the pairs does not matter. -/
theorem lastValue_eq_some_iff {pairs : List (κ × String)}
    (hd : pairs.Pairwise fun m n => m.1 ≠ n.1) {k : κ} {v : String} :
    lastValue pairs k = some v ↔ (k, v) ∈ pairs := by
  induction pairs using List.reverseRecOn with
  | nil => simp [lastValue]
  | append_singleton pairs x ih =>
    obtain ⟨i, u⟩ := x
    obtain ⟨hpairs, -, hx⟩ := List.pairwise_append.mp hd
    rw [lastValue_append, List.mem_append, List.mem_singleton, ← ih hpairs]
    by_cases h : k = i
    · subst h
      have hno : lastValue pairs k ≠ some v := fun hl =>
        hx (k, v) ((ih hpairs).mp hl) (k, u) (List.mem_singleton_self _) rfl
      simp [hno, eq_comm]
    · simp [h]

end LastValue

/-! ## 2. Tables -/

namespace PrefixTable

variable {t u : PrefixTable} {p uri : String}

/-- The URI of a prefix that the default table binds. -/
def defaultUri? (p : String) : Option String :=
  if p = "svg" then some Namespace.svg
  else if p = "html" then some Namespace.html
  else if p = "xlink" then some Namespace.xlink
  else none

/-- **The default table binds its three prefixes and no other.** -/
theorem get?_default (p : String) : default.get? p = defaultUri? p := by
  simp only [default, extend_cons, extend_nil, get?_set, get?_empty, defaultUri?, eq_comm (b := p)]
  by_cases h1 : p = "svg"
  · subst h1
    rfl
  · by_cases h2 : p = "html"
    · subst h2
      rfl
    · simp only [if_neg h1, if_neg h2]

theorem extend_append (t : PrefixTable) (ms ns : List (String × String)) :
    t.extend (ms ++ ns) = (t.extend ms).extend ns :=
  List.foldl_append

/-- **Pairs over a table bind the last URI of a prefix, or else leave what the table binds.** -/
theorem get?_extend (t : PrefixTable) (pairs : List (String × String)) (p : String) :
    (t.extend pairs).get? p = (lastValue pairs p).or (t.get? p) := by
  induction pairs using List.reverseRecOn with
  | nil => rfl
  | append_singleton pairs m ih =>
    rw [extend_append, extend_cons, extend_nil, get?_set, lastValue_append, ih]
    by_cases h : m.1 = p
    · rw [if_pos h, if_pos h.symm, Option.some_or]
    · rw [if_neg h, if_neg fun e => h e.symm]

theorem mem_toList_iff : (p, uri) ∈ t.toList ↔ t.get? p = some uri :=
  Std.ExtTreeMap.mem_toList_iff_getElem?_eq_some

/-- No prefix is listed twice. -/
theorem pairwise_toList (t : PrefixTable) : t.toList.Pairwise fun m n => m.1 ≠ n.1 :=
  Std.ExtTreeMap.distinct_keys_toList.imp fun h e => h (Std.compare_eq_iff_eq.mpr e)

/-- The listing of a table binds what the table does. -/
theorem lastValue_toList (t : PrefixTable) (p : String) : lastValue t.toList p = t.get? p :=
  Option.ext fun _ => (lastValue_eq_some_iff t.pairwise_toList).trans mem_toList_iff

/-- A table is known by its listing. -/
theorem toList_injective (h : t.toList = u.toList) : t = u :=
  ext_get? fun p => by rw [← lastValue_toList, h, lastValue_toList]

theorem get?_ofOverrides (pairs : List (String × String)) (p : String) :
    (ofOverrides pairs).get? p = (lastValue pairs p).or (defaultUri? p) := by
  rw [ofOverrides, get?_extend, get?_default]

end PrefixTable

end DomBuilder
