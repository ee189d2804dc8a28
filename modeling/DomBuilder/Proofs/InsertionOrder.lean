import DomBuilder.AttributeMap
import DomBuilder.Proofs.Bindings

/-!
# Attribute maps in insertion order

An attribute map is made by inserting pairs, one by one or many at once, and a key that comes again
changes its value and not its place. This file fixes what a map is after any history:

* `put_fst`, `lookup_put`, `put_of_not_mem`: one pair more, read in three ways. It gives back the text that
  the key had, it changes no other text, and a new key goes to the end;
* `Filled`: the ways to make a map, each with the pairs that were inserted, in order;
* `Records`: what a map and its history have in common. Every insertion keeps it (`Records.set`), and so
  does every number of them (`Records.extend`);
* `ordered_of_filled`: the keys of a map are those of its history in the order of first insertion, and each
  has its last text.
-/

namespace DomBuilder

attribute [ext] AttributeMap

namespace AttributeMap

variable {m : AttributeMap} {pairs : List (String × String)} {key text k : String}

/-! ## 1. One pair more -/

theorem lookup_pair (key text : String) (l : List (String × String)) (k : String) :
    ((key, text) :: l).lookup k = if k = key then some text else l.lookup k := by
  rw [List.lookup_cons]
  by_cases h : k = key
  · rw [if_pos h, beq_iff_eq.mpr h]
  · rw [if_neg h, beq_eq_false_iff_ne.mpr h]

theorem put_fst (key text : String) (l : List (String × String)) :
    (put key text l).1 = l.lookup key := by
  induction l with
  | nil => rfl
  | cons e l ih =>
    rw [put, lookup_pair]
    by_cases h : e.1 = key
    · rw [if_pos h, if_pos h.symm]
    · rw [if_neg h, if_neg (Ne.symm h)]
      exact ih

theorem lookup_put (key text : String) (l : List (String × String)) (k : String) :
    (put key text l).2.lookup k = if k = key then some text else l.lookup k := by
  induction l with
  | nil => exact lookup_pair key text [] k
  | cons e l ih =>
    obtain ⟨k', t⟩ := e
    rw [put]
    by_cases he : k' = key
    · rw [if_pos he, he, lookup_pair, lookup_pair]
      by_cases hk : k = key
      · rw [if_pos hk, if_pos hk]
      · rw [if_neg hk, if_neg hk, if_neg hk]
    · rw [if_neg he, lookup_pair, lookup_pair, ih]
      by_cases hk : k = k'
      · rw [if_pos hk, if_pos hk, if_neg (hk ▸ he)]
      · rw [if_neg hk, if_neg hk]

/-- A new key goes to the end. -/
theorem put_of_not_mem {key : String} {l : List (String × String)} (h : key ∉ l.map Prod.fst)
    (text : String) : (put key text l).2 = l ++ [(key, text)] := by
  induction l with
  | nil => rfl
  | cons e l ih =>
    rw [List.map_cons, List.mem_cons, not_or] at h
    rw [put, if_neg (Ne.symm h.1), List.cons_append, ← ih h.2]

/-- An old key keeps its place. -/
theorem keys_put_of_mem {key : String} {l : List (String × String)} (h : key ∈ l.map Prod.fst)
    (text : String) : (put key text l).2.map Prod.fst = l.map Prod.fst := by
  induction l with
  | nil => cases h
  | cons e l ih =>
    rw [put]
    by_cases he : e.1 = key
    · rw [if_pos he]
      rfl
    · rw [List.map_cons, List.mem_cons] at h
      rw [if_neg he, List.map_cons, ih (h.resolve_left (Ne.symm he)), List.map_cons]

/-! ## 2. Histories -/

/-- The keys of a map in order. -/
def keys (m : AttributeMap) : List String := m.entries.map Prod.fst

/-- `m` was made by inserting these pairs, in this order. -/
inductive Filled : AttributeMap → List (String × String) → Prop where
  | empty : Filled empty []
  | ofText (s : String) : Filled (ofText s) []
  | ofList (pairs : List (String × String)) : Filled (ofList pairs) pairs
  | insert {m : AttributeMap} {pairs : List (String × String)} (h : Filled m pairs)
      (key text : String) : Filled (m.insert key text).2 (pairs ++ [(key, text)])
  | set {m : AttributeMap} {pairs : List (String × String)} (h : Filled m pairs)
      (key text : String) : Filled (m.set key text) (pairs ++ [(key, text)])
  | extend {m : AttributeMap} {pairs : List (String × String)} (h : Filled m pairs)
      (more : List (String × String)) : Filled (m.extend more) (pairs ++ more)

/-- What a map has from the pairs that it was made of. -/
structure Records (m : AttributeMap) (pairs : List (String × String)) : Prop where
  nodup : m.keys.Nodup
  keys : m.keys = (pairs.map Prod.fst).eraseDups
  texts : ∀ k, m.get? k = lastValue pairs k

theorem records_of_no_entries (h : m.entries = []) : Records m [] := by
  refine ⟨?_, ?_, fun k => ?_⟩
  · rw [AttributeMap.keys, h]
    exact List.nodup_nil
  · rw [AttributeMap.keys, h]
    rfl
  · rw [get?, h]
    rfl

/-- The first insertions with one more key behind: the key is new or not. -/
theorem eraseDups_concat (l : List String) (k : String) :
    (l ++ [k]).eraseDups = if k ∈ l.eraseDups then l.eraseDups else l.eraseDups ++ [k] := by
  rw [List.eraseDups_append]
  by_cases h : k ∈ l
  · rw [if_pos (List.mem_eraseDups.mpr h)]
    simp [List.removeAll, h]
  · rw [if_neg (mt List.mem_eraseDups.mp h)]
    simp [List.removeAll, h, List.eraseDups_cons]

/-- **One insertion keeps the record.** -/
theorem Records.set (h : Records m pairs) (key text : String) :
    Records (m.set key text) (pairs ++ [(key, text)]) := by
  have htexts : ∀ k, (m.set key text).get? k = lastValue (pairs ++ [(key, text)]) k := fun k => by
    rw [lastValue_append, ← h.texts]
    exact lookup_put key text m.entries k
  by_cases hk : key ∈ m.keys
  · have hkeys : (m.set key text).keys = m.keys := keys_put_of_mem hk text
    refine ⟨hkeys ▸ h.nodup, ?_, htexts⟩
    rw [hkeys, List.map_append, List.map_singleton, eraseDups_concat, ← h.keys, if_pos hk]
  · have hkeys : (m.set key text).keys = m.keys ++ [key] := by
      rw [AttributeMap.keys, show (m.set key text).entries = _ from put_of_not_mem hk text,
        List.map_append]
      rfl
    refine ⟨?_, ?_, htexts⟩
    · rw [hkeys, List.nodup_append]
      refine ⟨h.nodup, by simp, fun x hx y hy e => hk ?_⟩
      rw [List.mem_singleton] at hy
      rwa [e, hy] at hx
    · rw [hkeys, List.map_append, List.map_singleton, eraseDups_concat, ← h.keys, if_neg hk]

theorem extend_append (m : AttributeMap) (xs ys : List (String × String)) :
    m.extend (xs ++ ys) = (m.extend xs).extend ys := List.foldl_append

/-- **Any number of insertions keeps the record.** -/
theorem Records.extend (h : Records m pairs) (more : List (String × String)) :
    Records (m.extend more) (pairs ++ more) := by
  induction more generalizing m pairs with
  | nil =>
    rw [List.append_nil]
    exact h
  | cons e more ih =>
    have hset := ih (h.set e.1 e.2)
    rwa [List.append_assoc, List.singleton_append] at hset

theorem Filled.records (h : Filled m pairs) : Records m pairs := by
  induction h with
  | empty => exact records_of_no_entries rfl
  | ofText s => exact records_of_no_entries rfl
  | ofList pairs => exact (records_of_no_entries rfl).extend pairs
  | insert _ key text ih => exact ih.set key text
  | set _ key text ih => exact ih.set key text
  | extend _ more ih => exact ih.extend more

/-! ## 3. What a map is -/

/-- What a map stands for does not depend on its pairs. -/
theorem standsFor_extend (m : AttributeMap) (more : List (String × String)) :
    (m.extend more).standsFor = m.standsFor := by
  induction more generalizing m with
  | nil => rfl
  | cons e more ih => exact ih (m.set e.1 e.2)

/-- Where no key comes twice, looking up a key finds its only entry. -/
theorem lookup_eq_some_iff {l : List (String × String)} (h : (l.map Prod.fst).Nodup) {v : String} :
    l.lookup k = some v ↔ (k, v) ∈ l := by
  have hd : l.reverse.Pairwise fun x y => x.1 ≠ y.1 :=
    List.pairwise_reverse.mpr ((List.pairwise_map.mp h).imp Ne.symm)
  have hl := lastValue_eq_some_iff hd (k := k) (v := v)
  rwa [lastValue, List.reverse_reverse, List.mem_reverse] at hl

/-- Inserting entries with new keys puts them behind the others. -/
theorem entries_extend_of_nodup {more : List (String × String)}
    (h : ((m.entries ++ more).map Prod.fst).Nodup) : (m.extend more).entries = m.entries ++ more := by
  induction more generalizing m with
  | nil => rw [extend_nil, List.append_nil]
  | cons e more ih =>
    obtain ⟨key, text⟩ := e
    have hnew : key ∉ m.entries.map Prod.fst := by
      rw [List.map_append, List.nodup_append] at h
      exact fun hk => h.2.2 key hk key (by simp) rfl
    have hput : (m.set key text).entries = m.entries ++ [(key, text)] := put_of_not_mem hnew text
    rw [extend_cons, ih (by rwa [hput, List.append_assoc]), hput, List.append_assoc]
    rfl

/-- **An attribute map keeps its pairs in insertion order.** Whatever pairs it was made of and by which
    calls, its keys are different and come in the order of first insertion, and each has the text of its
    last pair; no other key has one. An insertion gives back the text that the key had. Inserting one list
    after another is inserting both as one, a map that stands for nothing is made again by collecting its
    entries, and no insertion changes what a map without keys reads as. -/
theorem ordered_of_filled (h : Filled m pairs) :
    m.keys.Nodup ∧ m.keys = (pairs.map Prod.fst).eraseDups ∧
      (∀ k v, (k, v) ∈ m.entries ↔ lastValue pairs k = some v) ∧
      (∀ k, m.get? k = lastValue pairs k) ∧ (∀ k, m.get? k = none ↔ k ∉ pairs.map Prod.fst) ∧
      (∀ key text, (m.insert key text).1 = m.get? key) ∧
      (∀ xs ys, (m.extend xs).extend ys = m.extend (xs ++ ys)) ∧
      (m.standsFor = none → ofList m.entries = m) ∧
      ∀ key text more, ∀ m' ∈ [(m.insert key text).2, m.set key text, m.extend more],
        m'.standsFor = m.standsFor ∧ m'.shownText = m.shownText := by
  have hr := h.records
  have hget : ∀ k, m.get? k = none ↔ k ∉ pairs.map Prod.fst := fun k => by
    rw [hr.texts, ← exists_lastValue_iff, Option.eq_none_iff_forall_ne_some, not_exists]
  refine ⟨hr.nodup, hr.keys, fun k v => ?_, hr.texts, hget, fun key text => put_fst key text m.entries,
    fun xs ys => (extend_append m xs ys).symm, fun hs => ?_, fun key text more m' hm' => ?_⟩
  · rw [← hr.texts]
    exact (lookup_eq_some_iff hr.nodup).symm
  · have hentries : (ofList m.entries).entries = m.entries :=
      entries_extend_of_nodup (m := empty) hr.nodup
    have hstands : (ofList m.entries).standsFor = m.standsFor :=
      (standsFor_extend empty m.entries).trans hs.symm
    exact AttributeMap.ext hentries hstands
  · have hstands : m'.standsFor = m.standsFor := by
      simp only [List.mem_cons, List.not_mem_nil, or_false] at hm'
      rcases hm' with rfl | rfl | rfl
      · rfl
      · rfl
      · exact standsFor_extend m more
    exact ⟨hstands, by rw [shownText, hstands]; rfl⟩

/-- A map that stands for a value, made by each kind of call: the first key comes twice more, and keeps its
    place in front. -/
theorem ordered_of_filled_reused :
    let m := ((((ofText "v").set "id" "x").extend [("class", "y"), ("id", "z")]).insert "id" "w").2
    m.entries = [("id", "w"), ("class", "y")] ∧ m.keys = ["id", "class"] ∧ m.get? "id" = some "w" ∧
      m.get? "title" = none ∧ (m.insert "class" "u").1 = some "y" ∧
      (m.extend [("title", "t")]).shownText = "v" := by
  intro m
  have hm : Filled m ([] ++ [("id", "x")] ++ [("class", "y"), ("id", "z")] ++ [("id", "w")]) :=
    (((Filled.ofText "v").set "id" "x").extend _).insert "id" "w"
  obtain ⟨_, hkeys, _, htexts, hnone, hinsert, _, _, hstands⟩ := ordered_of_filled hm
  refine ⟨by decide, hkeys.trans (by decide), (htexts "id").trans (by decide),
    (hnone "title").mpr (by decide), ?_, ?_⟩
  · rw [hinsert, htexts]
    decide
  · exact (hstands "" "" [("title", "t")] _ (by simp)).2.trans (by decide)

end AttributeMap

end DomBuilder
