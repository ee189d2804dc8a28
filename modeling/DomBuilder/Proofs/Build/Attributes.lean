import DomBuilder.Proofs.Attributes
import DomBuilder.Proofs.Build.Effect

/-!
# The attributes of what was built

Each key of a build names an attribute by namespace and local name. A key in a namespace is set by both, a
plain key by the name alone, so a plain key can come upon an attribute that is in a namespace. This file
fixes when it does:

* `AttributeKey.target`: the namespace and the local name that a key denotes;
* `slot`: the attribute that a key goes to. It is the one it denotes, but for a plain key whose name
  was first set in a namespace: such a key goes there;
* `setKeys_eq`: the keys of a build set the values of their slots, one after another;
* `Unshadowed`: no name was set in a namespace before it was set plainly;
* `attributes_build`: the new element has exactly the attributes of the slots, each with its last value,
  and these are the attributes that the keys denote exactly if the keys are unshadowed.
-/

namespace DomBuilder

/-! ## 1. What a key denotes and where it goes -/

/-- The namespace and the local name of the attribute that a key denotes on an element, of HTML or not. -/
def AttributeKey.target (c : Config) (html : Bool) (key : String) : Option String × String :=
  match (ofKey key).nsUri c with
  | some uri => (some uri, (ofKey key).localName)
  | none => (none, if html then (ofKey key).localName.toLower else (ofKey key).localName)

/-- What the keys of a build denote, in order, with their values. -/
def Leaf.targets (c : Config) (html : Bool) (leaves : List Leaf) :
    List ((Option String × String) × String) :=
  (leaves.flatMap entries).map fun (key, value) => (AttributeKey.target c html key, value)

namespace AttributeList

/-- Where a key goes that denotes `i`, when the keys of the call denote `all`: to `i`, or, if `i` is
    plain, to the first of them with its name. -/
def slot (all : List (Option String × String)) (i : Option String × String) :
    Option String × String :=
  match i.1 with
  | some _ => i
  | none => (all.find? fun j => j.2 = i.2).getD i

/-- The slots of keys, in order, with their values. -/
def slots (pairs : List ((Option String × String) × String)) :
    List ((Option String × String) × String) :=
  pairs.map fun (i, value) => (slot (pairs.map Prod.fst) i, value)

/-- The first of a name is plain, if any of that name is. -/
def Unshadowed (all : List (Option String × String)) : Prop :=
  ∀ name, (none, name) ∈ all → all.find? (fun j => j.2 = name) = some (none, name)

variable {all : List (Option String × String)} {i : Option String × String}

theorem snd_slot (all : List (Option String × String)) (i : Option String × String) :
    (slot all i).2 = i.2 := by
  unfold slot
  cases hi : i.1 with
  | some uri => rfl
  | none =>
    simp only
    cases hf : all.find? fun j => j.2 = i.2 with
    | none => rfl
    | some j =>
      have hj := List.find?_some hf
      exact of_decide_eq_true hj

/-- Of a name that occurs, a key more does not change the first. -/
theorem slot_append (hi : i ∈ all) (x : Option String × String) : slot (all ++ [x]) i = slot all i := by
  unfold slot
  cases i.1 with
  | some uri => rfl
  | none =>
    have hs : (all.find? fun j => j.2 = i.2).isSome = true :=
      List.find?_isSome.mpr ⟨i, hi, by simp⟩
    obtain ⟨j, hj⟩ := Option.isSome_iff_exists.mp hs
    simp only [List.find?_append, hj, Option.some_or]

theorem slots_append (pairs : List ((Option String × String) × String))
    (x : (Option String × String) × String) :
    slots (pairs ++ [x]) = slots pairs ++ [(slot (pairs.map Prod.fst ++ [x.1]) x.1, x.2)] := by
  unfold slots
  rw [List.map_append, List.map_append]
  refine congrArg (· ++ _) (List.map_congr_left fun y hy => ?_)
  exact Prod.ext (slot_append (List.mem_map_of_mem hy) x.1) rfl

/-- The first slot of a name is the first that is denoted. -/
theorem find?_slots (pairs : List ((Option String × String) × String)) (name : String) :
    ((slots pairs).map Prod.fst).find? (fun j => j.2 = name) =
      (pairs.map Prod.fst).find? fun j => j.2 = name := by
  have hm : (slots pairs).map Prod.fst = (pairs.map Prod.fst).map (slot (pairs.map Prod.fst)) := by
    rw [slots, List.map_map, List.map_map]
    rfl
  rw [hm, List.find?_map]
  have hp : (fun j : Option String × String => decide (j.2 = name)) ∘ slot (pairs.map Prod.fst) =
      fun j => decide (j.2 = name) := by
    funext j
    simp only [Function.comp, snd_slot]
  rw [hp]
  cases hf : (pairs.map Prod.fst).find? fun j => j.2 = name with
  | none => rfl
  | some j =>
    have hj := List.find?_some hf
    have hj : j.2 = name := of_decide_eq_true hj
    rw [Option.map_some]
    unfold slot
    cases j.1 with
    | some uri => rfl
    | none => simp only [hj, hf, Option.getD_some]

/-! ## 2. Keys as writes to slots -/

/-- A key goes to its slot. -/
theorem setKey_setAll (c : Config) (html : Bool) (key value : String)
    (pairs : List ((Option String × String) × String)) :
    (setAll (slots pairs)).setKey c html key value =
      setAll (slots (pairs ++ [(AttributeKey.target c html key, value)])) := by
  rw [slots_append, setAll_append]
  unfold setKey AttributeKey.target
  cases (AttributeKey.ofKey key).nsUri c with
  | some uri => rfl
  | none =>
    simp only
    rw [set_eq_setNs (fun x hx => nsPrefix_setAll hx), find?_identities_setAll, find?_slots]
    simp only [slot, List.find?_append]
    cases (pairs.map Prod.fst).find? fun j => j.2 =
      if html then (AttributeKey.ofKey key).localName.toLower else (AttributeKey.ofKey key).localName
    · simp
    · rfl

/-- **The keys of a build set the values of their slots.** -/
theorem setKeys_eq (c : Config) (html : Bool) (entries : List (String × String)) :
    setKeys c html {} entries =
      setAll (slots (entries.map fun (key, value) => (AttributeKey.target c html key, value))) := by
  induction entries using List.reverseRecOn with
  | nil => rfl
  | append_singleton entries x ih =>
    rw [setKeys, List.foldl_append]
    show (setKeys c html {} entries).setKey c html x.1 x.2 = _
    rw [ih, setKey_setAll, List.map_append]
    rfl

/-! ## 3. Slots and targets -/

theorem slot_of_unshadowed (h : Unshadowed all) (hi : i ∈ all) : slot all i = i := by
  obtain ⟨u, name⟩ := i
  cases u with
  | some uri => rfl
  | none => rw [slot, h name hi]; rfl

theorem slots_of_unshadowed {pairs : List ((Option String × String) × String)}
    (h : Unshadowed (pairs.map Prod.fst)) : slots pairs = pairs := by
  unfold slots
  conv => rhs; rw [← List.map_id pairs]
  exact List.map_congr_left fun y hy =>
    Prod.ext (slot_of_unshadowed h (List.mem_map_of_mem hy)) rfl

/-- A plain slot is the slot of a plain key that is not shadowed. -/
theorem find?_of_slot_eq {name : String} (hi : i ∈ all) (h : slot all i = (none, name)) :
    all.find? (fun j => j.2 = name) = some (none, name) := by
  have hn : i.2 = name := by rw [← snd_slot all i, h]
  unfold slot at h
  cases hu : i.1 with
  | some uri =>
    rw [hu] at h
    simp only at h
    rw [h] at hu
    cases hu
  | none =>
    rw [hu] at h
    simp only [hn] at h
    cases hf : all.find? fun j => j.2 = name with
    | none =>
      have hx := List.find?_eq_none.mp hf i hi
      rw [hn] at hx
      simp at hx
    | some j =>
      rw [hf] at h
      rw [← h]
      rfl

end AttributeList

namespace Document

open AttributeList

variable {c : Config} {e : NodeId} {d d' : Document}

/-! ## 4. The attributes of the new element -/

/-- The attributes of `e` are those of the pairs, each with its last value. -/
def Carries (d : Document) (e : NodeId) (pairs : List ((Option String × String) × String)) : Prop :=
  (∀ i v, lastValue pairs i = some v → d.getAttributeNs e i.1 i.2 = some v) ∧
  ∃ l, d.attributes? e = some l ∧ ∀ a ∈ l.toList, (a.nsUri, a.localName) ∈ pairs.map Prod.fst

theorem carries_setAll {pairs : List ((Option String × String) × String)}
    (h : d.attributes? e = some (setAll pairs)) : Carries d e pairs := by
  refine ⟨fun i v hv => ?_, setAll pairs, h, fun a ha => ?_⟩
  · rw [getAttributeNs, h, ← hv, ← getNs?_setAll]
    rfl
  · exact mem_identities_setAll (List.mem_map.mpr ⟨a, ha, rfl⟩)

/-- What holds the slots holds what is denoted exactly if nothing is shadowed. -/
theorem carries_iff_unshadowed {pairs : List ((Option String × String) × String)}
    (h : d.attributes? e = some (setAll (slots pairs))) :
    Carries d e pairs ↔ Unshadowed (pairs.map Prod.fst) := by
  constructor
  · intro hc name hm
    obtain ⟨v, hv⟩ := exists_lastValue_iff.mpr hm
    have hg := hc.1 _ v hv
    rw [getAttributeNs, h] at hg
    have hl : lastValue (slots pairs) (none, name) = some v := by
      rw [← getNs?_setAll]
      exact hg
    obtain ⟨y, hy, hyi⟩ := List.mem_map.mp (exists_lastValue_iff.mp ⟨v, hl⟩)
    obtain ⟨x, hx, rfl⟩ := List.mem_map.mp hy
    exact find?_of_slot_eq (List.mem_map_of_mem hx) hyi
  · intro hu
    rw [slots_of_unshadowed hu] at h
    exact carries_setAll h

/-- **What was built has exactly the attributes of the slots of its keys, each with its last value. These
    are the attributes that the keys denote exactly if the keys are unshadowed.** The id of the new
    element has to fit the word. -/
theorem attributes_build {b : Builder} {calls : List Action} {tag : String} {content : Argument}
    (hd : b.document = fresh.after calls) (hb : (b.build tag content).result = .ok e)
    (hd' : (b.build tag content).builder.document = d') (hsize : b.document.size < UInt32.size) :
    let targets :=
      Leaf.targets b.config (decide (d'.nsUri? e = some Namespace.html)) content.leaves
    Carries d' e (slots targets) ∧
      (Carries d' e targets ↔ Unshadowed (targets.map Prod.fst)) := by
  intro targets
  have ht : Tabled b.document := hd ▸ tabled_after calls
  have hrun := Builder.run_createWith_of_build hb
  rw [hd'] at hrun
  obtain ⟨el, hel, hl⟩ := (built_of_createWith hsize hrun).element
  have ha : d'.attributes? e = some (setAll (slots targets)) := by
    rw [attributes?, hel, Option.map_some, hl, setKeys_eq,
      (ht.edits (edits_of_createWith hrun)).isHtml_iff_nsUri? hel]
    rfl
  exact ⟨carries_setAll ha, carries_iff_unshadowed ha⟩

/-- A plain link and one in a namespace, in this order, and both are there. -/
theorem attributes_build_link :
    let content := Argument.list [.attributes ⟨[("href", "/a"), ("xlink:href", "/b")], none⟩,
      .text "c", .attributes ⟨[("HREF", "/d"), ("_", "e")], none⟩]
    Carries (({} : Builder).build "a" content).builder.document ⟨1⟩
      [((none, "href"), "/a"), ((some Namespace.xlink, "href"), "/b"), ((none, "href"), "/d"),
        ((none, "class"), "e")] := by
  intro content
  have hb : (({} : Builder).build "a" content).result = .ok ⟨1⟩ := by decide +kernel
  have ht : Leaf.targets Config.default (decide ((({} : Builder).build "a"
      content).builder.document.nsUri? ⟨1⟩ = some Namespace.html)) content.leaves =
      [((none, "href"), "/a"), ((some Namespace.xlink, "href"), "/b"), ((none, "href"), "/d"),
        ((none, "class"), "e")] := by decide +kernel
  generalize hd' : (({} : Builder).build "a" content).builder.document = d' at ht ⊢
  have hf : ({} : Builder).document = fresh.after [] := rfl
  obtain ⟨_, hiff⟩ := attributes_build hf hb hd' (by decide)
  rw [ht] at hiff
  refine hiff.mpr fun name hn => ?_
  have hn : name = "href" ∨ name = "class" := by simpa using hn
  rcases hn with rfl | rfl <;> decide

/-- The same two links the other way round: the plain key goes to the attribute in the namespace, and
    there is no plain attribute. -/
theorem not_carries_shadowed :
    let content := Argument.attributes ⟨[("xlink:href", "/b"), ("href", "/a")], none⟩
    let out := ({} : Builder).build "a" content
    out.result = .ok ⟨1⟩ ∧ ¬ Carries out.builder.document ⟨1⟩ (Leaf.targets Config.default
      (decide (out.builder.document.nsUri? ⟨1⟩ = some Namespace.html)) content.leaves) := by
  intro content out
  refine ⟨by decide +kernel, fun h => ?_⟩
  have hv := h.1 (none, "href") "/a" (by decide +kernel)
  have hn : out.builder.document.getAttributeNs ⟨1⟩ none "href" = none := by decide +kernel
  rw [hn] at hv
  cases hv

end Document

end DomBuilder
