import DomBuilder.Proofs.Links

/-!
# When an append is accepted, and what it does then

This file fixes an append as one step:

* `MayAppend`: the condition under which a document accepts `c` as the last child of `p`, told
  without the order in which the checks are made (`checkAppend_eq_ok_iff`);
* `moved`: the document after an accepted append, `c` first out of its place and then behind the last
  child of `p`. The append gives `c` back (`run_append_of_mayAppend`); a refused one changes nothing
  (`snd_run_append`).
-/

namespace DomBuilder.Document

variable {d : Document} {p c : NodeId}

/-! ## 1. The condition -/

/-- `c` may become the last child of `p`. -/
structure MayAppend (d : Document) (p c : NodeId) : Prop where
  parent : ∃ k, d.content? p = some k ∧ k.isText = false
  child : ∃ k, d.content? c = some k ∧ k.isDocument = false
  apart : d.isInclusiveAncestor c p = false
  underDocument : d.content? p = some .document → (∃ e, d.element? c = some e) ∧
    ∀ x ∈ d.children p, (d.element? x).isSome = true → x = c

theorem hierarchyFault?_eq_none_iff {kp kc : NodeContent} :
    d.hierarchyFault? p c kp kc = none ↔ kp.isText = false ∧ kc.isDocument = false ∧
      d.isInclusiveAncestor c p = false ∧ (kp.isDocument = true → kc.isText = false ∧
        ∀ x ∈ d.children p, (d.element? x).isSome = true → x = c) := by
  unfold hierarchyFault?
  grind

theorem eq_document_of_isDocument {k : NodeContent} (h : k.isDocument = true) : k = .document := by
  cases k with
  | document => rfl
  | text s => cases h
  | element e => cases h

/-- What is no document and no text is an element. -/
theorem exists_element_of_isText {k : NodeContent} (hd : k.isDocument = false)
    (ht : k.isText = false) : ∃ e, k = .element e := by
  cases k with
  | document => cases hd
  | text s => cases ht
  | element e => exact ⟨e, rfl⟩

/-- **An append is accepted exactly under its condition.** -/
theorem checkAppend_eq_ok_iff : d.checkAppend p c = .ok () ↔ d.MayAppend p c := by
  unfold checkAppend
  cases hp : d.get? p with
  | none =>
    refine ⟨fun h => (by cases h), fun h => ?_⟩
    obtain ⟨k, hk, _⟩ := h.parent
    simp [content?, hp] at hk
  | some np =>
    cases hc : d.get? c with
    | none =>
      refine ⟨fun h => (by cases h), fun h => ?_⟩
      obtain ⟨k, hk, _⟩ := h.child
      simp [content?, hc] at hk
    | some nc =>
      have ep : d.content? p = some np.content := by rw [content?, hp]; rfl
      have ec : d.content? c = some nc.content := by rw [content?, hc]; rfl
      have hiff : d.hierarchyFault? p c np.content nc.content = none ↔ d.MayAppend p c := by
        rw [hierarchyFault?_eq_none_iff]
        constructor
        · rintro ⟨h1, h2, h3, h4⟩
          refine ⟨⟨_, ep, h1⟩, ⟨_, ec, h2⟩, h3, fun hd => ?_⟩
          rw [ep] at hd
          obtain ⟨h5, h6⟩ := h4 (by rw [Option.some.inj hd]; rfl)
          obtain ⟨e, he⟩ := exists_element_of_isText h2 h5
          exact ⟨⟨e, element?_eq_some_iff.mpr (by rw [ec, he])⟩, h6⟩
        · rintro ⟨⟨k, hk, h1⟩, ⟨k', hk', h2⟩, h3, h4⟩
          rw [ep] at hk h4
          rw [ec] at hk'
          cases hk
          cases hk'
          refine ⟨h1, h2, h3, fun hd => ?_⟩
          obtain ⟨⟨e, he⟩, h6⟩ := h4 (by rw [eq_document_of_isDocument hd])
          rw [element?_eq_some_iff, ec] at he
          rw [Option.some.inj he]
          exact ⟨rfl, h6⟩
      rw [← hiff]
      cases hf : d.hierarchyFault? p c np.content nc.content <;> simp [hf]

theorem MayAppend.contains_parent (h : d.MayAppend p c) : d.contains p = true := by
  obtain ⟨k, hk, _⟩ := h.parent
  exact contains_of_content? hk

theorem MayAppend.contains_child (h : d.MayAppend p c) : d.contains c = true := by
  obtain ⟨k, hk, _⟩ := h.child
  exact contains_of_content? hk

/-! ## 2. The effect -/

/-- The document with `c` as the last child of `p`. -/
def moved (d : Document) (p c : NodeId) : Document := (d.detached c).link p c

@[simp] theorem size_moved (d : Document) (p c : NodeId) : (d.moved p c).size = d.size := by
  simp [moved]

@[simp] theorem symbols_moved (d : Document) (p c : NodeId) :
    (d.moved p c).symbols = d.symbols := by
  simp [moved]

@[simp] theorem content?_moved (d : Document) (p c x : NodeId) :
    (d.moved p c).content? x = d.content? x := by
  simp [moved]

theorem parent?_moved (hc : d.contains c = true) (p x : NodeId) :
    (d.moved p c).parent? x = if x = c then some p else d.parent? x := by
  rw [moved, parent?_link (by simpa using hc), parent?_detached]
  by_cases hx : x = c
  · rw [if_pos hx, if_pos hx]
  · rw [if_neg hx, if_neg hx, if_neg hx]

/-- A node that is there leaves its place without fail. -/
theorem run_leaveParent (hc : d.contains c = true) :
    (leaveParent c).run d = (.ok (), d.detached c) := by
  obtain ⟨node, hnode⟩ := contains_iff.mp hc
  unfold leaveParent
  simp only [Operation.run_bind, Operation.run_read]
  cases hp : d.parent? c with
  | none => simp [detached_of_no_parent hp]
  | some q =>
    have hq : node.parent = some q := by simpa [parent?, hnode] using hp
    simp only [Option.isSome_some, if_true, run_detach, hnode, hq]
    rw [detached_of_parent? hnode hq]

theorem run_append_of_mayAppend (h : d.MayAppend p c) :
    (append p c).run d = (.ok c, d.moved p c) := by
  rw [run_append, checkAppend_eq_ok_iff.mpr h]
  simp only [run_leaveParent h.contains_child, moved]

/-- An append that gives a result was accepted. -/
theorem mayAppend_of_run_append {id : NodeId} (h : ((append p c).run d).1 = .ok id) :
    d.MayAppend p c := by
  rw [run_append] at h
  cases hc : d.checkAppend p c with
  | error e => rw [hc] at h; cases h
  | ok u => exact checkAppend_eq_ok_iff.mp hc

/-- An append that gives a result has moved its node, and gives that node. -/
theorem eq_moved_of_run_append {d' : Document} {id : NodeId} (h : (append p c).run d = (.ok id, d')) :
    d.MayAppend p c ∧ id = c ∧ d' = d.moved p c := by
  have hm : d.MayAppend p c := mayAppend_of_run_append (congrArg Prod.fst h)
  rw [run_append_of_mayAppend hm] at h
  cases h
  exact ⟨hm, rfl, rfl⟩

/-- The result of an append is that of its check. -/
theorem fst_run_append (d : Document) (p c : NodeId) :
    ((append p c).run d).1 = (d.checkAppend p c).map fun _ => c := by
  cases hc : d.checkAppend p c with
  | error err => rw [run_append, hc]; rfl
  | ok u => rw [run_append_of_mayAppend (checkAppend_eq_ok_iff.mp hc)]; rfl

/-- A refused append changes nothing. -/
theorem snd_run_append (h : ¬ d.MayAppend p c) : ((append p c).run d).2 = d := by
  rw [run_append]
  cases hc : d.checkAppend p c with
  | error e => rfl
  | ok u => exact absurd (checkAppend_eq_ok_iff.mp hc) h

end DomBuilder.Document
