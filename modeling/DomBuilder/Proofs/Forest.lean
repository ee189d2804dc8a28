import DomBuilder.Proofs.Append
import DomBuilder.Proofs.Arrangement
import Mathlib.Logic.Relation

/-!
# The forest of a document

Nodes hang under each other, each under one at most, and none under itself. This file fixes the
invariant that says so and carries it through every change of a document:

* `WellFormed`: the links spell out the children, every way up ends, text has no children, and the
  document node is the only one of its kind, has no parent and at most one child, an element;
* `WellFormed.walk_path`: in such a document the bounded way up is the whole way up. On it lies what the
  parents lead to (`WellFormed.mem_path_iff_reaches`), and a child's way up is its parent's and one node more;
* `Under`: a node hangs under another, at any depth, told by the parents alone. A node lies under what is
  above it on its way up (`WellFormed.mem_path_iff`);
* `WellFormed.detached`, `WellFormed.moved`, `WellFormed.transport`: a node out of its place, a node
  into another place, and every change that leaves the links alone keep the invariant;
* `Forest`: what the invariant says about the links themselves.
-/

namespace DomBuilder

/-! ## 1. Walks that are sent elsewhere at one node -/

/-- If all steps stay as they are but for the one from `c`, and the new way from there ends, then every
    way ends. -/
theorem Walk.redirect {next next' : NodeId → Option NodeId} {start : Option NodeId}
    {l l' : List NodeId} {c : NodeId} (h : Walk next start l)
    (hn : ∀ x, x ≠ c → next' x = next x) (hc : Walk next' (next' c) l') :
    ∃ l', Walk next' start l' := by
  induction h with
  | done => exact ⟨[], .done⟩
  | @step x l _ ih =>
    by_cases hx : x = c
    · subst hx
      exact ⟨_, .step hc⟩
    · obtain ⟨l', h'⟩ := ih
      exact ⟨x :: l', .step (by rw [hn x hx]; exact h')⟩

/-- The nodes of a walk are those that its steps lead to, from its start on. -/
theorem Walk.mem_iff {next : NodeId → Option NodeId} {x a : NodeId} {l : List NodeId}
    (h : Walk next (some x) l) : a ∈ l ↔ Relation.ReflTransGen (fun y z => next y = some z) x a := by
  constructor
  · -- the induction is on the walk, of which every rest starts somewhere else
    have key : ∀ {start : Option NodeId} {l : List NodeId}, Walk next start l → a ∈ l →
        ∀ x, start = some x → Relation.ReflTransGen (fun y z => next y = some z) x a := by
      intro start l hw
      induction hw with
      | done => exact fun hm => absurd hm List.not_mem_nil
      | @step y l hw ih =>
        intro hm x hx
        cases hx
        rcases List.mem_cons.mp hm with rfl | hm
        · exact .refl
        · cases hy : next y with
          | none =>
            rw [hy] at hw
            cases hw
            exact absurd hm List.not_mem_nil
          | some z => exact .head hy (ih hm z hy)
    exact fun hm => key h hm x rfl
  · intro hr
    induction hr using Relation.ReflTransGen.head_induction_on generalizing l with
    | refl =>
      cases h with
      | step _ => exact List.mem_cons_self
    | head hy _ ih =>
      cases h with
      | step hw =>
        rw [hy] at hw
        exact List.mem_cons_of_mem _ (ih hw)

/-- Contents of one kind. -/
structure NodeContent.SameKind (k k' : NodeContent) : Prop where
  document : k'.isDocument = k.isDocument
  text : k'.isText = k.isText
  element : k'.isElement = k.isElement

theorem NodeContent.SameKind.refl (k : NodeContent) : k.SameKind k := ⟨rfl, rfl, rfl⟩

namespace Document

/-! ## 2. The invariant -/

/-- The nodes of `d` form a forest. -/
structure WellFormed (d : Document) : Prop where
  arranged : Arranged d d.children
  ends : ∀ id, ∃ l, Walk d.parent? (some id) l
  rootContent : d.content? .root = some .document
  rootOnly : ∀ id, d.content? id = some .document → id = .root
  rootParent : d.parent? .root = none
  rootChildren : (d.children .root).length ≤ 1
  rootElement : ∀ c ∈ d.children .root, ∃ k, d.content? c = some k ∧ k.isElement = true
  textChildren : ∀ id k, d.content? id = some k → k.isText = true → d.children id = []

variable {d d' : Document}

/-! ## 3. The way up -/

theorem Arranged.contains_of_walk {kids : NodeId → List NodeId} (h : Arranged d kids)
    {start : Option NodeId} {l : List NodeId} (hw : Walk d.parent? start l)
    (hs : ∀ id, start = some id → d.contains id = true) : ∀ x ∈ l, d.contains x = true := by
  induction hw with
  | done => exact fun _ hx => absurd hx List.not_mem_nil
  | @step id l _ ih =>
    intro x hx
    rcases List.mem_cons.mp hx with rfl | hx
    · exact hs x rfl
    · exact ih (fun p hp => h.contains_parent ((h.parent p id).mp hp)) x hx

/-- A node and all above it, in order, are its path. -/
theorem WellFormed.walk_path (h : WellFormed d) {id : NodeId} (hid : d.contains id = true) :
    Walk d.parent? (some id) (d.path id) := by
  obtain ⟨l, hl⟩ := h.ends id
  have hc := h.arranged.contains_of_walk hl fun x hx => by cases hx; exact hid
  have e : d.path id = l := pathFrom_of_walk hl rfl hc (length_le_size hl.nodup hc)
  rw [e]
  exact hl

/-- All nodes of a path are in the document. -/
theorem WellFormed.contains_above (h : WellFormed d) {id x : NodeId} (hid : d.contains id = true)
    (hx : x ∈ d.path id) : d.contains x = true :=
  h.arranged.contains_of_walk (h.walk_path hid) (fun _ hy => Option.some.inj hy ▸ hid) x hx

theorem isInclusiveAncestor_iff {a id : NodeId} :
    d.isInclusiveAncestor a id = true ↔ a ∈ d.path id := by
  simp [isInclusiveAncestor]

/-- A node that is there lies on its own path. -/
theorem WellFormed.self_mem_path (h : WellFormed d) {id : NodeId} (hid : d.contains id = true) :
    id ∈ d.path id := by
  have hw := h.walk_path hid
  cases hp : d.path id with
  | nil => rw [hp] at hw; cases hw
  | cons x l =>
    rw [hp] at hw
    cases hw
    exact List.mem_cons_self

/-- The path of a child is the child and the path of its parent. -/
theorem WellFormed.path_child (h : WellFormed d) {p c : NodeId} (hc : c ∈ d.children p) :
    d.path c = c :: d.path p := by
  have hw := h.walk_path (h.arranged.contains_kid hc)
  have hp := h.walk_path (h.arranged.contains_parent hc)
  rw [← (h.arranged.parent p c).mpr hc] at hp
  exact hw.unique (.step hp)

theorem WellFormed.length_path_child (h : WellFormed d) {p c : NodeId} (hc : c ∈ d.children p) :
    (d.path c).length = (d.path p).length + 1 := by
  rw [h.path_child hc, List.length_cons]

/-- What lies above a node lies above its children. -/
theorem WellFormed.mem_path_child (h : WellFormed d) {a p c : NodeId} (hc : c ∈ d.children p)
    (ha : a ∈ d.path p) : a ∈ d.path c := by
  rw [h.path_child hc]
  exact List.mem_cons_of_mem _ ha

/-- No child lies above its parent. -/
theorem WellFormed.not_mem_path_parent (h : WellFormed d) {p c : NodeId} (hc : c ∈ d.children p) :
    c ∉ d.path p := by
  have hn := (h.walk_path (h.arranged.contains_kid hc)).nodup
  rw [h.path_child hc] at hn
  exact (List.nodup_cons.mp hn).1

/-- A node without a parent is alone on its way up. -/
theorem WellFormed.path_of_no_parent (h : WellFormed d) {id : NodeId} (hid : d.contains id = true)
    (hp : d.parent? id = none) : d.path id = [id] := by
  have hl : Walk d.parent? (d.parent? id) [] := by
    rw [hp]
    exact .done
  exact (h.walk_path hid).unique (.step hl)

/-- Only a node that is there has a path. -/
theorem path_of_not_contains {id : NodeId} (h : ¬ d.contains id = true) : d.path id = [] := by
  unfold path
  cases d.size with
  | zero => rfl
  | succ n => simp [pathFrom, get?_of_not_contains h]

theorem contains_of_mem_path {a id : NodeId} (h : a ∈ d.path id) : d.contains id = true := by
  refine Decidable.byContradiction fun hc => ?_
  rw [path_of_not_contains hc] at h
  cases h

/-- No path is longer than the document is large. -/
theorem WellFormed.length_path_le (h : WellFormed d) (id : NodeId) :
    (d.path id).length ≤ d.size := by
  by_cases hid : d.contains id = true
  · exact length_le_size (h.walk_path hid).nodup fun _ hx => h.contains_above hid hx
  · rw [path_of_not_contains hid]
    exact Nat.zero_le _

/-- **On the way up from a node is what its parents lead to.** -/
theorem WellFormed.mem_path_iff_reaches (h : WellFormed d) {x a : NodeId} : a ∈ d.path x ↔
    d.contains x = true ∧ Relation.ReflTransGen (fun y z => d.parent? y = some z) x a := by
  constructor
  · intro hm
    have hx := contains_of_mem_path hm
    exact ⟨hx, (h.walk_path hx).mem_iff.mp hm⟩
  · rintro ⟨hx, hr⟩
    exact (h.walk_path hx).mem_iff.mpr hr

/-- `x` hangs under `a`, at any depth. -/
def Under (d : Document) : NodeId → NodeId → Prop :=
  Relation.TransGen fun x p => d.parent? x = some p

/-- **On the way up from a node are the node and all that it hangs under.** -/
theorem WellFormed.mem_path_iff (h : WellFormed d) {x a : NodeId} (hx : d.contains x = true) :
    a ∈ d.path x ↔ a = x ∨ d.Under x a := by
  rw [h.mem_path_iff_reaches, and_iff_right hx, Relation.reflTransGen_iff_eq_or_transGen]
  rfl

/-! ## 4. A node out of its place -/

theorem WellFormed.children_detached (h : WellFormed d) (c q : NodeId) :
    (d.detached c).children q = (d.children q).erase c :=
  (h.arranged.detached c).children_eq q

/-- **A node out of its place leaves a forest.** -/
theorem WellFormed.detached (h : WellFormed d) (c : NodeId) : WellFormed (d.detached c) := by
  refine ⟨(h.arranged.detached c).self, fun id => ?_, ?_, fun id hid => ?_, ?_, ?_, fun x hx => ?_,
    fun id k hid ht => ?_⟩
  · obtain ⟨l, hl⟩ := h.ends id
    have hc : Walk (d.detached c).parent? ((d.detached c).parent? c) [] := by
      rw [parent?_detached, if_pos rfl]
      exact .done
    exact hl.redirect (fun x hx => by rw [parent?_detached, if_neg hx]) hc
  · rw [content?_detached]
    exact h.rootContent
  · rw [content?_detached] at hid
    exact h.rootOnly id hid
  · rw [parent?_detached, h.rootParent]
    exact ite_self _
  · rw [h.children_detached]
    exact Nat.le_trans (List.length_erase_le ..) h.rootChildren
  · rw [h.children_detached] at hx
    rw [content?_detached]
    exact h.rootElement x (List.mem_of_mem_erase hx)
  · rw [content?_detached] at hid
    rw [h.children_detached, h.textChildren id k hid ht, List.erase_nil]

/-! ## 5. A node into another place -/

section Moved

variable {p c : NodeId}

theorem WellFormed.children_moved (h : WellFormed d) (hm : d.MayAppend p c) (q : NodeId) :
    (d.moved p c).children q =
      if q = p then (d.children q).erase c ++ [c] else (d.children q).erase c :=
  (h.arranged.moved hm.contains_parent hm.contains_child).children_eq q

/-- Under the document an append is accepted only for the child that is there already, if one is. -/
theorem WellFormed.root_erase (h : WellFormed d) (hm : d.MayAppend .root c) :
    (d.children .root).erase c = [] := by
  refine List.eq_nil_iff_forall_not_mem.mpr fun x hx => ?_
  obtain ⟨hne, hx⟩ := (h.arranged.nodup .root).mem_erase_iff.mp hx
  obtain ⟨k, hk, he⟩ := h.rootElement x hx
  exact hne ((hm.underDocument h.rootContent).2 x hx (by rw [isSome_element? hk, he]))

/-- The way up from the new parent does not meet `c`, so it stays. -/
theorem WellFormed.walk_moved (h : WellFormed d) (hm : d.MayAppend p c) :
    Walk (d.moved p c).parent? (some p) (d.path p) := by
  have hcp : c ∉ d.path p := fun hc => by
    have e := hm.apart
    rw [isInclusiveAncestor_iff.mpr hc] at e
    cases e
  refine (h.walk_path hm.contains_parent).congr fun x hx => ?_
  have hxc : x ≠ c := fun e => hcp (e ▸ hx)
  rw [parent?_moved hm.contains_child, if_neg hxc]

/-- **A node in another place, where it may go, leaves a forest.** -/
theorem WellFormed.moved (h : WellFormed d) (hm : d.MayAppend p c) : WellFormed (d.moved p c) := by
  have hc := hm.contains_child
  refine ⟨(h.arranged.moved hm.contains_parent hc).self, fun id => ?_, ?_, fun id hid => ?_, ?_, ?_,
    fun x hx => ?_, fun id k hid ht => ?_⟩
  · obtain ⟨l, hl⟩ := h.ends id
    have hw : Walk (d.moved p c).parent? ((d.moved p c).parent? c) (d.path p) := by
      rw [parent?_moved hc, if_pos rfl]
      exact h.walk_moved hm
    exact hl.redirect (fun x hx => by rw [parent?_moved hc, if_neg hx]) hw
  · rw [content?_moved]
    exact h.rootContent
  · rw [content?_moved] at hid
    exact h.rootOnly id hid
  · have hcr : NodeId.root ≠ c := by
      rintro rfl
      obtain ⟨k, hk, hd⟩ := hm.child
      rw [h.rootContent] at hk
      cases hk
      cases hd
    rw [parent?_moved hc, if_neg hcr]
    exact h.rootParent
  · rw [h.children_moved hm]
    by_cases hpr : NodeId.root = p
    · subst hpr
      simp [h.root_erase hm]
    · rw [if_neg hpr]
      exact Nat.le_trans (List.length_erase_le ..) h.rootChildren
  · rw [content?_moved]
    rw [h.children_moved hm] at hx
    by_cases hpr : NodeId.root = p
    · subst hpr
      rw [if_pos rfl, h.root_erase hm, List.nil_append, List.mem_singleton] at hx
      obtain ⟨e, he⟩ := (hm.underDocument h.rootContent).1
      exact ⟨.element e, by rw [hx]; exact element?_eq_some_iff.mp he, rfl⟩
    · rw [if_neg hpr] at hx
      exact h.rootElement x (List.mem_of_mem_erase hx)
  · rw [content?_moved] at hid
    have hip : id ≠ p := by
      rintro rfl
      obtain ⟨k', hk', ht'⟩ := hm.parent
      rw [hk'] at hid
      cases hid
      rw [ht] at ht'
      cases ht'
    rw [h.children_moved hm, if_neg hip, h.textChildren id k hid ht, List.erase_nil]

end Moved

/-! ## 6. Changes that leave the links alone -/

/-- All links of `d'` are those of `d`. -/
structure SameLinks (d d' : Document) : Prop where
  parent : ∀ x, d'.parent? x = d.parent? x
  first : ∀ x, d'.first? x = d.first? x
  last : ∀ x, d'.last? x = d.last? x
  prev : ∀ x, d'.prev? x = d.prev? x
  next : ∀ x, d'.next? x = d.next? x

theorem Arranged.transport {kids : NodeId → List NodeId} (h : Arranged d kids)
    (hs : SameLinks d d') : Arranged d' kids where
  first p := by rw [hs.first]; exact h.first p
  last p := by rw [hs.last]; exact h.last p
  nodup := h.nodup
  parent p c := by rw [hs.parent]; exact h.parent p c
  prev p a c b e := by rw [hs.prev]; exact h.prev p a c b e
  next p a c b e := by rw [hs.next]; exact h.next p a c b e
  alone c hc := by
    rw [hs.parent] at hc
    rw [hs.prev, hs.next]
    exact h.alone c hc

theorem WellFormed.children_transport (h : WellFormed d) (hs : SameLinks d d') (q : NodeId) :
    d'.children q = d.children q :=
  (h.arranged.transport hs).children_eq q

/-- **Old nodes with their links and kinds, and new nodes without links that are no documents, leave a
    forest.** -/
theorem WellFormed.transport (h : WellFormed d) (hs : SameLinks d d')
    (hold : ∀ x k, d.content? x = some k → ∃ k', d'.content? x = some k' ∧ k.SameKind k')
    (hnew : ∀ x k', d.content? x = none → d'.content? x = some k' → k'.isDocument = false) :
    WellFormed d' := by
  refine ⟨(h.arranged.transport hs).self, fun id => ?_, ?_, fun id hid => ?_, ?_, ?_, fun x hx => ?_,
    fun id k' hid ht => ?_⟩
  · obtain ⟨l, hl⟩ := h.ends id
    exact ⟨l, hl.congr fun x _ => hs.parent x⟩
  · obtain ⟨k', hk', hsame⟩ := hold _ _ h.rootContent
    rw [hk', eq_document_of_isDocument hsame.document]
  · cases hk : d.content? id with
    | none => cases hnew id _ hk hid
    | some k =>
      obtain ⟨k', hk', hsame⟩ := hold id k hk
      rw [hid] at hk'
      cases hk'
      exact h.rootOnly id (by rw [hk, eq_document_of_isDocument hsame.document.symm])
  · rw [hs.parent]
    exact h.rootParent
  · rw [h.children_transport hs]
    exact h.rootChildren
  · rw [h.children_transport hs] at hx
    obtain ⟨k, hk, he⟩ := h.rootElement x hx
    obtain ⟨k', hk', hsame⟩ := hold x k hk
    exact ⟨k', hk', by rw [hsame.element, he]⟩
  · rw [h.children_transport hs]
    cases hk : d.content? id with
    | none =>
      refine h.arranged.kids_of_not_contains fun hc => ?_
      obtain ⟨k, hk'⟩ := exists_content? hc
      rw [hk] at hk'
      cases hk'
    | some k =>
      obtain ⟨k₂, hk₂, hsame⟩ := hold id k hk
      rw [hid] at hk₂
      cases hk₂
      exact h.textChildren id k hk (by rw [← hsame.text, ht])

/-! ## 7. The links of a forest -/

/-- **What a forest of nodes is, read off the links.** -/
structure Forest (d : Document) : Prop where
  /-- Along the next siblings from the first child one meets the children and then nothing. -/
  forward : ∀ p, Walk d.next? (d.first? p) (d.children p)
  /-- Along the previous siblings from the last child one meets them in reverse. -/
  backward : ∀ p, Walk d.prev? (d.last? p) (d.children p).reverse
  /-- No child comes twice. -/
  once : ∀ p, (d.children p).Nodup
  /-- The children of `p` are the nodes whose parent is `p`. -/
  child_iff : ∀ p c, c ∈ d.children p ↔ d.parent? c = some p
  /-- Without a parent there are no siblings. -/
  alone : ∀ id, d.parent? id = none → d.prev? id = none ∧ d.next? id = none
  /-- Every link leads to a node of the document. -/
  inside : ∀ id x, d.parent? id = some x ∨ d.first? id = some x ∨ d.last? id = some x ∨
    d.prev? id = some x ∨ d.next? id = some x → d.contains x = true
  /-- Every way up ends. -/
  ends : ∀ id, ∃ l, Walk d.parent? (some id) l
  /-- Text has no children. -/
  textLeaf : ∀ id s, d.text? id = some s → d.children id = []
  /-- The document node is there, and no other node is one. -/
  document_iff : ∀ id, d.content? id = some .document ↔ id = .root
  /-- It has no parent. -/
  rootParent : d.parent? .root = none
  /-- It has one child at most, an element. -/
  rootChild : (d.children .root).length ≤ 1 ∧ ∀ c ∈ d.children .root, ∃ e, d.element? c = some e

/-- The links of a node lead into the document. -/
theorem WellFormed.inside (h : WellFormed d) {id x : NodeId} (hx : d.parent? id = some x ∨
    d.first? id = some x ∨ d.last? id = some x ∨ d.prev? id = some x ∨ d.next? id = some x) :
    d.contains x = true := by
  have ha := h.arranged
  have hsib : ∀ y, d.prev? id = some y ∨ d.next? id = some y → ∃ p, id ∈ d.children p := by
    intro y hy
    cases hp : d.parent? id with
    | none =>
      obtain ⟨h1, h2⟩ := ha.alone id hp
      rw [h1, h2] at hy
      rcases hy with hy | hy <;> cases hy
    | some p => exact ⟨p, (ha.parent p id).mp hp⟩
  rcases hx with hx | hx | hx | hx | hx
  · exact ha.contains_parent ((ha.parent x id).mp hx)
  · rw [ha.first] at hx
    exact ha.contains_kid (List.mem_of_head? hx)
  · rw [ha.last] at hx
    exact ha.contains_kid (List.mem_of_getLast? hx)
  · obtain ⟨p, hp⟩ := hsib x (.inl hx)
    obtain ⟨a, b, e⟩ := List.append_of_mem hp
    rw [ha.prev p a id b e] at hx
    exact ha.contains_kid (p := p) (by simp [e, List.mem_of_getLast? hx])
  · obtain ⟨p, hp⟩ := hsib x (.inr hx)
    obtain ⟨a, b, e⟩ := List.append_of_mem hp
    rw [ha.next p a id b e] at hx
    exact ha.contains_kid (p := p) (by simp [e, List.mem_of_head? hx])

theorem WellFormed.forest (h : WellFormed d) : Forest d where
  forward := h.arranged.walk_next
  backward := h.arranged.walk_prev
  once := h.arranged.nodup
  child_iff p c := (h.arranged.parent p c).symm
  alone := h.arranged.alone
  inside _ _ := h.inside
  ends := h.ends
  textLeaf id s hs := h.textChildren id _ (text?_eq_some_iff.mp hs) rfl
  document_iff id := ⟨h.rootOnly id, fun e => by rw [e]; exact h.rootContent⟩
  rootParent := h.rootParent
  rootChild := by
    refine ⟨h.rootChildren, fun c hc => ?_⟩
    obtain ⟨k, hk, he⟩ := h.rootElement c hc
    exact Option.isSome_iff_exists.mp (by rw [isSome_element? hk, he])

end Document

end DomBuilder
