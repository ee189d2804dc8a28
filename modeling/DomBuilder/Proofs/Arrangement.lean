import DomBuilder.Proofs.Append
import DomBuilder.Proofs.Walk

/-!
# Child lists and the links that spell them out

The five links of the nodes say one thing five times: which children a node has, in which order. This
file fixes that reading and what the two changes of links do to it:

* `Arranged d kids`: the links of `d` spell out the lists `kids`. First and last child, parent,
  previous and next sibling are then all functions of these lists;
* `Arranged.detached`: taking `c` out of its place erases `c` from every list;
* `Arranged.link`: putting `c` without a place under `p` adds it at the end of the list of `p`;
* `Arranged.children_eq`: what a document lists as children is what its links spell out, so a
  document has one arrangement at most.
-/

namespace DomBuilder.Document

/-- The links of `d` spell out the lists `kids`. -/
structure Arranged (d : Document) (kids : NodeId → List NodeId) : Prop where
  first : ∀ p, d.first? p = (kids p).head?
  last : ∀ p, d.last? p = (kids p).getLast?
  nodup : ∀ p, (kids p).Nodup
  parent : ∀ p c, d.parent? c = some p ↔ c ∈ kids p
  prev : ∀ p a c b, kids p = a ++ c :: b → d.prev? c = a.getLast?
  next : ∀ p a c b, kids p = a ++ c :: b → d.next? c = b.head?
  alone : ∀ c, d.parent? c = none → d.prev? c = none ∧ d.next? c = none

variable {d : Document} {kids : NodeId → List NodeId}

/-! ## 1. What the lists hold -/

theorem Arranged.contains_kid (h : Arranged d kids) {p c : NodeId} (hc : c ∈ kids p) :
    d.contains c = true :=
  contains_of_parent? ((h.parent p c).mpr hc)

theorem Arranged.contains_parent (h : Arranged d kids) {p c : NodeId} (hc : c ∈ kids p) :
    d.contains p = true := by
  cases hk : kids p with
  | nil => rw [hk] at hc; exact absurd hc List.not_mem_nil
  | cons x r => exact contains_of_first? (by rw [h.first p, hk]; rfl)

theorem Arranged.kids_of_not_contains (h : Arranged d kids) {p : NodeId}
    (hp : ¬ d.contains p = true) : kids p = [] :=
  List.eq_nil_iff_forall_not_mem.mpr fun _ hc => hp (h.contains_parent hc)

/-- A node is in one list at most. -/
theorem Arranged.parent_unique (h : Arranged d kids) {p q c : NodeId} (hp : c ∈ kids p)
    (hq : c ∈ kids q) : p = q := by
  have e := (h.parent p c).mpr hp
  rw [(h.parent q c).mpr hq] at e
  exact (Option.some.inj e).symm

/-- No list holds a node twice, so one erasure rids it of the node. -/
theorem Arranged.erase_eq_filter (h : Arranged d kids) (p c : NodeId) :
    (kids p).erase c = (kids p).filter (· ≠ c) := by
  rw [(h.nodup p).erase_eq_filter]
  exact List.filter_congr fun x _ => by rw [bne, beq_eq_decide, decide_not]

theorem Arranged.walk_next (h : Arranged d kids) (p : NodeId) :
    Walk d.next? (d.first? p) (kids p) := by
  rw [h.first p]
  exact walk_of_next (h.next p)

theorem Arranged.walk_prev (h : Arranged d kids) (p : NodeId) :
    Walk d.prev? (d.last? p) (kids p).reverse := by
  rw [h.last p]
  exact walk_of_prev (h.prev p)

/-- **The children a document lists are those that its links spell out.** -/
theorem Arranged.children_eq (h : Arranged d kids) (p : NodeId) : d.children p = kids p :=
  siblingsFrom_of_walk (h.walk_next p) (fun _ hx => h.contains_kid hx)
    (length_le_size (h.nodup p) fun _ hx => h.contains_kid hx)

theorem Arranged.self (h : Arranged d kids) : Arranged d d.children := by
  have e : d.children = kids := funext h.children_eq
  rw [e]
  exact h

/-! ## 2. Lists cut at a node -/

/-- A node of `a ++ b` is in `a` or in `b`. -/
theorem append_eq_split {a b a' b' : List NodeId} {x : NodeId} (h : a ++ b = a' ++ x :: b') :
    (∃ m, a = a' ++ x :: m ∧ b' = m ++ b) ∨ (∃ m, b = m ++ x :: b' ∧ a' = a ++ m) := by
  rcases List.append_eq_append_iff.mp h with ⟨m, rfl, rfl⟩ | ⟨m, rfl, hm⟩
  · exact .inr ⟨m, rfl, rfl⟩
  · cases m with
    | nil => exact .inr ⟨[], by simpa using hm.symm, by simp⟩
    | cons y m =>
      obtain ⟨rfl, rfl⟩ := List.cons.inj hm
      exact .inl ⟨m, rfl, rfl⟩

theorem getLast?_ne {a m : List NodeId} {x y : NodeId} (hn : (a ++ x :: y :: m).Nodup) :
    (a ++ x :: y :: m).getLast? ≠ some x := by
  intro h
  rw [List.getLast?_append_cons, List.getLast?_cons_cons] at h
  exact (List.nodup_cons.mp (List.nodup_append.mp hn).2.1).1 (List.mem_of_getLast? h)

theorem erase_at {a b : List NodeId} {c : NodeId} (hn : (a ++ c :: b).Nodup) :
    (a ++ c :: b).erase c = a ++ b := by
  have ha : c ∉ a := fun h => (List.nodup_append.mp hn).2.2 c h c List.mem_cons_self rfl
  rw [List.erase_append_right _ ha, List.erase_cons_head]

/-- The neighbours of a node `x` of a list without `c`: what they were, but for the two nodes around
    `c`, which become neighbours of each other. -/
theorem neighbours_without {a b a' b' : List NodeId} {c x : NodeId} (hn : (a ++ c :: b).Nodup)
    (e : a ++ b = a' ++ x :: b') : ∃ a₀ b₀, a ++ c :: b = a₀ ++ x :: b₀ ∧
      a'.getLast? = (if b.head? = some x then a.getLast? else a₀.getLast?) ∧
      b'.head? = (if a.getLast? = some x then b.head? else b₀.head?) := by
  rcases append_eq_split e with ⟨m, rfl, rfl⟩ | ⟨m, rfl, rfl⟩
  · refine ⟨a', m ++ c :: b, by simp, ?_, ?_⟩
    · have hb : b.head? ≠ some x := fun h => by
        have hx : x ∈ c :: b := List.mem_cons_of_mem _ (List.mem_of_head? h)
        exact (List.nodup_append.mp hn).2.2 x (by simp) x hx rfl
      rw [if_neg hb]
    · cases m with
      | nil => simp
      | cons y m =>
        rw [if_neg (getLast?_ne (List.nodup_append.mp hn).1)]
        rfl
  · refine ⟨a ++ c :: m, b', by simp, ?_, ?_⟩
    · cases m with
      | nil => simp
      | cons y m =>
        have hy : y ≠ x := by
          rintro rfl
          have h := (List.nodup_cons.mp (List.nodup_append.mp hn).2.1).2
          simp at h
        rw [if_neg (by simpa using hy), List.getLast?_append_cons, List.getLast?_append_cons,
          List.getLast?_cons_cons]
    · have ha : a.getLast? ≠ some x := fun h => by
        have hx : x ∈ c :: (m ++ x :: b') := by simp
        exact (List.nodup_append.mp hn).2.2 x (List.mem_of_getLast? h) x hx rfl
      rw [if_neg ha]

/-- The neighbours of a node `x` of a list with a new node `c` at its end. -/
theorem neighbours_behind {l a b : List NodeId} {c x : NodeId} (hn : l.Nodup)
    (e : l ++ [c] = a ++ x :: b) : (x = c ∧ a = l ∧ b = []) ∨
      ∃ b₀, l = a ++ x :: b₀ ∧ b.head? = (if l.getLast? = some x then some c else b₀.head?) := by
  rcases append_eq_split e with ⟨m, rfl, rfl⟩ | ⟨m, hm, rfl⟩
  · refine .inr ⟨m, rfl, ?_⟩
    cases m with
    | nil => simp
    | cons y m =>
      rw [if_neg (getLast?_ne hn)]
      rfl
  · cases m with
    | nil =>
      obtain ⟨rfl, rfl⟩ := List.cons.inj hm
      exact .inl ⟨rfl, by simp, rfl⟩
    | cons y m => simp at hm

/-! ## 3. Out of a place -/

section Unlink

variable {a b : List NodeId} {p c : NodeId} {node : Node}

/-- The lists without `c`, where `c` stood between `a` and `b`. -/
theorem Arranged.erase_eq (h : Arranged d kids) (hk : kids p = a ++ c :: b) (q : NodeId) :
    (kids q).erase c = if q = p then a ++ b else kids q := by
  by_cases hq : q = p
  · subst hq
    rw [if_pos rfl, hk, erase_at (hk ▸ h.nodup q)]
  · rw [if_neg hq]
    have hc : c ∈ kids p := by simp [hk]
    exact List.erase_of_not_mem fun hm => hq (h.parent_unique hm hc)

theorem Arranged.unlink (h : Arranged d kids) (hk : kids p = a ++ c :: b)
    (hprev : node.prevSibling = a.getLast?) (hnext : node.nextSibling = b.head?) :
    Arranged (d.unlink c node p) fun q => (kids q).erase c := by
  have hn : (a ++ c :: b).Nodup := hk ▸ h.nodup p
  have hc : c ∈ kids p := by simp [hk]
  have hp : d.contains p = true := h.contains_parent hc
  -- a node of another list is neither `c` nor a neighbour of `c`
  have hother : ∀ q x, x ∈ kids q → q ≠ p → x ≠ c ∧ a.getLast? ≠ some x ∧ b.head? ≠ some x := by
    intro q x hx hq
    have hxp : x ∉ kids p := fun hm => hq (h.parent_unique hx hm)
    rw [hk] at hxp
    refine ⟨fun e => hxp (by simp [e]), fun e => hxp ?_, fun e => hxp ?_⟩
    · simp [List.mem_of_getLast? e]
    · simp [List.mem_of_head? e]
  have hxc : ∀ q x, x ∈ (kids q).erase c → x ≠ c ∧ x ∈ kids q := fun q x hx =>
    (h.nodup q).mem_erase_iff.mp hx
  constructor
  case nodup => exact fun q => (h.nodup q).erase c
  case first =>
    intro q
    rw [h.erase_eq hk]
    by_cases hq : d.contains q = true
    · rw [first?_unlink hq, hprev, hnext, h.first q]
      by_cases hqp : q = p
      · subst hqp
        rw [hk]
        cases a <;> simp
      · simp [hqp]
    · have hqp : q ≠ p := fun e => hq (e ▸ hp)
      rw [if_neg hqp, h.kids_of_not_contains hq, first?, get?_unlink, get?_of_not_contains hq]
      rfl
  case last =>
    intro q
    rw [h.erase_eq hk]
    by_cases hq : d.contains q = true
    · rw [last?_unlink hq, hprev, hnext, h.last q]
      by_cases hqp : q = p
      · subst hqp
        rw [hk]
        cases b <;> simp
      · simp [hqp]
    · have hqp : q ≠ p := fun e => hq (e ▸ hp)
      rw [if_neg hqp, h.kids_of_not_contains hq, last?, get?_unlink, get?_of_not_contains hq]
      rfl
  case parent =>
    intro q x
    rw [parent?_unlink, (h.nodup q).mem_erase_iff, ← h.parent q x]
    by_cases hx : x = c <;> simp [hx]
  case prev =>
    intro q a' x b' e
    obtain ⟨hx, hxq⟩ := hxc q x (by rw [e]; simp)
    rw [prev?_unlink (h.contains_kid hxq), if_neg hx, hprev, hnext]
    rw [h.erase_eq hk] at e
    by_cases hqp : q = p
    · rw [if_pos hqp] at e
      obtain ⟨a₀, b₀, e₀, hp₀, _⟩ := neighbours_without hn e
      rw [hp₀, h.prev p a₀ x b₀ (hk.trans e₀)]
    · rw [if_neg hqp] at e
      rw [if_neg (hother q x hxq hqp).2.2, h.prev q a' x b' e]
  case next =>
    intro q a' x b' e
    obtain ⟨hx, hxq⟩ := hxc q x (by rw [e]; simp)
    rw [next?_unlink (h.contains_kid hxq), if_neg hx, hprev, hnext]
    rw [h.erase_eq hk] at e
    by_cases hqp : q = p
    · rw [if_pos hqp] at e
      obtain ⟨a₀, b₀, e₀, _, hn₀⟩ := neighbours_without hn e
      rw [hn₀, h.next p a₀ x b₀ (hk.trans e₀)]
    · rw [if_neg hqp] at e
      rw [if_neg (hother q x hxq hqp).2.1, h.next q a' x b' e]
  case alone =>
    intro x hx
    rw [parent?_unlink] at hx
    by_cases hxd : d.contains x = true
    · rw [prev?_unlink hxd, next?_unlink hxd, hprev, hnext]
      by_cases hxc : x = c
      · simp [hxc]
      · rw [if_neg hxc] at hx
        have hxp : x ∉ kids p := fun hm => by simp [(h.parent p x).mpr hm] at hx
        rw [hk] at hxp
        have ha : a.getLast? ≠ some x := fun e => hxp (by simp [List.mem_of_getLast? e])
        have hb : b.head? ≠ some x := fun e => hxp (by simp [List.mem_of_head? e])
        rw [if_neg hxc, if_neg hxc, if_neg ha, if_neg hb]
        exact h.alone x hx
    · rw [prev?, next?, get?_unlink, get?_of_not_contains hxd]
      exact ⟨rfl, rfl⟩

/-- **Taking a node out of its place erases it from every list**, and does nothing else. -/
theorem Arranged.detached (h : Arranged d kids) (c : NodeId) :
    Arranged (d.detached c) fun q => (kids q).erase c := by
  cases hc : d.parent? c with
  | none =>
    have e : (fun q => (kids q).erase c) = kids := funext fun q =>
      List.erase_of_not_mem fun hm => by simp [(h.parent q c).mpr hm] at hc
    rw [detached_of_no_parent hc, e]
    exact h
  | some p =>
    obtain ⟨a, b, hk⟩ := List.append_of_mem ((h.parent p c).mp hc)
    obtain ⟨node, hnode, hpar⟩ := Option.bind_eq_some_iff.mp hc
    rw [detached_of_parent? hnode hpar]
    refine h.unlink hk ?_ ?_
    · simpa [prev?, hnode] using h.prev p a c b hk
    · simpa [next?, hnode] using h.next p a c b hk

end Unlink

/-! ## 4. Into a place -/

/-- **Putting a node without a place under `p` adds it to the end of the list of `p`**, and does
    nothing else. -/
theorem Arranged.link {p c : NodeId} (h : Arranged d kids) (hp : d.contains p = true)
    (hc : d.contains c = true) (ho : d.parent? c = none) :
    Arranged (d.link p c) fun q => if q = p then kids q ++ [c] else kids q := by
  -- `c` is in no list, so it is nobody's sibling
  have hout : ∀ q, c ∉ kids q := fun q hm => by simp [(h.parent q c).mpr hm] at ho
  have hlast : (kids p).getLast? ≠ some c := fun e => hout p (List.mem_of_getLast? e)
  constructor
  case nodup =>
    intro q
    by_cases hq : q = p
    · rw [if_pos hq, List.nodup_append]
      refine ⟨h.nodup q, by simp, fun x hx y hy => ?_⟩
      rintro rfl
      rw [List.mem_singleton] at hy
      exact hout q (hy ▸ hx)
    · rw [if_neg hq]
      exact h.nodup q
  case first =>
    intro q
    by_cases hq : d.contains q = true
    · rw [first?_link hq, h.first q, h.last p]
      by_cases hqp : q = p
      · subst hqp
        cases hk : kids q <;> simp
      · simp [hqp]
    · have hqp : q ≠ p := fun e => hq (e ▸ hp)
      rw [if_neg hqp, h.kids_of_not_contains hq, first?, get?_link, get?_of_not_contains hq]
      rfl
  case last =>
    intro q
    by_cases hq : d.contains q = true
    · rw [last?_link hq, h.last q]
      by_cases hqp : q = p <;> simp [hqp]
    · have hqp : q ≠ p := fun e => hq (e ▸ hp)
      rw [if_neg hqp, h.kids_of_not_contains hq, last?, get?_link, get?_of_not_contains hq]
      rfl
  case parent =>
    intro q x
    by_cases hx : x = c
    · subst hx
      rw [parent?_link hc, if_pos rfl]
      by_cases hq : q = p
      · simp [hq]
      · simpa [hq, hout q] using Ne.symm hq
    · rw [parent?_link hc, if_neg hx, h.parent q x]
      by_cases hq : q = p <;> simp [hq, hx]
  case prev =>
    intro q a x b e
    by_cases hqp : q = p
    · rw [if_pos hqp] at e
      rcases neighbours_behind (h.nodup q) e with ⟨rfl, rfl, rfl⟩ | ⟨b₀, e₀, _⟩
      · rw [prev?_link hc, if_pos rfl, h.last p, hqp]
      · have hx : x ∈ kids q := by simp [e₀]
        have hxc : x ≠ c := fun e => hout q (e ▸ hx)
        rw [prev?_link (h.contains_kid hx), if_neg hxc, h.prev q a x b₀ e₀]
    · rw [if_neg hqp] at e
      have hx : x ∈ kids q := by simp [e]
      have hxc : x ≠ c := fun e => hout q (e ▸ hx)
      rw [prev?_link (h.contains_kid hx), if_neg hxc, h.prev q a x b e]
  case next =>
    intro q a x b e
    by_cases hqp : q = p
    · rw [if_pos hqp] at e
      rcases neighbours_behind (h.nodup q) e with ⟨rfl, rfl, rfl⟩ | ⟨b₀, e₀, hb⟩
      · rw [next?_link hc, h.last p, if_neg hlast, if_pos rfl]
        rfl
      · have hx : x ∈ kids q := by simp [e₀]
        have hxc : x ≠ c := fun e => hout q (e ▸ hx)
        rw [next?_link (h.contains_kid hx), h.last p, hb, if_neg hxc, h.next q a x b₀ e₀, hqp]
    · rw [if_neg hqp] at e
      have hx : x ∈ kids q := by simp [e]
      have hxc : x ≠ c := fun e => hout q (e ▸ hx)
      have hxl : (kids p).getLast? ≠ some x := fun e =>
        hqp (h.parent_unique hx (List.mem_of_getLast? e))
      rw [next?_link (h.contains_kid hx), h.last p, if_neg hxl, if_neg hxc, h.next q a x b e]
  case alone =>
    intro x hx
    by_cases hxd : d.contains x = true
    · rw [parent?_link hc] at hx
      by_cases hxc : x = c
      · simp [hxc] at hx
      · rw [if_neg hxc] at hx
        have hxl : (kids p).getLast? ≠ some x := fun e => by
          simp [(h.parent p x).mpr (List.mem_of_getLast? e)] at hx
        rw [prev?_link hxd, next?_link hxd, h.last p, if_neg hxc, if_neg hxc, if_neg hxl]
        exact h.alone x hx
    · rw [prev?, next?, get?_link, get?_of_not_contains hxd]
      exact ⟨rfl, rfl⟩

/-- The child lists after an accepted append. -/
theorem Arranged.moved {kids : NodeId → List NodeId} {p c : NodeId} (h : Arranged d kids)
    (hp : d.contains p = true) (hc : d.contains c = true) :
    Arranged (d.moved p c)
      fun q => if q = p then (kids q).erase c ++ [c] else (kids q).erase c := by
  have ho : (d.detached c).parent? c = none := by rw [parent?_detached, if_pos rfl]
  exact (h.detached c).link (by simpa using hp) (by simpa using hc) ho

end DomBuilder.Document
