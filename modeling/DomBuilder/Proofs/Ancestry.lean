import DomBuilder.Proofs.Reachable

/-!
# Above and below

Whether a node lies above another is asked by going up from the lower one until the other is met or nothing
is above. Nothing in that search bounds it: it ends because no node lies above itself, and it answers the
question because parents and child lists say the same. This file fixes both for the documents that callers
can reach:

* `Search d a start k b`: going up from `start` in search of `a` ends after `k` nodes, with `b` for an answer.
  It ends in one way at most (`Search.unique`), and over a way up that ends it does (`search_of_walk`);
* `HasChild`, `Beneath`: what the child lists span, told by first children and next siblings alone. It is what
  the parents span, seen from the other end (`WellFormed.beneath_iff_under`);
* `isInclusiveAncestor_after`: the answer is given after no more nodes than there are, and tells who lies
  above by the parents, and who lies below by the child lists.
-/

namespace DomBuilder.Document

variable {d : Document} {a x : NodeId}

/-! ## 1. The search upward -/

/-- Going up from `start` in search of `a` ends after `k` nodes, and `b` says whether `a` was met. -/
inductive Search (d : Document) (a : NodeId) : Option NodeId → Nat → Bool → Prop where
  | top : Search d a none 0 false
  | missing {id : NodeId} (h : d.get? id = none) : Search d a (some id) 0 false
  | found {node : Node} (h : d.get? a = some node) : Search d a (some a) 1 true
  | up {id : NodeId} {node : Node} {k : Nat} {b : Bool} (h : d.get? id = some node) (hne : id ≠ a)
      (hs : Search d a node.parent k b) : Search d a (some id) (k + 1) b

/-- **A search ends in one way.** -/
theorem Search.unique {start : Option NodeId} {k k' : Nat} {b b' : Bool} (h : Search d a start k b)
    (h' : Search d a start k' b') : k = k' ∧ b = b' := by
  induction h generalizing k' b' with
  | top =>
    cases h'
    exact ⟨rfl, rfl⟩
  | missing h =>
    cases h' with
    | missing _ => exact ⟨rfl, rfl⟩
    | found h' => simp [h] at h'
    | up h' _ _ => simp [h] at h'
  | found h =>
    cases h' with
    | missing h' => simp [h] at h'
    | found _ => exact ⟨rfl, rfl⟩
    | up _ hne _ => exact absurd rfl hne
  | up h hne _ ih =>
    cases h' with
    | missing h' => simp [h] at h'
    | found _ => exact absurd rfl hne
    | up h' _ hs' =>
      rw [h] at h'
      cases h'
      obtain ⟨rfl, rfl⟩ := ih hs'
      exact ⟨rfl, rfl⟩

/-- **Over a way up that ends the search ends**, at the latest with its last node. -/
theorem search_of_walk {start : Option NodeId} {l : List NodeId} (h : Walk d.parent? start l)
    (hl : ∀ x ∈ l, d.contains x = true) (a : NodeId) :
    ∃ k ≤ l.length, Search d a start k (l.contains a) := by
  induction h with
  | done => exact ⟨0, Nat.le_refl _, .top⟩
  | @step id l _ ih =>
    obtain ⟨node, hnode⟩ := contains_iff.mp (hl id List.mem_cons_self)
    have hparent : d.parent? id = node.parent := by simp [parent?, hnode]
    obtain ⟨k, hk, hs⟩ := ih fun x hx => hl x (List.mem_cons_of_mem _ hx)
    rw [hparent] at hs
    -- at `a` the search ends before the way up does
    by_cases hid : id = a
    · subst hid
      refine ⟨1, by simp, ?_⟩
      rw [List.contains_cons, beq_self_eq_true, Bool.true_or]
      exact .found hnode
    · have hne : (a == id) = false := beq_eq_false_iff_ne.mpr (Ne.symm hid)
      refine ⟨k + 1, Nat.succ_le_succ hk, ?_⟩
      rw [List.contains_cons, hne, Bool.false_or]
      exact .up hnode hid hs

/-- In a forest every search ends, and gives the answer that the path gives. -/
theorem WellFormed.search (h : WellFormed d) (a n : NodeId) :
    ∃ k ≤ d.size, Search d a (some n) k (d.isInclusiveAncestor a n) := by
  by_cases hn : d.contains n = true
  · obtain ⟨k, hk, hs⟩ := search_of_walk (h.walk_path hn) (fun _ hx => h.contains_above hn hx) a
    exact ⟨k, Nat.le_trans hk (h.length_path_le n), hs⟩
  · have hfalse : d.isInclusiveAncestor a n = false := by
      rw [isInclusiveAncestor, path_of_not_contains hn]
      rfl
    rw [hfalse]
    exact ⟨0, Nat.zero_le _, .missing (get?_of_not_contains hn)⟩

/-! ## 2. What the child lists span -/

/-- `c` is met on the way from the first child of `p` along the next siblings, which ends. -/
def HasChild (d : Document) (p c : NodeId) : Prop := ∃ l, Walk d.next? (d.first? p) l ∧ c ∈ l

/-- `x` is a child of `a`, or of what is a child, at any depth. -/
def Beneath (d : Document) : NodeId → NodeId → Prop := Relation.TransGen d.HasChild

theorem WellFormed.hasChild_iff (h : WellFormed d) {p c : NodeId} :
    d.HasChild p c ↔ c ∈ d.children p := by
  constructor
  · rintro ⟨l, hw, hc⟩
    rwa [hw.unique (h.arranged.walk_next p)] at hc
  · exact fun hc => ⟨d.children p, h.arranged.walk_next p, hc⟩

/-- **The child lists span below a node what has the node above it.** -/
theorem WellFormed.beneath_iff_under (h : WellFormed d) : d.Beneath a x ↔ d.Under x a := by
  have hswap : d.HasChild = Function.swap fun y p => d.parent? y = some p := by
    funext p c
    exact propext (h.hasChild_iff.trans (h.arranged.parent p c).symm)
  rw [Beneath, hswap, Relation.transGen_swap]
  rfl

/-! ## 3. Reachable documents -/

/-- **Who lies above a node is found by going up from it.** In every document that calls can reach, and for
    any two ids, the search ends, within as many nodes as there are. Its answer is yes exactly if the lower
    node is there and following parents leads from it to the other one, zero or more times; that is, if it is
    the other one or lies in what the child lists span below that. -/
theorem isInclusiveAncestor_after (calls : List Action) (a n : NodeId) :
    let d := fresh.after calls
    (∃ k ≤ d.size, ∀ k' b, Search d a (some n) k' b ↔ k' = k ∧ b = d.isInclusiveAncestor a n) ∧
      (d.isInclusiveAncestor a n = true ↔
        d.contains n = true ∧ Relation.ReflTransGen (fun x p => d.parent? x = some p) n a) ∧
      (d.isInclusiveAncestor a n = true ↔ d.contains n = true ∧ (n = a ∨ d.Beneath a n)) := by
  intro d
  have h : WellFormed d := wellFormed_after calls
  have hup := isInclusiveAncestor_iff.trans (h.mem_path_iff_reaches (x := n) (a := a))
  refine ⟨?_, hup, ?_⟩
  · obtain ⟨k, hk, hs⟩ := h.search a n
    refine ⟨k, hk, fun k' b => ⟨fun hs' => hs'.unique hs, ?_⟩⟩
    rintro ⟨rfl, rfl⟩
    exact hs
  · rw [hup, h.beneath_iff_under, Relation.reflTransGen_iff_eq_or_transGen, eq_comm (a := n)]
    rfl

end DomBuilder.Document
