import DomBuilder.Proofs.Links
import Mathlib.Data.List.Nodup
import Mathlib.Data.List.Perm.Subperm

/-!
# Walks that end

Following one link from node to node either ends or goes on for ever. This file fixes what it means
that it ends, without any bound on the way:

* `Walk next start l`: from `start` along `next` one meets exactly the nodes of `l`, and then nothing;
* such a walk is determined by its start and meets no node twice (`Walk.unique`, `Walk.nodup`);
* a list whose neighbours are what `next` says is a walk (`walk_of_next`), and read backwards one
  along `prev` (`walk_of_prev`);
* the bounded walks `siblingsFrom` and `pathFrom` of a document give all of a walk that ends, as the
  nodes of the document are more than it can meet (`length_le_size`).
-/

namespace DomBuilder

/-- From `start` along `next` one meets exactly the nodes of the list, and then nothing. -/
inductive Walk (next : NodeId → Option NodeId) : Option NodeId → List NodeId → Prop where
  | done : Walk next none []
  | step {id : NodeId} {l : List NodeId} (h : Walk next (next id) l) : Walk next (some id) (id :: l)

namespace Walk

variable {next next' : NodeId → Option NodeId} {start : Option NodeId} {l : List NodeId}

/-! ## 1. What a walk is -/

theorem unique {l' : List NodeId} (h : Walk next start l) (h' : Walk next start l') : l = l' := by
  induction h generalizing l' with
  | done => cases h'; rfl
  | step _ ih =>
    cases h' with
    | step h' => rw [ih h']

/-- The rest of a walk is a walk. -/
theorem from_mem {a b : List NodeId} {x : NodeId} :
    ∀ {start : Option NodeId}, Walk next start (a ++ x :: b) → Walk next (some x) (x :: b) := by
  induction a with
  | nil =>
    intro start h
    cases h with
    | step h => exact .step h
  | cons y a ih =>
    intro start h
    cases h with
    | step h => exact ih h

/-- A walk that ends meets no node twice: from there it would go round and round. -/
theorem nodup (h : Walk next start l) : l.Nodup := by
  induction h with
  | done => exact List.nodup_nil
  | @step id l h ih =>
    refine List.nodup_cons.mpr ⟨fun hm => ?_, ih⟩
    obtain ⟨a, b, rfl⟩ := List.append_of_mem hm
    have e := unique h.from_mem (Walk.step h)
    have hl := congrArg List.length e
    simp at hl
    omega

theorem congr (h : Walk next start l) (he : ∀ x ∈ l, next' x = next x) : Walk next' start l := by
  induction h with
  | done => exact .done
  | @step id l _ ih =>
    refine .step ?_
    rw [he id List.mem_cons_self]
    exact ih fun x hx => he x (List.mem_cons_of_mem _ hx)

end Walk

/-- A list is a walk when each of its nodes has the following one as its next. -/
theorem walk_of_next {next : NodeId → Option NodeId} : ∀ {l : List NodeId},
    (∀ a x b, l = a ++ x :: b → next x = b.head?) → Walk next l.head? l
  | [], _ => .done
  | y :: l, h => by
    refine .step ?_
    rw [h [] y l rfl]
    exact walk_of_next fun a x b e => h (y :: a) x b (by rw [e]; rfl)

/-- Read backwards, it is one when each of its nodes has the one before as its previous. -/
theorem walk_of_prev {prev : NodeId → Option NodeId} {l : List NodeId}
    (h : ∀ a x b, l = a ++ x :: b → prev x = a.getLast?) : Walk prev l.getLast? l.reverse := by
  rw [← List.head?_reverse]
  refine walk_of_next fun a x b e => ?_
  have e' : l = b.reverse ++ x :: a.reverse := by
    rw [← List.reverse_reverse l, e]
    simp
  rw [h _ _ _ e', List.getLast?_reverse]

namespace Document

variable {d : Document}

/-! ## 2. The bounded walks of a document -/

/-- Different nodes of a document are no more than it has nodes. -/
theorem length_le_size {l : List NodeId} (hn : l.Nodup) (hl : ∀ x ∈ l, d.contains x = true) :
    l.length ≤ d.size := by
  have hs : l.map NodeId.index ⊆ List.range d.size := by
    intro i hi
    obtain ⟨x, hx, rfl⟩ := List.mem_map.mp hi
    exact List.mem_range.mpr (contains_iff_lt.mp (hl x hx))
  have hn' : (l.map NodeId.index).Nodup :=
    List.Nodup.map (fun a b => NodeId.index_inj.mp) hn
  simpa using (hn'.subperm hs).length_le

theorem siblingsFrom_of_walk {start : Option NodeId} {l : List NodeId} {n : Nat}
    (h : Walk d.next? start l) (hl : ∀ x ∈ l, d.contains x = true) (hn : l.length ≤ n) :
    d.siblingsFrom n start = l := by
  induction h generalizing n with
  | done => cases n <;> rfl
  | @step id l _ ih =>
    obtain ⟨node, hnode⟩ := contains_iff.mp (hl id List.mem_cons_self)
    cases n with
    | zero => simp at hn
    | succ n =>
      have hi := ih (fun x hx => hl x (List.mem_cons_of_mem _ hx)) (Nat.le_of_succ_le_succ hn)
      simp only [next?, hnode, Option.bind_some] at hi
      simp only [siblingsFrom, hnode, hi]

theorem pathFrom_of_walk {start : Option NodeId} {l : List NodeId} {n : Nat} {id : NodeId}
    (h : Walk d.parent? start l) (hs : start = some id) (hl : ∀ x ∈ l, d.contains x = true)
    (hn : l.length ≤ n) : d.pathFrom n id = l := by
  induction h generalizing n id with
  | done => cases hs
  | @step x l h ih =>
    cases hs
    obtain ⟨node, hnode⟩ := contains_iff.mp (hl x List.mem_cons_self)
    cases n with
    | zero => simp at hn
    | succ n =>
      have hp : d.parent? x = node.parent := by simp [parent?, hnode]
      cases hq : node.parent with
      | none =>
        rw [hp, hq] at h
        cases h
        simp only [pathFrom, hnode, hq]
      | some p =>
        have hi := ih (by rw [hp, hq]) (fun y hy => hl y (List.mem_cons_of_mem _ hy))
          (Nat.le_of_succ_le_succ hn)
        simp only [pathFrom, hnode, hq, hi]

end Document

end DomBuilder
