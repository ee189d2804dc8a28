import DomBuilder.Proofs.Build.Effect
import Mathlib.Data.List.Dedup

/-!
# Where the nodes of a build hang

The leaves of a build may name a node twice, a node from anywhere in the forest, or a text that the build
itself has just made. This file fixes what all orders and repetitions come down to:

* `foldl_behind`: a list after each of some ids in turn was put at its end holds what is not among the ids,
  and then the ids, each at the last place where it was named. `List.dedup` is that: of equal members it
  keeps the last;
* `mem_hungAll_none` and its like: the ids of leaves are old where a leaf names them, and run on from the
  new element for the texts;
* `children_createWith`, `parent?_createWith`: the new element has those ids as children and hangs
  nowhere;
* `places_build`: all places after a build.
-/

namespace DomBuilder

/-! ## 1. The last of equal ids -/

namespace Document

theorem nodup_behind {ks : List NodeId} (h : ks.Nodup) (k : NodeId) : (behind ks k).Nodup := by
  refine List.nodup_append.mpr ⟨h.erase k, List.nodup_singleton k, fun a ha b hb => ?_⟩
  rw [List.mem_singleton.mp hb]
  exact fun he => h.not_mem_erase (he ▸ ha)

/-- **Ids that are put at the end in turn stand there in the order of their last places.** -/
theorem foldl_behind {ids ks : List NodeId} (h : ks.Nodup) :
    ids.foldl behind ks = ks.filter (· ∉ ids) ++ ids.dedup := by
  induction ids generalizing ks with
  | nil =>
    have hf : ks.filter (· ∉ ([] : List NodeId)) = ks := List.filter_eq_self.mpr fun _ _ => by simp
    rw [List.foldl_nil, List.dedup_nil, hf, List.append_nil]
  | cons k ids ih =>
    have hrest : (ks.erase k).filter (· ∉ ids) = ks.filter (· ∉ k :: ids) := by
      rw [h.erase_eq_filter, List.filter_filter]
      refine List.filter_congr fun x _ => ?_
      rw [Bool.eq_iff_iff]
      simp [and_comm]
    rw [List.foldl_cons, ih (nodup_behind h k), behind, List.filter_append, hrest, List.append_assoc]
    by_cases hk : k ∈ ids
    · rw [List.dedup_cons_of_mem hk, List.filter_singleton]
      simp [hk]
    · rw [List.dedup_cons_of_notMem hk, List.filter_singleton]
      simp [hk]

end Document

/-! ## 2. The nodes of leaves -/

namespace Leaf

variable {leaves : List Leaf} {n : Nat} {k : NodeId}

theorem mem_hungAll_none : (k, none) ∈ hungAll n leaves ↔ node k ∈ leaves := by
  induction leaves generalizing n with
  | nil => simp [hungAll]
  | cons l leaves ih =>
    rw [hungAll, List.mem_append, ih, List.mem_cons]
    cases l <;> simp [hung]

/-- New nodes are numbered from `n` on. -/
theorem of_mem_hungAll_some {s : String} (h : (k, some s) ∈ hungAll n leaves) :
    ∃ i, n ≤ i ∧ i < n + newNodesAll leaves ∧ k = .ofNat i := by
  induction leaves generalizing n with
  | nil => exact absurd h List.not_mem_nil
  | cons l leaves ih =>
    rw [hungAll] at h
    rw [newNodesAll]
    rcases List.mem_append.mp h with h | h
    · cases l with
      | text r =>
        obtain ⟨hk, _⟩ := Prod.mk.inj (List.mem_singleton.mp h)
        exact ⟨n, Nat.le_refl n, by simp only [newNodes]; omega, hk⟩
      | node id =>
        obtain ⟨_, hs⟩ := Prod.mk.inj (List.mem_singleton.mp h)
        cases hs
      | keys _ => exact absurd h List.not_mem_nil
    · obtain ⟨i, h1, h2, h3⟩ := ih h
      exact ⟨i, by omega, by omega, h3⟩

/-- Each of these numbers is that of a text. -/
theorem exists_mem_hungAll_some {i : Nat} (hn : n ≤ i) (hi : i < n + newNodesAll leaves) :
    ∃ s, (NodeId.ofNat i, some s) ∈ hungAll n leaves := by
  induction leaves generalizing n with
  | nil =>
    rw [newNodesAll] at hi
    omega
  | cons l leaves ih =>
    rw [newNodesAll] at hi
    simp only [hungAll, List.mem_append]
    by_cases hl : n + l.newNodes ≤ i
    · obtain ⟨s, hs⟩ := ih hl (by omega)
      exact ⟨s, .inr hs⟩
    · cases l with
      | text s =>
        obtain rfl : i = n := by simp only [newNodes] at hl; omega
        exact ⟨s, .inl List.mem_cons_self⟩
      | node id => exact absurd hn hl
      | keys _ => exact absurd hn hl

/-- A node among those of the leaves that is old comes from a leaf. -/
theorem node_mem_of_lt {m : Nat} (hm : m ≤ n) (hn : n + newNodesAll leaves ≤ UInt32.size)
    (hk : k.index < m) (h : k ∈ (hungAll n leaves).map Prod.fst) : node k ∈ leaves := by
  obtain ⟨⟨x, o⟩, hx, rfl⟩ := List.mem_map.mp h
  cases o with
  | none => exact mem_hungAll_none.mp hx
  | some s =>
    obtain ⟨i, h1, h2, rfl⟩ := of_mem_hungAll_some hx
    rw [NodeId.index_ofNat (by omega)] at hk
    omega

end Leaf

/-! ## 3. The new element and the old nodes -/

namespace Document

variable {c : Config} {e : NodeId} {d d' : Document} {tag : String} {leaves : List Leaf}

section Built

variable (hw : WellFormed d) (hsize : d'.size < UInt32.size)
  (hrun : (createWith c tag leaves).run d = (.ok e, d'))

include hsize hrun in
/-- The ids that a build gives out fit the word. -/
theorem size_built : d.size < UInt32.size ∧ d.size + 1 + Leaf.newNodesAll leaves ≤ UInt32.size := by
  have hlt : d.size < UInt32.size :=
    Nat.lt_of_le_of_lt (size_le_edits (edits_of_createWith hrun)) hsize
  have hs := size_createWith hlt hrun
  exact ⟨hlt, by omega⟩

include hw hrun in
theorem wellFormed_createWith : WellFormed d' := hw.edits (edits_of_createWith hrun)

include hw hsize hrun in
/-- **The new element has the nodes of the leaves as children**, each where it was named last. -/
theorem children_createWith :
    d'.children e = ((Leaf.hungAll (d.size + 1) leaves).map Prod.fst).dedup := by
  have hlt := (size_built hsize hrun).1
  have hg := hangs_createWith hw (Nat.le_of_lt hsize) hrun
  obtain ⟨rfl, _⟩ := run_createWith_eq_ok hrun
  rw [hg.inside, hw.children_new hlt, foldl_behind List.nodup_nil]
  rfl

include hw hsize hrun in
/-- Every other node that was there has lost the nodes of the leaves, and no other. -/
theorem children_createWith_of_contains {q : NodeId} (hq : d.contains q = true) :
    d'.children q = (d.children q).filter (· ∉ Leaf.nodes leaves) := by
  obtain ⟨hlt, hle⟩ := size_built hsize hrun
  have hg := hangs_createWith hw (Nat.le_of_lt hsize) hrun
  have hqe : q ≠ e := by
    obtain ⟨rfl, _⟩ := run_createWith_eq_ok hrun
    exact fun he => not_contains_new hlt (he ▸ hq)
  rw [hg.outside q hqe]
  refine List.filter_congr fun x hx => decide_eq_decide.mpr (not_congr ?_)
  -- a child of an old node is old, so it is no new text
  have hi := contains_iff_lt.mp (hw.arranged.contains_kid hx)
  rw [Leaf.mem_nodes]
  exact ⟨Leaf.node_mem_of_lt (Nat.le_succ d.size) hle hi, fun h =>
    List.mem_map_of_mem (f := Prod.fst) (Leaf.mem_hungAll_none.mpr h)⟩

include hw hsize hrun in
/-- **The new element hangs nowhere.** It is under no old node, and no node is under itself. -/
theorem parent?_createWith : d'.parent? e = none := by
  have hw' := wellFormed_createWith hw hrun
  have hlt := (size_built hsize hrun).1
  have hg := hangs_createWith hw (Nat.le_of_lt hsize) hrun
  refine Option.eq_none_iff_forall_ne_some.mpr fun p hp => ?_
  have hm := (hw'.arranged.parent p e).mp hp
  by_cases hpe : p = e
  · subst hpe
    exact List.cons_ne_self p _ (hw'.path_child hm).symm
  · rw [hg.outside p hpe] at hm
    have hc := hw.arranged.contains_kid (List.mem_filter.mp hm).1
    obtain ⟨rfl, _⟩ := run_createWith_eq_ok hrun
    exact not_contains_new hlt hc

end Built

/-! ## 4. A whole build -/

/-- **All places after a build that gives a result.** The new element is behind the nodes there were and
    hangs nowhere. Its children are the nodes of the leaves, the new texts numbered on from it, each where
    it was named last. The texts are there, and the old nodes have lost the nodes of the leaves and nothing
    else. -/
theorem places_build {b : Builder} {calls : List Action} {tag : String} {content : Argument}
    (hd : b.document = fresh.after calls) (hb : (b.build tag content).result = .ok e)
    (hd' : (b.build tag content).builder.document = d') (hsize : d'.size < UInt32.size) :
    let d := b.document
    let hung := Leaf.hungAll (d.size + 1) content.leaves
    e = .ofNat d.size ∧ d'.parent? e = none ∧ d'.children e = (hung.map Prod.fst).dedup ∧
      d'.size = d.size + 1 + Leaf.newNodesAll content.leaves ∧
      (∀ k s, (k, some s) ∈ hung → d'.text? k = some s) ∧
      ∀ q, d.contains q = true → d'.children q = (d.children q).filter (· ∉ Leaf.nodes content.leaves) := by
  intro d hung
  have hw : WellFormed b.document := hd ▸ wellFormed_after calls
  have hrun := Builder.run_createWith_of_build hb
  rw [hd'] at hrun
  have hlt := (size_built hsize hrun).1
  have hg := hangs_createWith hw (Nat.le_of_lt hsize) hrun
  exact ⟨(run_createWith_eq_ok hrun).1, parent?_createWith hw hsize hrun,
    children_createWith hw hsize hrun, size_createWith hlt hrun,
    fun k s hk => text?_eq_some_iff.mpr (hg.text k s hk),
    fun q hq => children_createWith_of_contains hw hsize hrun hq⟩

/-- A list takes the middle one of three paragraphs twice, around two texts, and then the first text
    again. -/
theorem places_build_twice :
    let calls : List Action := [.createElement "div", .createElement "p", .createElement "p",
      .createElement "p", .append ⟨1⟩ ⟨2⟩, .append ⟨1⟩ ⟨3⟩, .append ⟨1⟩ ⟨4⟩]
    let b : Builder := { document := fresh.after calls }
    let content := Argument.list [.node ⟨3⟩, .text "x", .list [.node ⟨3⟩, .attributes ⟨[], some "y"⟩],
      .node ⟨6⟩]
    let d' := (b.build "ul" content).builder.document
    d'.parent? ⟨5⟩ = none ∧ d'.children ⟨5⟩ = [⟨3⟩, ⟨7⟩, ⟨6⟩] ∧ d'.size = 8 ∧ d'.text? ⟨6⟩ = some "x" ∧
      d'.text? ⟨7⟩ = some "y" ∧ b.document.children ⟨1⟩ = [⟨2⟩, ⟨3⟩, ⟨4⟩] ∧
      d'.children ⟨1⟩ = [⟨2⟩, ⟨4⟩] := by
  intro calls b content d'
  have hb : (b.build "ul" content).result = .ok ⟨5⟩ := by decide +kernel
  obtain ⟨_, hp, hc, hs, ht, hq⟩ := places_build rfl hb rfl (by decide +kernel)
  have hold : b.document.children ⟨1⟩ = [⟨2⟩, ⟨3⟩, ⟨4⟩] := by decide +kernel
  have hq₁ := hq ⟨1⟩ (by decide +kernel)
  rw [hold] at hq₁
  exact ⟨hp, hc.trans (by decide +kernel), hs.trans (by decide +kernel),
    ht ⟨6⟩ "x" (by decide +kernel), ht ⟨7⟩ "y" (by decide +kernel), hold, hq₁.trans (by decide +kernel)⟩

end Document

end DomBuilder
