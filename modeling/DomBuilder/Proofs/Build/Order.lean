import DomBuilder.Proofs.Build.Places
import DomBuilder.Proofs.Build.Result
import DomBuilder.Proofs.Sameness

/-!
# Attributes and children in any mixture

The leaves of a build set attributes of its element or hang nodes into it, and an argument may mix the two.
This file fixes that they do not meet, so that only the order within each kind counts:

* `Leaf.Reordered`: the same leaves of each kind in the same order. What a build comes to is told by one of
  the two kinds at a time: faults (`firstFault?_eq_none_iff_parts`), attributes (`flatMap_entries_filter`),
  and places (`hungAll_filter`);
* `Loose.run_forM_reordered`: leaves in another mixture succeed if those in the first do, and leave the same
  document;
* `build_reordered`: the same of a build.
-/

namespace DomBuilder

/-! ## 1. Two kinds of leaves -/

namespace Leaf

/-- The leaf sets attributes. -/
def isKeys : Leaf → Bool
  | keys _ => true
  | _ => false

/-- The leaves that set attributes are the same in the same order, and so are the texts and nodes. How the
    two are mixed is left open. -/
structure Reordered (leaves leaves' : List Leaf) : Prop where
  keys : leaves'.filter isKeys = leaves.filter isKeys
  others : leaves'.filter (!isKeys ·) = leaves.filter (!isKeys ·)

theorem flatMap_entries_filter (leaves : List Leaf) :
    leaves.flatMap entries = (leaves.filter isKeys).flatMap entries := by
  induction leaves with
  | nil => rfl
  | cons l leaves ih => cases l <;> simp [isKeys, entries, ih, List.filter_cons]

theorem newNodesAll_filter (leaves : List Leaf) :
    newNodesAll leaves = newNodesAll (leaves.filter (!isKeys ·)) := by
  induction leaves with
  | nil => rfl
  | cons l leaves ih => cases l <;> simp [isKeys, newNodesAll, newNodes, ih]

theorem hungAll_filter (n : Nat) (leaves : List Leaf) :
    hungAll n leaves = hungAll n (leaves.filter (!isKeys ·)) := by
  induction leaves generalizing n with
  | nil => rfl
  | cons l leaves ih =>
    rw [hungAll, ih]
    cases l <;> simp [isKeys, hungAll, newNodes, hung]

/-- **What is wrong with keys does not lie in the number of nodes, and keys do not change that number.** -/
theorem firstFault?_eq_none_iff_parts {c : Config} {n size : Nat} {leaves : List Leaf} :
    firstFault? c n size leaves = none ↔
      (∀ l ∈ leaves.filter isKeys, l.fault? c n 0 = none) ∧
      firstFault? c n size (leaves.filter (!isKeys ·)) = none := by
  induction leaves generalizing size with
  | nil => simp [firstFault?]
  | cons l leaves ih =>
    rw [firstFault?, Option.or_eq_none_iff, ih]
    cases l with
    | text s => simp [isKeys, firstFault?, fault?]
    | node id => simp [isKeys, firstFault?, and_left_comm]
    | keys entries => simp [isKeys, newNodes, fault?, and_assoc]

section Reordered

variable {leaves leaves' : List Leaf} (h : Reordered leaves leaves')

include h

theorem Reordered.entries : leaves'.flatMap entries = leaves.flatMap entries := by
  rw [flatMap_entries_filter, h.keys, ← flatMap_entries_filter]

theorem Reordered.newNodesAll : newNodesAll leaves' = newNodesAll leaves := by
  rw [newNodesAll_filter, h.others, ← newNodesAll_filter]

theorem Reordered.hungAll (n : Nat) : hungAll n leaves' = hungAll n leaves := by
  rw [hungAll_filter, h.others, ← hungAll_filter]

theorem Reordered.firstFault?_eq_none_iff {c : Config} {n size : Nat} :
    firstFault? c n size leaves' = none ↔ firstFault? c n size leaves = none := by
  rw [firstFault?_eq_none_iff_parts, h.keys, h.others, ← firstFault?_eq_none_iff_parts]

end Reordered

end Leaf

namespace Document

variable {c : Config} {e : NodeId} {d d' d'' : Document} {tag : String} {leaves leaves' : List Leaf}

/-! ## 2. Leaves in another mixture -/

/-- **Two mixtures that both succeed leave the same document.** Its contents are the old ones, the element
    with the attributes of the one kind of leaves, and the texts of the other kind, which alone makes the
    child lists. -/
theorem eq_of_forM (h : WellFormed d) {el : Element} (hel : d.element? e = some el)
    (hsize : d'.size ≤ UInt32.size) (hrun : (leaves.forM (Leaf.place c e)).run d = (.ok (), d'))
    (hrun' : (leaves'.forM (Leaf.place c e)).run d = (.ok (), d''))
    (hr : Leaf.Reordered leaves leaves') : d'' = d' := by
  have hs : d'.size = d.size + Leaf.newNodesAll leaves := size_forM hel hrun
  have hs' : d''.size = d'.size := by rw [size_forM hel hrun', hr.newNodesAll, hs]
  have hw := rewrites_forM hel hrun
  have hw' := rewrites_forM hel hrun'
  have hg := hangs_forM h hel hsize hrun
  have hg' := hangs_forM h hel (hs' ▸ hsize) hrun'
  rw [hr.entries] at hw'
  rw [hr.hungAll] at hg'
  have hwf : WellFormed d' := by
    have := h.run (edits_forM (c := c) (e := e) leaves)
    rwa [hrun] at this
  have hwf' : WellFormed d'' := by
    have := h.run (edits_forM (c := c) (e := e) leaves')
    rwa [hrun'] at this
  refine hwf.eq_of_children hwf' (sameBeyond_of_size_le hsize hs') (hw'.symbols.trans hw.symbols.symm)
    (fun x => ?_) fun q => ?_
  · -- the element, an old node, a new text, or no node
    by_cases hxe : x = e
    · rw [hxe, element?_eq_some_iff.mp (hw.element el hel), element?_eq_some_iff.mp (hw'.element el hel)]
    by_cases hx : d.contains x = true
    · rw [hw.content x hxe hx, hw'.content x hxe hx]
    by_cases hnew : x.index < d'.size
    · rw [contains_iff_lt, Nat.not_lt] at hx
      obtain ⟨s, hm⟩ := Leaf.exists_mem_hungAll_some hx (hs ▸ hnew)
      rw [NodeId.ofNat_index] at hm
      rw [hg.text x s hm, hg'.text x s hm]
    · rw [content?, content?, get?_of_not_contains (mt contains_iff_lt.mp hnew),
        get?_of_not_contains (mt contains_iff_lt.mp (hs' ▸ hnew))]
  · by_cases hq : q = e
    · rw [hq, hg.inside, hg'.inside]
    · rw [hg.outside q hq, hg'.outside q hq]

/-- **Where leaves go into a loose element, they go into it in every other mixture, and to the same
    effect.** -/
theorem Loose.run_forM_reordered (h : Loose d e) (hsize : d'.size ≤ UInt32.size)
    (hrun : (leaves.forM (Leaf.place c e)).run d = (.ok (), d'))
    (hr : Leaf.Reordered leaves leaves') : (leaves'.forM (Leaf.place c e)).run d = (.ok (), d') := by
  obtain ⟨el, hel⟩ := h.element
  have hs := size_forM hel hrun
  have hfault : ((leaves.forM (Leaf.place c e)).run d).1 =
      settle (Leaf.firstFault? c e.index d.size leaves) := h.fst_run_forM (by rw [hrun]; exact hsize)
  rw [hrun] at hfault
  cases hf : Leaf.firstFault? c e.index d.size leaves with
  | some err =>
    rw [hf] at hfault
    cases hfault
  | none =>
    obtain ⟨d'', hrun'⟩ := h.run_forM_of_no_fault (by rw [hr.newNodesAll, ← hs]; exact hsize)
      (hr.firstFault?_eq_none_iff.mpr hf)
    rw [hrun', eq_of_forM h.wellFormed hel hsize hrun hrun' hr]

/-! ## 3. A whole build -/

theorem run_createWith_reordered (hw : WellFormed d) (hsize : d'.size < UInt32.size)
    (h : (createWith c tag leaves).run d = (.ok e, d')) (hr : Leaf.Reordered leaves leaves') :
    (createWith c tag leaves').run d = (.ok e, d') := by
  obtain ⟨id, d₁, h₁, h₂⟩ := Operation.run_bind_eq_ok h
  obtain ⟨⟨⟩, d₂, h₃, h₄⟩ := Operation.run_bind_eq_ok h₂
  cases h₄
  obtain ⟨rfl, el, t, rfl, _⟩ := run_createElement_eq_ok h₁
  have hlt : d.size < UInt32.size :=
    size_lt_of_forM (size_added d (.element el) t) (by rw [h₃]; exact Nat.le_of_lt hsize)
  have hl := loose_added hw hlt el t
  rw [run_createWith_of_created h₁, hl.run_forM_reordered (Nat.le_of_lt hsize) h₃ hr]
  rfl

/-- **Attributes and children of a build do not interfere.** Where a build succeeds, it succeeds with its
    leaves in every other order that leaves the attributes among themselves and the texts and nodes among
    themselves as they are. It gives the same element and leaves the same builder: nodes, ids, links,
    attributes in their order, and symbols. -/
theorem build_reordered {b : Builder} {calls : List Action} {content content' : Argument}
    (hd : b.document = fresh.after calls) (hb : (b.build tag content).result = .ok e)
    (hsize : (b.build tag content).builder.document.size < UInt32.size)
    (hr : Leaf.Reordered content.leaves content'.leaves) :
    (b.build tag content').result = .ok e ∧
      (b.build tag content').builder = (b.build tag content).builder := by
  have hw : WellFormed b.document := hd ▸ wellFormed_after calls
  have hrun := run_createWith_reordered hw hsize (Builder.run_createWith_of_build hb) hr
  obtain ⟨d, c, lent⟩ := b
  cases lent with
  | true => cases hb
  | false =>
    rw [← Builder.build_eq] at hrun
    obtain ⟨hres, hdoc⟩ := Prod.mk.inj hrun
    exact ⟨hres, congrArg (Builder.mk · c false) hdoc⟩

/-- A paragraph with two texts, a moved element and two sets of attributes: one set before and one among the
    others, or both behind the first text. -/
theorem build_reordered_paragraph :
    let calls : List Action := [.createElement "div", .createElement "b", .append ⟨1⟩ ⟨2⟩]
    let b : Builder := { document := fresh.after calls }
    let content := Argument.list [.attributes ⟨[("klass", "x")], none⟩, .text "a", .node ⟨2⟩,
      .attributes ⟨[("id", "u"), ("klass", "y")], none⟩, .attributes ⟨[], some "z"⟩]
    let content' := Argument.list [.text "a", .attributes ⟨[("klass", "x")], none⟩,
      .attributes ⟨[("id", "u"), ("klass", "y")], none⟩, .list [.node ⟨2⟩, .text "z"]]
    (b.build "p" content').result = .ok ⟨3⟩ ∧
      (b.build "p" content').builder = (b.build "p" content).builder ∧
      (b.build "p" content).builder.document.outerHtml ⟨3⟩ = "<p class=\"y\" id=\"u\">a<b></b>z</p>" := by
  intro calls b content content'
  have hb : (b.build "p" content).result = .ok ⟨3⟩ := by decide +kernel
  have hr : Leaf.Reordered content.leaves content'.leaves := ⟨by decide +kernel, by decide +kernel⟩
  obtain ⟨hres, hsame⟩ := build_reordered rfl hb (by decide +kernel) hr
  exact ⟨hres, hsame, by decide +kernel⟩

end Document

end DomBuilder
