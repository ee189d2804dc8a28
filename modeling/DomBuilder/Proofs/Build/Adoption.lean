import DomBuilder.Proofs.Build.Markup
import DomBuilder.Proofs.Build.Result

/-!
# An element built out of the children of another node

The children of a node are listed first, and the build then takes the links apart that they were read from,
one child after another. This file fixes that it does not matter:

* `WellFormed.apart_children`: children of one node differ and none lies under another, so that no move
  reaches the trees of the others;
* `run_createWith_nodes`: nodes that are there, the document apart, all go into a new element, and it is the
  only node more;
* `textContent_of_no_text`: what is no text has the text of its children;
* `children_adopted`: the new element has the children, in their order, and no other list but that of their
  parent has changed.
-/

namespace DomBuilder

/-! ## 1. Nodes as leaves -/

theorem Argument.leavesAll_nodes (ids : List NodeId) :
    Argument.leavesAll (ids.map .node) = ids.map .node := by
  induction ids with
  | nil => rfl
  | cons id ids ih =>
    rw [List.map_cons, Argument.leavesAll, ih]
    rfl

namespace Leaf

theorem nodes_map_node (ids : List NodeId) : nodes (ids.map node) = ids := by
  rw [nodes, List.filterMap_map]
  exact List.filterMap_some

theorem newNodesAll_nodes (ids : List NodeId) : newNodesAll (ids.map node) = 0 := by
  induction ids with
  | nil => rfl
  | cons id ids ih =>
    rw [List.map_cons, newNodesAll, ih]
    rfl

theorem map_hungAll_nodes (n : Nat) (ids : List NodeId) :
    (hungAll n (ids.map node)).map Prod.fst = ids := by
  induction ids generalizing n with
  | nil => rfl
  | cons id ids ih =>
    rw [List.map_cons, hungAll, List.map_append, ih]
    rfl

theorem firstFault?_nodes {c : Config} {n size : Nat} {ids : List NodeId}
    (h : ∀ id ∈ ids, nodeFault? n size id = none) : firstFault? c n size (ids.map node) = none := by
  induction ids with
  | nil => rfl
  | cons id ids ih =>
    rw [List.map_cons, firstFault?, Option.or_eq_none_iff]
    exact ⟨h id List.mem_cons_self, ih fun x hx => h x (List.mem_cons_of_mem _ hx)⟩

end Leaf

namespace Document

variable {c : Config} {e : NodeId} {d : Document} {tag : String}

/-- **Nodes that are there, the document apart, all go into a new element**, which is the only node more. -/
theorem run_createWith_nodes (hw : WellFormed d) (hsize : d.size + 1 < UInt32.size) {ids : List NodeId}
    (hids : ∀ id ∈ ids, d.contains id = true ∧ id ≠ .root)
    (htag : ((BuildM.createElement c tag).run d).1 = .ok e) :
    ∃ d', (createWith c tag (ids.map .node)).run d = (.ok e, d') ∧ d'.size = d.size + 1 := by
  have hlt : d.size < UInt32.size := Nat.lt_of_succ_lt hsize
  obtain ⟨d₁, hrun⟩ : ∃ d₁, (BuildM.createElement c tag).run d = (.ok e, d₁) := ⟨_, Prod.ext htag rfl⟩
  obtain ⟨rfl, el, t, rfl, _⟩ := run_createElement_eq_ok hrun
  have hnone : Leaf.firstFault? c (NodeId.ofNat d.size).index (d.added (.element el) t).size
      (ids.map .node) = none := by
    refine Leaf.firstFault?_nodes fun id hid => Leaf.nodeFault?_eq_none_iff.mpr ?_
    obtain ⟨hc, hr⟩ := hids id hid
    have hi := contains_iff_lt.mp hc
    rw [NodeId.index_ofNat hlt, size_added]
    exact ⟨hr, by omega, by omega⟩
  obtain ⟨d', hrun'⟩ := (loose_added hw hlt el t).run_forM_of_no_fault
    (by rw [Leaf.newNodesAll_nodes, size_added]; exact Nat.le_of_lt hsize) hnone
  refine ⟨d', by rw [run_createWith_of_created hrun, hrun']; rfl, ?_⟩
  rw [size_forM (element?_added_self hlt el t) hrun', Leaf.newNodesAll_nodes, size_added, Nat.add_zero]

/-! ## 2. Children -/

/-- **Children of one node differ, and none lies under another.** -/
theorem WellFormed.apart_children (h : WellFormed d) (p : NodeId) :
    Leaf.Apart d ((d.children p).map .node) := by
  refine ⟨?_, ?_, ?_⟩ <;> rw [Leaf.nodes_map_node]
  · exact fun id hid => h.arranged.contains_kid hid
  · exact h.arranged.nodup p
  · intro x hx y hy hxy
    rw [← Bool.not_eq_true, isInclusiveAncestor_iff, h.path_child hy]
    intro hm
    -- what lies above `y` is `y` itself or lies above their parent
    rcases List.mem_cons.mp hm with rfl | hm
    · exact hxy rfl
    · exact h.not_mem_path_parent hx hm

/-- The document is nobody's child. -/
theorem WellFormed.child_ne_root (h : WellFormed d) {p k : NodeId} (hk : k ∈ d.children p) : k ≠ .root := by
  rintro rfl
  have hp := (h.arranged.parent p .root).mpr hk
  rw [h.rootParent] at hp
  cases hp

/-- **What is no text has the text of its children.** -/
theorem textContent_of_no_text (h : WellFormed d) (ht : Tabled d) {id : NodeId} (hid : d.text? id = none) :
    d.textContent id = String.join ((d.children id).map d.textContent) := by
  have hall : Tree.contentAll ((d.children id).map d.tree) =
      String.join ((d.children id).map d.textContent) := by
    rw [Tree.contentAll_eq, List.map_map]
    exact congrArg String.join (List.map_congr_left fun k _ => (textContent_eq d k).symm)
  rw [textContent_eq, tree_eq h ht, ← hall]
  rw [text?_eq_content?] at hid
  cases hk : d.content? id with
  | none =>
    have hc : ¬ d.contains id = true := fun hc => by
      obtain ⟨k, hk'⟩ := exists_content? hc
      rw [hk] at hk'
      cases hk'
    rw [h.arranged.kids_of_not_contains hc]
    rfl
  | some k =>
    cases k with
    | document => rfl
    | text s => rw [hk] at hid; cases hid
    | element el => rfl

/-! ## 3. Moved to a new element -/

/-- **A build out of the children of a node succeeds wherever an element of the tag can be created**, be the
    node the document, an element, a text or none at all. The new element is the only node more and has the
    children in their order, their old parent has none left, and the children of every other node are what
    they were. A node that was no text has given its text to the new element. -/
theorem children_adopted {b : Builder} {calls : List Action} {source : NodeId}
    (hd : b.document = fresh.after calls) (hb : b.lent = false)
    (htag : ((BuildM.createElement b.config tag).run b.document).1 = .ok e)
    (hsize : b.document.size + 1 < UInt32.size) :
    let d := b.document
    let out := b.buildFromChildren source tag
    let d' := out.builder.document
    out.result = .ok e ∧ e = .ofNat d.size ∧ d'.size = d.size + 1 ∧ d'.children e = d.children source ∧
      (d.contains source = true → d'.children source = []) ∧
      (∀ q, q ≠ source → q ≠ e → d'.children q = d.children q) ∧
      (d.text? source = none → d'.textContent e = d.textContent source) := by
  intro d out d'
  have hw : WellFormed b.document := hd ▸ wellFormed_after calls
  have ht : Tabled b.document := hd ▸ tabled_after calls
  let leaves := (d.children source).map Leaf.node
  have hleaves : (Argument.list ((d.children source).map .node)).leaves = leaves := by
    rw [Argument.leaves, Argument.leavesAll_nodes]
  have hrun := Builder.run_createWith_of_not_lent hb tag (.list ((d.children source).map .node))
  obtain ⟨d₁, hrun₁, hs⟩ := run_createWith_nodes hw hsize
    (fun id hid => ⟨hw.arranged.contains_kid hid, hw.child_ne_root hid⟩) htag
  rw [hleaves] at hrun
  obtain ⟨hres, rfl⟩ : out.result = .ok e ∧ d' = d₁ := Prod.mk.inj (hrun.symm.trans hrun₁)
  have hlt : d'.size < UInt32.size := hs ▸ hsize
  have hapart := hw.apart_children source
  have hg := hangs_createWith hw (Nat.le_of_lt hlt) hrun₁
  have he := (run_createWith_eq_ok hrun₁).1
  have hchildren : d'.children e = d.children source := by
    rw [children_built hw hlt hrun₁ hapart, Leaf.map_hungAll_nodes]
  have hout := hg.outside
  rw [Leaf.map_hungAll_nodes] at hout
  refine ⟨hres, he, hs, hchildren, fun hc => ?_, fun q hq hqe => ?_, fun htext => ?_⟩
  · have hne : source ≠ e := fun hse =>
      not_contains_new (Nat.lt_of_succ_lt hsize) (he ▸ hse ▸ hc)
    rw [hout source hne]
    exact List.filter_eq_nil_iff.mpr fun k hk => by simp [hk]
  · rw [hout q hqe]
    refine List.filter_eq_self.mpr fun k hk => decide_eq_true fun hks => ?_
    exact hq (hw.arranged.parent_unique hk hks)
  · obtain ⟨el, hel, _⟩ := (built_of_createWith (Nat.lt_of_succ_lt hsize) hrun₁).element
    rw [textContent_eq, tree_of_element (wellFormed_createWith hw hrun₁) (tabled_createWith ht hrun₁) hel,
      Tree.content, contentAll_built hw ht hlt hrun₁ hapart, textContent_of_no_text hw ht htext, List.map_map]
    rfl

/-- A paragraph, a text and a bold element with a text move from a division into a list, and the division
    from the document into a section. -/
theorem children_adopted_division :
    let calls : List Action := [.createElement "div", .createElement "p", .createText "x",
      .createElement "b", .createText "y", .append ⟨1⟩ ⟨2⟩, .append ⟨1⟩ ⟨3⟩, .append ⟨1⟩ ⟨4⟩,
      .append ⟨4⟩ ⟨5⟩, .append ⟨0⟩ ⟨1⟩]
    let b : Builder := { document := fresh.after calls }
    let d' := (b.buildFromChildren ⟨1⟩ "ul").builder.document
    let d'' := (b.buildFromChildren .root "section").builder.document
    (b.buildFromChildren ⟨1⟩ "ul").result = .ok ⟨6⟩ ∧ d'.children ⟨6⟩ = [⟨2⟩, ⟨3⟩, ⟨4⟩] ∧
      d'.children ⟨1⟩ = [] ∧ d'.children ⟨4⟩ = [⟨5⟩] ∧ d'.textContent ⟨6⟩ = "xy" ∧
      (b.buildFromChildren .root "section").result = .ok ⟨6⟩ ∧ d''.children .root = [] := by
  intro calls b d' d''
  have hsize : b.document.size + 1 < UInt32.size := by decide +kernel
  have htag : ((BuildM.createElement b.config "ul").run b.document).1 = .ok ⟨6⟩ := by decide +kernel
  have htag' : ((BuildM.createElement b.config "section").run b.document).1 = .ok ⟨6⟩ := by decide +kernel
  obtain ⟨hres, _, _, hc, hs, hq, ht⟩ := @children_adopted ⟨6⟩ "ul" b calls ⟨1⟩ rfl rfl htag hsize
  obtain ⟨hres', _, _, _, hs', _⟩ := @children_adopted ⟨6⟩ "section" b calls .root rfl rfl htag' hsize
  have hkids : b.document.children ⟨1⟩ = [⟨2⟩, ⟨3⟩, ⟨4⟩] := by decide +kernel
  have hbold : b.document.children ⟨4⟩ = [⟨5⟩] := by decide +kernel
  have htext : b.document.textContent ⟨1⟩ = "xy" := by decide +kernel
  exact ⟨hres, hc.trans hkids, hs (by decide +kernel), (hq ⟨4⟩ (by decide) (by decide)).trans hbold,
    (ht (by decide +kernel)).trans htext, hres', hs' (by decide +kernel)⟩

end Document

end DomBuilder
