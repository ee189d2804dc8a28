import DomBuilder.Proofs.Build.Places

/-!
# The markup of what was built

An element that was built is written leaf by leaf, and a node that was moved into it is written as it
was in its old place. This file fixes:

* `Leaf.markup`, `Leaf.content`: what a leaf adds to the markup and to the text of its element, told of
  the document before the build;
* `Leaf.Apart`: the nodes among the leaves were there, differ, and none lies under another;
* `nodup_hungAll`, `children_built`: then the children of the new element are the nodes of the leaves
  in order;
* `tree_moved_leaf`: then every node among them keeps its tree, as no other move reaches below it;
* `outerHtml_build`: the markup and the text of the new element.
-/

namespace DomBuilder

open Markup

/-! ## 1. What a leaf adds -/

namespace Leaf

/-- What a leaf adds to the markup of an element labelled `l`: its text, or the markup that its node had
    in `d`. A text node is written by the element it comes under. -/
def markup (d : Document) (l : Label) : Leaf → String
  | text s => Label.writeText (some l) s
  | node id =>
    match d.text? id with
    | some s => Label.writeText (some l) s
    | none => d.outerHtml id
  | keys _ => ""

/-- What a leaf adds to the text: its own, or that of its node in `d`. -/
def content (d : Document) : Leaf → String
  | text s => s
  | node id => d.textContent id
  | keys _ => ""

/-- The nodes among the leaves are there, differ, and none lies under another. -/
structure Apart (d : Document) (leaves : List Leaf) : Prop where
  there : ∀ id ∈ nodes leaves, d.contains id = true
  nodup : (nodes leaves).Nodup
  unrelated : ∀ a ∈ nodes leaves, ∀ b ∈ nodes leaves, a ≠ b → d.isInclusiveAncestor a b = false

/-! ## 2. The nodes of leaves -/

variable {leaves : List Leaf} {n : Nat} {k : NodeId}

/-- **Old nodes that differ, and new ones, are all different.** -/
theorem nodup_hungAll {m : Nat} (hm : m ≤ n) (hn : n + newNodesAll leaves ≤ UInt32.size)
    (hold : ∀ id, node id ∈ leaves → id.index < m) (hd : (nodes leaves).Nodup) :
    ((hungAll n leaves).map Prod.fst).Nodup := by
  induction leaves generalizing n with
  | nil => exact List.nodup_nil
  | cons l leaves ih =>
    rw [newNodesAll] at hn
    have hold' : ∀ id, node id ∈ leaves → id.index < m :=
      fun id h => hold id (List.mem_cons_of_mem _ h)
    have hn' : n + l.newNodes + newNodesAll leaves ≤ UInt32.size := by omega
    rw [hungAll, List.map_append]
    cases l with
    | text s =>
      refine List.nodup_cons.mpr ⟨fun h => ?_, ih (by omega) hn' hold' hd⟩
      have hlt : n < UInt32.size := by simp only [newNodes] at hn; omega
      obtain ⟨⟨x, o⟩, hx, he⟩ := List.mem_map.mp h
      cases o with
      | none =>
        have hi := hold' x (mem_hungAll_none.mp hx)
        rw [show x = .ofNat n from he, NodeId.index_ofNat hlt] at hi
        omega
      | some r =>
        obtain ⟨i, h1, h2, hi⟩ := of_mem_hungAll_some hx
        have hii := congrArg NodeId.index (hi.symm.trans (show x = .ofNat n from he))
        rw [NodeId.index_ofNat (by omega), NodeId.index_ofNat hlt] at hii
        simp only [newNodes] at h1
        omega
    | node id =>
      obtain ⟨hid, hd'⟩ := List.nodup_cons.mp hd
      refine List.nodup_cons.mpr ⟨fun h => ?_, ih (by omega) hn' hold' hd'⟩
      have hi := hold id List.mem_cons_self
      exact hid (mem_nodes.mpr (node_mem_of_lt (by omega) hn' hi h))
    | keys entries => exact ih (by omega) hn' hold' hd

/-- What is joined over the nodes of leaves is joined over the leaves. -/
theorem join_hungAll {f : NodeId × Option String → String} {f' : Leaf → String}
    (htext : ∀ k s, (k, some s) ∈ hungAll n leaves → f (k, some s) = f' (text s))
    (hnode : ∀ k, (k, none) ∈ hungAll n leaves → f (k, none) = f' (node k))
    (hkeys : ∀ entries, f' (keys entries) = "") :
    String.join ((hungAll n leaves).map f) = String.join (leaves.map f') := by
  induction leaves generalizing n with
  | nil => rfl
  | cons l leaves ih =>
    rw [hungAll] at htext hnode ⊢
    have hi := ih (n := n + l.newNodes) (fun k s h => htext k s (List.mem_append_right _ h))
      (fun k h => hnode k (List.mem_append_right _ h))
    rw [List.map_append, List.map_cons, String.join_cons, ← hi]
    cases l with
    | text s =>
      rw [hung, List.map_singleton, List.singleton_append, String.join_cons]
      rw [htext _ s (List.mem_append_left _ List.mem_cons_self)]
    | node id =>
      rw [hung, List.map_singleton, List.singleton_append, String.join_cons]
      rw [hnode id (List.mem_append_left _ List.mem_cons_self)]
    | keys entries =>
      rw [hkeys, String.empty_append]
      rfl

end Leaf

namespace Document

variable {c : Config} {e : NodeId} {d d' : Document}

/-! ## 3. The children of the new element -/

section Built

variable {tag : String} {leaves : List Leaf} (hw : WellFormed d) (ht : Tabled d)
  (hsize : d'.size < UInt32.size) (hrun : (createWith c tag leaves).run d = (.ok e, d'))

include hw hsize hrun in
/-- **The new element has the nodes of the leaves as children.** -/
theorem children_built (ha : Leaf.Apart d leaves) :
    d'.children e = (Leaf.hungAll (d.size + 1) leaves).map Prod.fst := by
  have hle := (size_built hsize hrun).2
  have hn := Leaf.nodup_hungAll (Nat.le_succ d.size) hle
    (fun id hid => contains_iff_lt.mp (ha.there id (Leaf.mem_nodes.mpr hid))) ha.nodup
  rw [children_createWith hw hsize hrun, hn.dedup]

include hw hsize hrun in
/-- From a moved node downward nothing has changed. -/
theorem sameBelow_leaf (ha : Leaf.Apart d leaves) {k : NodeId} (hk : Leaf.node k ∈ leaves) :
    SameBelow d d' k := by
  obtain ⟨hlt, hle⟩ := size_built hsize hrun
  have hg := hangs_createWith hw (Nat.le_of_lt hsize) hrun
  have hb := built_of_createWith hlt hrun
  intro x hx
  have hxc := contains_of_mem_path hx
  have hxe : x ≠ e := by
    obtain ⟨rfl, _⟩ := run_createWith_eq_ok hrun
    exact fun he => not_contains_new hlt (he ▸ hxc)
  refine ⟨?_, hb.content x hxc⟩
  rw [hg.outside x hxe]
  refine List.filter_eq_self.mpr fun y hy => decide_eq_true fun hyg => ?_
  -- a child of `x` among the leaves would lie under `k`
  have hyc := hw.arranged.contains_kid hy
  have hyl := Leaf.node_mem_of_lt (Nat.le_succ d.size) hle (contains_iff_lt.mp hyc) hyg
  have hky : k ≠ y := by
    rintro rfl
    exact hw.not_mem_path_parent hy hx
  have hu := ha.unrelated k (Leaf.mem_nodes.mpr hk) y (Leaf.mem_nodes.mpr hyl) hky
  rw [isInclusiveAncestor_iff.mpr (hw.mem_path_child hy hx)] at hu
  cases hu

theorem tabled_createWith (ht : Tabled d)
    (hrun : (createWith c tag leaves).run d = (.ok e, d')) : Tabled d' :=
  ht.edits (edits_of_createWith hrun)

include hw ht hsize hrun in
/-- **A node that was moved into the new element keeps its tree.** -/
theorem tree_moved_leaf (ha : Leaf.Apart d leaves) {k : NodeId} (hk : Leaf.node k ∈ leaves) :
    d'.tree k = d.tree k :=
  tree_congr hw (wellFormed_createWith hw hrun) ht
    (built_of_createWith (size_built hsize hrun).1 hrun).symbols
    (ha.there k (Leaf.mem_nodes.mpr hk))
    (sameBelow_leaf hw hsize hrun ha hk)

/-- A node that is no text is written alike wherever it is. -/
theorem outerHtml_of_no_text (hw : WellFormed d) (ht : Tabled d) {k : NodeId}
    (hk : d.text? k = none) (l : Option Label) : d.outerHtml k = (d.tree k).write l := by
  rw [outerHtml_eq hw ht, tree_eq hw ht]
  rw [text?_eq_content?] at hk
  cases hc : d.content? k with
  | none => rfl
  | some x =>
    cases x with
    | document => rfl
    | text s => rw [hc] at hk; cases hk
    | element el => rfl

include hw ht hsize hrun in
/-- The markup of the children, leaf by leaf. -/
theorem writeAll_built (ha : Leaf.Apart d leaves) (l : Label) :
    Tree.writeAll (some l) ((d'.children e).map d'.tree) =
      String.join (leaves.map (Leaf.markup d l)) := by
  rw [children_built hw hsize hrun ha, Tree.writeAll_eq, List.map_map, List.map_map]
  refine Leaf.join_hungAll (fun k s hk => ?_) (fun k hk => ?_) fun _ => rfl
  · have hs := (hangs_createWith hw (Nat.le_of_lt hsize) hrun).text k s hk
    show (d'.tree k).write (some l) = Label.writeText (some l) s
    rw [tree_of_text (wellFormed_createWith hw hrun) (tabled_createWith ht hrun)
      (text?_eq_some_iff.mpr hs)]
    rfl
  · have hkl := Leaf.mem_hungAll_none.mp hk
    show (d'.tree k).write (some l) = Leaf.markup d l (.node k)
    rw [tree_moved_leaf hw ht hsize hrun ha hkl, Leaf.markup]
    cases hs : d.text? k with
    | some s => rw [tree_of_text hw ht hs]; rfl
    | none => exact (outerHtml_of_no_text hw ht hs (some l)).symm

include hw ht hsize hrun in
/-- The text of the children, leaf by leaf. -/
theorem contentAll_built (ha : Leaf.Apart d leaves) :
    Tree.contentAll ((d'.children e).map d'.tree) = String.join (leaves.map (Leaf.content d)) := by
  rw [children_built hw hsize hrun ha, Tree.contentAll_eq, List.map_map, List.map_map]
  refine Leaf.join_hungAll (fun k s hk => ?_) (fun k hk => ?_) fun _ => rfl
  · have hs := (hangs_createWith hw (Nat.le_of_lt hsize) hrun).text k s hk
    show (d'.tree k).content = s
    rw [tree_of_text (wellFormed_createWith hw hrun) (tabled_createWith ht hrun)
      (text?_eq_some_iff.mpr hs)]
    rfl
  · show (d'.tree k).content = d.textContent k
    rw [tree_moved_leaf hw ht hsize hrun ha (Leaf.mem_hungAll_none.mp hk), textContent_eq]

end Built

/-! ## 4. The markup and the text -/

/-- **What was built is written as its start tag, then, unless it is a void element, its leaves in order
    and its end tag; its text is that of its leaves**, as long as the ids fit the word. -/
theorem outerHtml_build {b : Builder} {calls : List Action} {tag : String} {content : Argument}
    (hd : b.document = fresh.after calls) (hb : (b.build tag content).result = .ok e)
    (hd' : (b.build tag content).builder.document = d') (hsize : d'.size < UInt32.size)
    (ha : Leaf.Apart b.document content.leaves) :
    ∃ el, d'.element? e = some el ∧
      d'.outerHtml e = startTag (d'.label el).tagName (d'.label el).attributes ++
        (if (d'.label el).isVoid then ""
        else String.join (content.leaves.map (Leaf.markup b.document (d'.label el))) ++
          endTag (d'.label el).tagName) ∧
      d'.textContent e = String.join (content.leaves.map (Leaf.content b.document)) := by
  have hw : WellFormed b.document := hd ▸ wellFormed_after calls
  have ht : Tabled b.document := hd ▸ tabled_after calls
  have hrun := Builder.run_createWith_of_build hb
  rw [hd'] at hrun
  obtain ⟨el, hel, _⟩ := (built_of_createWith (size_built hsize hrun).1 hrun).element
  have hw' := wellFormed_createWith hw hrun
  have ht' := tabled_createWith ht hrun
  refine ⟨el, hel, ?_, ?_⟩
  · rw [outerHtml_eq hw' ht', tree_of_element hw' ht' hel, Tree.write]
    rw [writeAll_built hw ht hsize hrun ha]
    by_cases hv : (d'.label el).isVoid = true
    · rw [if_pos hv, if_pos hv, String.append_empty]
    · rw [if_neg hv, if_neg hv, String.append_assoc]
  · rw [textContent_eq, tree_of_element hw' ht' hel, Tree.content]
    exact contentAll_built hw ht hsize hrun ha

/-- A bold element and a text node come into a paragraph, around a list with a text and a map that is read
    as its value; last a map with neither keys nor a value. -/
theorem outerHtml_build_paragraph :
    let calls : List Action :=
      [.createElement "b", .createText "1<2", .append ⟨1⟩ ⟨2⟩, .createText "&"]
    let b : Builder := { document := fresh.after calls }
    let content := Argument.list [.node ⟨1⟩, .list [.empty, .text "x"], .attributes ⟨[("klass", "c")], none⟩,
      .attributes ⟨[], some "2>1"⟩, .node ⟨3⟩, .attributes ⟨[], none⟩]
    let d' := (b.build "p" content).builder.document
    (∃ el, d'.element? ⟨4⟩ = some el ∧
      d'.outerHtml ⟨4⟩ = startTag (d'.label el).tagName (d'.label el).attributes ++
        (if (d'.label el).isVoid then ""
        else String.join (content.leaves.map (Leaf.markup b.document (d'.label el))) ++
          endTag (d'.label el).tagName) ∧
      d'.textContent ⟨4⟩ = String.join (content.leaves.map (Leaf.content b.document))) ∧
    d'.outerHtml ⟨4⟩ = "<p class=\"c\"><b>1&lt;2</b>x2&gt;1&amp;[object Object]</p>" :=
  ⟨outerHtml_build rfl rfl rfl (by decide +kernel)
    ⟨by decide +kernel, by decide +kernel, by decide +kernel⟩, by decide +kernel⟩

end Document

end DomBuilder
