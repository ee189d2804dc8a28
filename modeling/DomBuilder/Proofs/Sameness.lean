import DomBuilder.Proofs.Forest

/-!
# When two documents are the same

A document repeats each place in up to five links. This file fixes that nothing is hidden in them:

* `SameBeyond`: the same nodes at the places that no id reaches. Every change of links keeps them;
* `eq_of_get?`: a document is its symbols, the nodes that ids reach and those beyond;
* `WellFormed.eq_of_children`: a document is its symbols, its contents and its child lists. The links are
  then what they are.
-/

namespace DomBuilder.Document

variable {d d' : Document}

/-! ## 1. Places that no id reaches -/

/-- The nodes at the places that no id reaches are the same. -/
def SameBeyond (d d' : Document) : Prop := ∀ i, UInt32.size ≤ i → d'.nodes[i]? = d.nodes[i]?

/-- Where ids reach every node, there is nothing beyond. -/
theorem sameBeyond_of_size_le (hsize : d.size ≤ UInt32.size) (hs : d'.size = d.size) :
    SameBeyond d d' := by
  intro i hi
  have hd : d.size ≤ i := Nat.le_trans hsize hi
  rw [Array.getElem?_eq_none hd, Array.getElem?_eq_none (hs ▸ hd : d'.size ≤ i)]

theorem getElem?_update_beyond {i : Nat} (hi : UInt32.size ≤ i) (d : Document) (id : NodeId)
    (f : Node → Node) : (d.update id f).nodes[i]? = d.nodes[i]? := by
  have hne : id.index ≠ i := Nat.ne_of_lt (Nat.lt_of_lt_of_le id.val.toNat_lt hi)
  rw [update, Array.getElem?_modify, if_neg hne]

theorem sameBeyond_unlink (d : Document) (c : NodeId) (node : Node) (p : NodeId) :
    SameBeyond d (d.unlink c node p) := by
  intro i hi
  unfold unlink
  cases node.prevSibling <;> cases node.nextSibling <;> simp only [getElem?_update_beyond hi]

theorem sameBeyond_link (d : Document) (p c : NodeId) : SameBeyond d (d.link p c) := by
  intro i hi
  unfold link
  cases (d.get? p).bind (·.lastChild) <;> simp only [getElem?_update_beyond hi]

theorem sameBeyond_detached (d : Document) (c : NodeId) : SameBeyond d (d.detached c) := by
  intro i hi
  unfold detached
  split
  · rfl
  · split
    · rfl
    · exact sameBeyond_unlink d c _ _ i hi

/-! ## 2. What makes a document -/

/-- Two documents with the same symbols and the same nodes, where ids reach and beyond, are one. -/
theorem eq_of_get? (hb : SameBeyond d d') (ht : d'.symbols = d.symbols)
    (h : ∀ x, d'.get? x = d.get? x) : d' = d := by
  have hnodes : d'.nodes = d.nodes := by
    refine Array.ext_getElem? fun i => ?_
    by_cases hi : i < UInt32.size
    · have hx := h (.ofNat i)
      rwa [get?, get?, NodeId.index_ofNat hi] at hx
    · exact hb i (Nat.le_of_not_lt hi)
  cases d
  cases d'
  cases hnodes
  cases ht
  rfl

/-- The links of a document are those that its lists spell out, and no others. -/
theorem Arranged.sameLinks {kids : NodeId → List NodeId} (h : Arranged d kids) (h' : Arranged d' kids) :
    SameLinks d d' := by
  have hparent : ∀ x, d'.parent? x = d.parent? x := fun x =>
    Option.ext fun p => (h'.parent p x).trans (h.parent p x).symm
  have hbeside : ∀ x, d'.prev? x = d.prev? x ∧ d'.next? x = d.next? x := by
    intro x
    cases hp : d.parent? x with
    | none =>
      obtain ⟨hprev, hnext⟩ := h.alone x hp
      obtain ⟨hprev', hnext'⟩ := h'.alone x ((hparent x).trans hp)
      exact ⟨hprev'.trans hprev.symm, hnext'.trans hnext.symm⟩
    | some p =>
      obtain ⟨a, b, hk⟩ := List.append_of_mem ((h.parent p x).mp hp)
      exact ⟨(h'.prev p a x b hk).trans (h.prev p a x b hk).symm,
        (h'.next p a x b hk).trans (h.next p a x b hk).symm⟩
  exact ⟨hparent, fun p => (h'.first p).trans (h.first p).symm,
    fun p => (h'.last p).trans (h.last p).symm, fun x => (hbeside x).1, fun x => (hbeside x).2⟩

/-- **A document is its symbols, its contents and its child lists**, where ids reach. -/
theorem WellFormed.eq_of_children (h : WellFormed d) (h' : WellFormed d') (hb : SameBeyond d d')
    (ht : d'.symbols = d.symbols) (hcontent : ∀ x, d'.content? x = d.content? x)
    (hchildren : ∀ q, d'.children q = d.children q) : d' = d := by
  have hl : SameLinks d d' := h.arranged.sameLinks (funext hchildren ▸ h'.arranged)
  refine eq_of_get? hb ht fun x => ?_
  have hc := hcontent x
  unfold content? at hc
  cases hx : d.get? x with
  | none =>
    rw [hx] at hc
    exact Option.map_eq_none_iff.mp hc
  | some n =>
    rw [hx] at hc
    obtain ⟨n', hx', hk⟩ := Option.map_eq_some_iff.mp hc
    have hparent := hl.parent x
    have hfirst := hl.first x
    have hlast := hl.last x
    have hprev := hl.prev x
    have hnext := hl.next x
    simp only [parent?, first?, last?, prev?, next?, hx, hx', Option.bind_some] at *
    exact congrArg some (Node.ext hk hparent hfirst hlast hprev hnext)

end DomBuilder.Document
