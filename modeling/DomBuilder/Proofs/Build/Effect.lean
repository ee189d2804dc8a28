import DomBuilder.Proofs.Build.Calls
import DomBuilder.Proofs.Naming
import DomBuilder.Proofs.Tree

/-!
# What a build does to a document

A build that gives a result has put every leaf into its element. This file fixes what has changed then:

* `Rewrites e w d d'`: of the contents there are in `d`, only that of the element `e` differs in `d'`,
  in the attributes, which `w` gives. `AttributeList.setKeys` is that `w` for a list of leaves;
* `Hangs e g d d'`: the nodes of `g` have come behind the children of `e`, out of every other child
  list. `Leaf.hungAll` is that `g`: a new node with its text for each text, the node itself for each
  node;
* `rewrites_forM`, `hangs_forM`: both for a list of leaves, by induction with one case for each leaf;
* `Built`: the contents after a whole build (`built_of_createWith`); `hangs_createWith`: its places.
-/

namespace DomBuilder

/-! ## 1. Leaves as writes and as nodes -/

/-- The list after the attribute that `key` names is set on an element, of HTML or not. -/
def AttributeList.setKey (c : Config) (html : Bool) (l : AttributeList) (key value : String) :
    AttributeList :=
  match (AttributeKey.ofKey key).nsUri c with
  | some uri => (l.setNs ⟨some uri, none, (AttributeKey.ofKey key).localName, value⟩).2
  | none =>
    let name := (AttributeKey.ofKey key).localName
    (l.set (if html then name.toLower else name) value).2

/-- The list after each attribute in turn is set. -/
def AttributeList.setKeys (c : Config) (html : Bool) (l : AttributeList)
    (entries : List (String × String)) : AttributeList :=
  entries.foldl (fun l (key, value) => l.setKey c html key value) l

namespace Leaf

/-- The keys that a leaf sets. -/
def entries : Leaf → List (String × String)
  | keys entries => entries
  | _ => []

/-- How many nodes a leaf adds. -/
def newNodes : Leaf → Nat
  | text _ => 1
  | _ => 0

/-- How many nodes leaves add. -/
def newNodesAll : List Leaf → Nat
  | [] => 0
  | l :: rest => l.newNodes + newNodesAll rest

/-- The node of a leaf. -/
def node? : Leaf → Option NodeId
  | node id => some id
  | _ => none

/-- The nodes among the leaves, in order. -/
def nodes (leaves : List Leaf) : List NodeId := leaves.filterMap node?

theorem mem_nodes {leaves : List Leaf} {id : NodeId} : id ∈ nodes leaves ↔ node id ∈ leaves := by
  rw [nodes, List.mem_filterMap]
  constructor
  · rintro ⟨l, hl, h⟩
    cases l <;> cases h
    exact hl
  · exact fun h => ⟨node id, h, rfl⟩

/-- The node that a leaf hangs into an element, with its text if it is new, in a document of `n`
    nodes. -/
def hung (n : Nat) : Leaf → List (NodeId × Option String)
  | text s => [(.ofNat n, some s)]
  | node id => [(id, none)]
  | keys _ => []

/-- The nodes that leaves hang into an element. -/
def hungAll : Nat → List Leaf → List (NodeId × Option String)
  | _, [] => []
  | n, l :: rest => l.hung n ++ hungAll (n + l.newNodes) rest

end Leaf

/-- A sequence that gives a result went through its first part. -/
theorem Operation.run_bind_eq_ok {σ α β : Type} {x : Operation σ α} {f : α → Operation σ β}
    {s s' : σ} {b : β} (h : (x >>= f).run s = (.ok b, s')) :
    ∃ a t, x.run s = (.ok a, t) ∧ (f a).run t = (.ok b, s') := by
  rw [run_bind] at h
  rcases hx : x.run s with ⟨e | a, t⟩
  · rw [hx] at h
    cases h
  · rw [hx] at h
    exact ⟨a, t, rfl, h⟩

namespace Document

variable {c : Config} {e : NodeId} {d d' d₁ : Document} {w w' : AttributeList → AttributeList}

/-! ## 2. Contents -/

/-- Of the contents of `d`, only the attributes of `e` have changed, as `w` says. -/
structure Rewrites (e : NodeId) (w : AttributeList → AttributeList) (d d' : Document) : Prop where
  symbols : d'.symbols = d.symbols
  content : ∀ x, x ≠ e → d.contains x = true → d'.content? x = d.content? x
  element : ∀ el, d.element? e = some el →
    d'.element? e = some { el with attributes := w el.attributes }

theorem Rewrites.contains (h : Rewrites e w d d') {x : NodeId} (hxe : x ≠ e)
    (hx : d.contains x = true) : d'.contains x = true := by
  obtain ⟨k, hk⟩ := exists_content? hx
  exact contains_of_content? ((h.content x hxe hx).trans hk)

theorem Rewrites.refl (e : NodeId) (d : Document) : Rewrites e id d d :=
  ⟨rfl, fun _ _ _ => rfl, fun _ h => h⟩

theorem Rewrites.trans (h : Rewrites e w d d₁) (h' : Rewrites e w' d₁ d') :
    Rewrites e (w' ∘ w) d d' where
  symbols := h'.symbols.trans h.symbols
  content x hxe hx := (h'.content x hxe (h.contains hxe hx)).trans (h.content x hxe hx)
  element el hel := h'.element _ (h.element el hel)

/-- A change that leaves old contents alone. -/
theorem rewrites_of_content (hs : d'.symbols = d.symbols)
    (hc : ∀ x k, d.content? x = some k → d'.content? x = some k) : Rewrites e id d d' where
  symbols := hs
  content x _ hx := by
    obtain ⟨k, hk⟩ := exists_content? hx
    rw [hk, hc x k hk]
  element el hel := element?_eq_some_iff.mpr (hc e _ (element?_eq_some_iff.mp hel))

theorem rewrites_added (s : String) : Rewrites e id d (d.added (.text s) d.symbols) :=
  rewrites_of_content rfl fun _ _ => content?_added_of_some

theorem rewrites_moved (p k : NodeId) : Rewrites e id d (d.moved p k) :=
  rewrites_of_content (symbols_moved d p k) fun x _ hx => by rw [content?_moved, hx]

theorem rewrites_putAttributes {el : Element} (hel : d.element? e = some el) {l : AttributeList}
    (hl : l = w el.attributes) :
    Rewrites e w d (d.putAttributes e el l) where
  symbols := rfl
  content x hxe _ := by rw [putAttributes_eq, content?_rewritten, if_neg hxe]
  element el' hel' := by
    rw [hel] at hel'
    cases hel'
    rw [element?_eq_some_iff, putAttributes_eq, content?_rewritten, if_pos rfl,
      element?_eq_some_iff.mp hel, hl]
    rfl

/-- A key that was set is in the list. -/
theorem run_setKey_eq_ok {el : Element} (hel : d.element? e = some el) {key value : String}
    (hrun : (setKey c e key value).run d = (.ok (), d')) :
    d' = d.putAttributes e el (el.attributes.setKey c (d.isHtml el) key value) := by
  unfold setKey at hrun
  cases hu : (AttributeKey.ofKey key).nsUri c with
  | none =>
    simp only [hu] at hrun
    rw [run_setAttribute, elementOf_eq_ok_iff.mpr hel] at hrun
    cases hn : Name.check (AttributeKey.ofKey key).localName with
    | error x => rw [hn] at hrun; cases hrun
    | ok u =>
      rw [hn] at hrun
      cases hrun
      simp only [AttributeList.setKey, hu]
      rfl
  | some uri =>
    simp only [hu] at hrun
    rw [run_setAttributeNs, elementOf_eq_ok_iff.mpr hel] at hrun
    cases hq : QualifiedName.extract (some uri) (AttributeKey.ofKey key).localName with
    | error x => rw [hq] at hrun; cases hrun
    | ok q =>
      rw [hq] at hrun
      cases hrun
      rw [AttributeKey.extract_of_key hu hq]
      simp only [AttributeList.setKey, hu]

theorem rewrites_setKey {el : Element} (hel : d.element? e = some el) {key value : String}
    (hrun : (setKey c e key value).run d = (.ok (), d')) :
    Rewrites e (·.setKey c (d.isHtml el) key value) d d' := by
  rw [run_setKey_eq_ok hel hrun]
  exact rewrites_putAttributes hel rfl

/-- The kind of an element, of HTML or not, lies in its names. -/
theorem isHtml_attributes (d : Document) (el : Element) (l : AttributeList) :
    d.isHtml { el with attributes := l } = d.isHtml el := rfl

theorem Rewrites.isHtml (h : Rewrites e w d d') (el : Element) : d'.isHtml el = d.isHtml el := by
  rw [Document.isHtml, Document.isHtml, h.symbols]

theorem rewrites_setKeys {entries : List (String × String)} {el : Element}
    (hel : d.element? e = some el)
    (hrun : (entries.forM fun (key, value) => setKey c e key value).run d = (.ok (), d')) :
    Rewrites e (·.setKeys c (d.isHtml el) entries) d d' := by
  induction entries generalizing d el with
  | nil =>
    cases hrun
    exact .refl e _
  | cons kv entries ih =>
    obtain ⟨⟨⟩, d₁, h₁, h₂⟩ := Operation.run_bind_eq_ok hrun
    have hr := rewrites_setKey hel h₁
    have hr' := ih (hr.element el hel) h₂
    rw [hr.isHtml, isHtml_attributes] at hr'
    exact hr.trans hr'

/-- What a leaf that was placed did. -/
theorem run_place_eq_ok {l : Leaf} (h : (l.place c e).run d = (.ok (), d')) :
    match l with
    | .text s => (d.added (.text s) d.symbols).MayAppend e (.ofNat d.size) ∧
        d' = (d.added (.text s) d.symbols).moved e (.ofNat d.size)
    | .node id => d.MayAppend e id ∧ d' = d.moved e id
    | .keys entries =>
        (entries.forM fun (key, value) => setKey c e key value).run d = (.ok (), d') := by
  cases l with
  | text s =>
    obtain ⟨k, d₁, h₁, h₂⟩ := Operation.run_bind_eq_ok h
    obtain ⟨k', d₂, h₃, h₄⟩ := Operation.run_bind_eq_ok h₂
    cases h₁
    cases h₄
    obtain ⟨hm, _, hd⟩ := eq_moved_of_run_append h₃
    exact ⟨hm, hd⟩
  | node id =>
    obtain ⟨k, d₁, h₁, h₂⟩ := Operation.run_bind_eq_ok h
    cases h₂
    obtain ⟨hm, _, hd⟩ := eq_moved_of_run_append h₁
    exact ⟨hm, hd⟩
  | keys entries => exact h

theorem rewrites_place {l : Leaf} {el : Element} (hel : d.element? e = some el)
    (hrun : (l.place c e).run d = (.ok (), d')) :
    Rewrites e (·.setKeys c (d.isHtml el) l.entries) d d' := by
  have h := run_place_eq_ok hrun
  cases l with
  | text s =>
    obtain ⟨_, rfl⟩ := h
    exact (rewrites_added s).trans (rewrites_moved e _)
  | node id =>
    obtain ⟨_, rfl⟩ := h
    exact rewrites_moved e id
  | keys entries => exact rewrites_setKeys hel h

/-- **Leaves that were placed have set their keys, one after another, and no other content differs.** -/
theorem rewrites_forM {leaves : List Leaf} {el : Element} (hel : d.element? e = some el)
    (hrun : (leaves.forM (Leaf.place c e)).run d = (.ok (), d')) :
    Rewrites e (·.setKeys c (d.isHtml el) (leaves.flatMap Leaf.entries)) d d' := by
  induction leaves generalizing d el with
  | nil =>
    cases hrun
    exact .refl e _
  | cons l leaves ih =>
    obtain ⟨⟨⟩, d₁, h₁, h₂⟩ := Operation.run_bind_eq_ok hrun
    have hr := rewrites_place hel h₁
    have hr' := ih (hr.element el hel) h₂
    rw [hr.isHtml, isHtml_attributes] at hr'
    have hw : (fun a : AttributeList => a.setKeys c (d.isHtml el)
        ((l :: leaves).flatMap Leaf.entries)) =
        (·.setKeys c (d.isHtml el) (leaves.flatMap Leaf.entries)) ∘
          (·.setKeys c (d.isHtml el) l.entries) := by
      funext a
      simp only [AttributeList.setKeys, List.flatMap_cons, List.foldl_append, Function.comp]
    rw [hw]
    exact hr.trans hr'

/-! ## 3. Places -/

/-- The list after `k` was put at its end, out of its old place in it first. -/
def behind (ks : List NodeId) (k : NodeId) : List NodeId := ks.erase k ++ [k]

/-- The nodes of `g` have come in turn behind the children of `e`, out of every other list, and the new
    ones are texts. -/
structure Hangs (e : NodeId) (g : List (NodeId × Option String)) (d d' : Document) : Prop where
  inside : d'.children e = (g.map Prod.fst).foldl behind (d.children e)
  outside : ∀ q, q ≠ e → d'.children q = (d.children q).filter (· ∉ g.map Prod.fst)
  text : ∀ k s, (k, some s) ∈ g → d'.content? k = some (.text s)

theorem Hangs.trans {g g' : List (NodeId × Option String)} {w : AttributeList → AttributeList}
    (h : Hangs e g d d₁) (h' : Hangs e g' d₁ d') (hr : Rewrites e w d₁ d')
    (he : (d₁.element? e).isSome = true) : Hangs e (g ++ g') d d' where
  inside := by rw [h'.inside, h.inside, List.map_append, List.foldl_append]
  outside q hq := by
    rw [h'.outside q hq, h.outside q hq, List.filter_filter]
    refine List.filter_congr fun x _ => ?_
    simp only [List.map_append, List.mem_append, not_or, Bool.decide_and]
    exact Bool.and_comm _ _
  text k s hk := by
    rcases List.mem_append.mp hk with hk | hk
    · have ht := h.text k s hk
      have hne : k ≠ e := by
        rintro rfl
        rw [isSome_element? ht] at he
        cases he
      rw [hr.content k hne (contains_of_content? ht), ht]
    · exact h'.text k s hk

theorem children_moved_filter (h : WellFormed d) {k : NodeId} (hm : d.MayAppend e k) :
    (d.moved e k).children e = [k].foldl behind (d.children e) ∧
      ∀ q, q ≠ e → (d.moved e k).children q = (d.children q).filter (· ∉ [k]) := by
  refine ⟨?_, fun q hq => ?_⟩
  · rw [h.children_moved hm, if_pos rfl]
    rfl
  · rw [h.children_moved hm, if_neg hq, h.arranged.erase_eq_filter]
    exact List.filter_congr fun x _ => by simp only [List.mem_singleton, ne_eq]

theorem hangs_node (h : WellFormed d) {k : NodeId} (hm : d.MayAppend e k) :
    Hangs e [(k, none)] d (d.moved e k) where
  inside := (children_moved_filter h hm).1
  outside := (children_moved_filter h hm).2
  text x s hx := by
    obtain ⟨_, hs⟩ := Prod.mk.inj (List.mem_singleton.mp hx)
    cases hs

/-- A new text node has its own place in the numbering, and hangs nowhere before it is put into `e`. -/
theorem hangs_text (h : WellFormed d) (hsize : d.size < UInt32.size) {s : String}
    (hm : (d.added (.text s) d.symbols).MayAppend e (.ofNat d.size)) :
    Hangs e [(.ofNat d.size, some s)] d
      ((d.added (.text s) d.symbols).moved e (.ofNat d.size)) := by
  have h₁ : WellFormed (d.added (.text s) d.symbols) := h.added rfl _
  have hc : ∀ q, (d.added (.text s) d.symbols).children q = d.children q :=
    h.children_transport (sameLinks_added d _ _)
  obtain ⟨hin, hout⟩ := children_moved_filter h₁ hm
  refine ⟨?_, fun q hq => ?_, fun x s' hx => ?_⟩
  · rw [hin, hc]
    rfl
  · rw [hout q hq, hc]
    rfl
  · obtain ⟨rfl, hs⟩ := Prod.mk.inj (List.mem_singleton.mp hx)
    cases hs
    rw [content?_moved, content?_added_self hsize]

/-- Where no link changes, nothing new hangs. -/
theorem hangs_nil (h : WellFormed d) (hs : SameLinks d d') : Hangs e [] d d' where
  inside := h.children_transport hs e
  outside q _ := by
    rw [h.children_transport hs]
    exact (List.filter_eq_self.mpr fun _ _ => rfl).symm
  text _ _ hk := absurd hk List.not_mem_nil

theorem SameLinks.refl (d : Document) : SameLinks d d :=
  ⟨fun _ => rfl, fun _ => rfl, fun _ => rfl, fun _ => rfl, fun _ => rfl⟩

theorem SameLinks.trans (h : SameLinks d d₁) (h' : SameLinks d₁ d') : SameLinks d d' where
  parent x := (h'.parent x).trans (h.parent x)
  first x := (h'.first x).trans (h.first x)
  last x := (h'.last x).trans (h.last x)
  prev x := (h'.prev x).trans (h.prev x)
  next x := (h'.next x).trans (h.next x)

theorem links_setKeys {entries : List (String × String)} {el : Element}
    (hel : d.element? e = some el)
    (hrun : (entries.forM fun (key, value) => setKey c e key value).run d = (.ok (), d')) :
    SameLinks d d' := by
  induction entries generalizing d el with
  | nil =>
    cases hrun
    exact .refl _
  | cons kv entries ih =>
    obtain ⟨⟨⟩, d₁, h₁, h₂⟩ := Operation.run_bind_eq_ok hrun
    have hl := ih ((rewrites_setKey hel h₁).element el hel) h₂
    rw [run_setKey_eq_ok hel h₁] at hl
    exact (sameLinks_rewritten d e _).trans hl

/-- A leaf adds its nodes, whether it is placed or refused. -/
theorem size_run_place (l : Leaf) (d : Document) :
    ((l.place c e).run d).2.size = d.size + l.newNodes := by
  cases l with
  | text s =>
    rw [run_place_text]
    exact (keepsSize_discard (keepsSize_append e _) _).trans (size_added ..)
  | node id => exact keepsSize_discard (keepsSize_append e id) d
  | keys entries => exact keepsSize_setKeys c e entries d

theorem size_place {l : Leaf} (hrun : (l.place c e).run d = (.ok (), d')) :
    d'.size = d.size + l.newNodes := by
  rw [← size_run_place l d, hrun]

/-- Where a text was put into an element, or an attempt was made, its id fits the word. -/
theorem size_lt_of_place_text {s : String}
    (hsize : (((Leaf.text s).place c e).run d).2.size ≤ UInt32.size) : d.size < UInt32.size := by
  rw [run_place_text, Operation.run_discard] at hsize
  have hk := size_le_run (edits_append e (.ofNat d.size)) (d.added (.text s) d.symbols)
  rw [size_added] at hk
  exact Nat.lt_of_succ_le (Nat.le_trans hk hsize)

theorem hangs_place {l : Leaf} (h : WellFormed d) {el : Element} (hel : d.element? e = some el)
    (hsize : d.size + l.newNodes ≤ UInt32.size) (hrun : (l.place c e).run d = (.ok (), d')) :
    Hangs e (l.hung d.size) d d' := by
  have hl := run_place_eq_ok hrun
  cases l with
  | text s =>
    obtain ⟨hm, rfl⟩ := hl
    exact hangs_text h hsize hm
  | node id =>
    obtain ⟨hm, rfl⟩ := hl
    exact hangs_node h hm
  | keys entries => exact hangs_nil h (links_setKeys hel hl)

theorem wellFormed_place {l : Leaf} (h : WellFormed d) (hrun : (l.place c e).run d = (.ok (), d')) :
    WellFormed d' := by
  have he : Edits False d _ := edits_place c e l d
  rw [hrun] at he
  exact h.edits he

theorem size_forM {leaves : List Leaf} {el : Element} (hel : d.element? e = some el)
    (hrun : (leaves.forM (Leaf.place c e)).run d = (.ok (), d')) :
    d'.size = d.size + Leaf.newNodesAll leaves := by
  induction leaves generalizing d el with
  | nil =>
    cases hrun
    rfl
  | cons l leaves ih =>
    obtain ⟨⟨⟩, d₁, h₁, h₂⟩ := Operation.run_bind_eq_ok hrun
    rw [ih ((rewrites_place hel h₁).element el hel) h₂, size_place h₁, Leaf.newNodesAll,
      Nat.add_assoc]

/-- **Leaves that were placed have put their nodes behind the children, one after another.** -/
theorem hangs_forM {leaves : List Leaf} (h : WellFormed d) {el : Element}
    (hel : d.element? e = some el) (hsize : d'.size ≤ UInt32.size)
    (hrun : (leaves.forM (Leaf.place c e)).run d = (.ok (), d')) :
    Hangs e (Leaf.hungAll d.size leaves) d d' := by
  induction leaves generalizing d el with
  | nil =>
    cases hrun
    exact hangs_nil h (.refl _)
  | cons l leaves ih =>
    obtain ⟨⟨⟩, d₁, h₁, h₂⟩ := Operation.run_bind_eq_ok hrun
    have hel₁ := (rewrites_place hel h₁).element el hel
    have hs := size_place h₁
    have hs' := size_forM hel₁ h₂
    have hg := hangs_place h hel (by omega) h₁
    have hg' := ih (wellFormed_place h h₁) hel₁ h₂
    rw [hs] at hg'
    exact hg.trans hg' (rewrites_forM hel₁ h₂) (by rw [hel₁]; rfl)

theorem edits_forM (leaves : List Leaf) :
    Operation.Respects (Edits False) (leaves.forM (Leaf.place c e)) :=
  Operation.respects_forM (fun _ => .refl) (fun _ _ _ => .trans) fun l _ => edits_place c e l

/-- The rest of the leaves goes on where one leaf ended. -/
theorem run_forM_cons_of_ok {l : Leaf} (h : (l.place c e).run d = (.ok (), d₁)) (leaves : List Leaf) :
    ((l :: leaves).forM (Leaf.place c e)).run d = (leaves.forM (Leaf.place c e)).run d₁ :=
  Operation.run_bind_of_ok h

theorem size_le_forM_cons (l : Leaf) (leaves : List Leaf) :
    ((l.place c e).run d).2.size ≤ (((l :: leaves).forM (Leaf.place c e)).run d).2.size :=
  size_le_run_bind (fun _ => edits_forM leaves) d

/-- Leaves add no more nodes than theirs, wherever they end. -/
theorem size_run_forM_le (leaves : List Leaf) (d : Document) :
    ((leaves.forM (Leaf.place c e)).run d).2.size ≤ d.size + Leaf.newNodesAll leaves := by
  induction leaves generalizing d with
  | nil => exact Nat.le_refl _
  | cons l leaves ih =>
    have hs := size_run_place (c := c) (e := e) l d
    rw [Leaf.newNodesAll, ← Nat.add_assoc, ← hs]
    rcases hrun : (l.place c e).run d with ⟨err | u, d₁⟩
    · rw [show ((l :: leaves).forM (Leaf.place c e)).run d = _ from Operation.run_bind_of_error hrun]
      exact Nat.le_add_right ..
    · rw [run_forM_cons_of_ok hrun]
      exact ih d₁

/-- Where leaves went into the element that was made last, its id fits the word. -/
theorem size_lt_of_forM {leaves : List Leaf} (hs : d₁.size = d.size + 1)
    (hsize : ((leaves.forM (Leaf.place c e)).run d₁).2.size ≤ UInt32.size) :
    d.size < UInt32.size := by
  have hk := size_le_run (edits_forM (c := c) (e := e) leaves) d₁
  rw [hs] at hk
  exact Nat.lt_of_succ_le (Nat.le_trans hk hsize)

/-! ## 4. A whole build -/

/-- A new element is behind all other nodes, without attributes. -/
theorem run_createElement_eq_ok {tag : String}
    (h : (BuildM.createElement c tag).run d = (.ok e, d₁)) : e = .ofNat d.size ∧
      ∃ (el : Element) (t : SymbolTable), d₁ = d.added (.element el) t ∧ d.symbols.Grown t ∧
        el.attributes = {} := by
  have hg := gives_creation c tag d
  cases hq : QualifiedName.ofTag c tag with
  | error x =>
    rw [hq] at hg
    rw [hg.run_error] at h
    cases h
  | ok q =>
    rw [hq] at hg
    obtain ⟨el, t, hx, ht, _, hl⟩ := hg
    rw [hx] at h
    cases h
    exact ⟨rfl, el, t, rfl, ht, hl⟩

/-- A build that gives a result created its element and placed its leaves. -/
theorem run_createWith_eq_ok {tag : String} {leaves : List Leaf}
    (h : (createWith c tag leaves).run d = (.ok e, d')) : e = .ofNat d.size ∧
      ∃ (el : Element) (t : SymbolTable), d.symbols.Grown t ∧ el.attributes = {} ∧
        (leaves.forM (Leaf.place c e)).run (d.added (.element el) t) = (.ok (), d') := by
  obtain ⟨id, d₁, h₁, h₂⟩ := Operation.run_bind_eq_ok h
  obtain ⟨⟨⟩, d₂, h₃, h₄⟩ := Operation.run_bind_eq_ok h₂
  cases h₄
  obtain ⟨hid, el, t, rfl, hg, hl⟩ := run_createElement_eq_ok h₁
  exact ⟨hid, el, t, hg, hl, h₃⟩

theorem edits_of_createWith {tag : String} {leaves : List Leaf} {r : Except DomError NodeId}
    (h : (createWith c tag leaves).run d = (r, d')) : Edits False d d' := by
  have he : Edits False d _ := edits_createWith c tag leaves d
  rw [h] at he
  exact he

/-- **The contents after a build.** The contents there were are the same, and the new element has the
    attributes that the keys of the leaves set in turn. -/
structure Built (c : Config) (leaves : List Leaf) (e : NodeId) (d d' : Document) : Prop where
  symbols : d.symbols.Grown d'.symbols
  content : ∀ x, d.contains x = true → d'.content? x = d.content? x
  element : ∃ el, d'.element? e = some el ∧
    el.attributes = AttributeList.setKeys c (d'.isHtml el) {} (leaves.flatMap Leaf.entries)

theorem built_of_createWith {tag : String} {leaves : List Leaf} (hsize : d.size < UInt32.size)
    (h : (createWith c tag leaves).run d = (.ok e, d')) : Built c leaves e d d' := by
  obtain ⟨rfl, el, t, hg, hl, hrun⟩ := run_createWith_eq_ok h
  have hel := element?_added_self hsize el t
  have hr := rewrites_forM hel hrun
  refine ⟨by rw [hr.symbols]; exact hg, fun x hx => ?_, _, hr.element el hel, ?_⟩
  · obtain ⟨k, hk⟩ := exists_content? hx
    have hk' := content?_added_of_some (k := .element el) (t := t) hk
    have hxe : x ≠ .ofNat d.size := fun he => not_contains_new hsize (he ▸ hx)
    rw [hr.content x hxe (contains_of_content? hk'), hk', hk]
  · rw [hr.isHtml, isHtml_attributes, hl]
    rfl

/-- Where nothing is yet, nothing hangs. -/
theorem WellFormed.children_new (h : WellFormed d) (hsize : d.size < UInt32.size) :
    d.children (.ofNat d.size) = [] :=
  h.arranged.kids_of_not_contains (not_contains_new hsize)

theorem size_createWith {tag : String} {leaves : List Leaf} (hsize : d.size < UInt32.size)
    (h : (createWith c tag leaves).run d = (.ok e, d')) :
    d'.size = d.size + 1 + Leaf.newNodesAll leaves := by
  obtain ⟨rfl, el, t, _, _, hrun⟩ := run_createWith_eq_ok h
  rw [size_forM (element?_added_self hsize el t) hrun, size_added]

/-- **The places after a build.** The nodes of the leaves hang in the new element, in turn. -/
theorem hangs_createWith {tag : String} {leaves : List Leaf} (hw : WellFormed d)
    (hsize : d'.size ≤ UInt32.size) (h : (createWith c tag leaves).run d = (.ok e, d')) :
    Hangs e (Leaf.hungAll (d.size + 1) leaves) d d' := by
  obtain ⟨rfl, el, t, _, _, hrun⟩ := run_createWith_eq_ok h
  have hlt : d.size < UInt32.size :=
    size_lt_of_forM (size_added d (.element el) t) (by rw [hrun]; exact hsize)
  have hg := hangs_forM (hw.added rfl t) (element?_added_self hlt el t) hsize hrun
  rw [size_added] at hg
  have hc : ∀ q, (d.added (.element el) t).children q = d.children q :=
    hw.children_transport (sameLinks_added d _ t)
  refine ⟨?_, fun q hq => ?_, hg.text⟩
  · rw [hg.inside, hc]
  · rw [hg.outside q hq, hc]

end Document

end DomBuilder
