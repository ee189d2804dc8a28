import DomBuilder.Proofs.Tree

/-!
# The tree that the links span

A document is written along its links: from a node to its first child, and on from sibling to sibling.
A number bounds these walks, the size of the document. This file fixes without any number the tree that
lies under a node, and that all that is written for the node is read off it:

* `Spans d id t`: following the links of `d` from `id` one meets exactly the nodes of the finite tree
  `t`. In a forest a node spans one tree, an id without a node none (`spans_iff`);
* `writeNode_of_le`, `collectText_of_le`: a bound above the size of the document gives nothing more, so
  what is written is never cut off;
* `Tree.output`: markup of the whole, markup of what is inside, and text, by recursion on a tree. Of the
  parent it takes two names, and only if the tree is a text;
* `output_after`: what a reachable document gives for a node is the output of the tree that it spans, and
  so the same in every document where a node spans that tree.
-/

namespace DomBuilder

open Markup

/-! ## 1. Links that span a tree -/

mutual

/-- From `id` the links of `d` span the tree. -/
inductive Document.Spans (d : Document) : NodeId → Tree → Prop where
  | document {id : NodeId} {ts : List Tree} (hk : d.content? id = some .document)
      (hs : Document.SpansAll d (d.first? id) ts) : Document.Spans d id (.document ts)
  | text {id : NodeId} {s : String} (hk : d.content? id = some (.text s)) :
      Document.Spans d id (.text s)
  | element {id : NodeId} {e : Element} {ts : List Tree} (hk : d.content? id = some (.element e))
      (hs : Document.SpansAll d (d.first? id) ts) : Document.Spans d id (.element (d.label e) ts)

/-- From `start` on along the next siblings they span the trees in turn. -/
inductive Document.SpansAll (d : Document) : Option NodeId → List Tree → Prop where
  | done : Document.SpansAll d none []
  | step {id : NodeId} {t : Tree} {ts : List Tree} (h : Document.Spans d id t)
      (hs : Document.SpansAll d (d.next? id) ts) : Document.SpansAll d (some id) (t :: ts)

end

namespace Document

variable {d d' : Document}

mutual

/-- **A node spans one tree at most.** -/
theorem Spans.unique {id : NodeId} : ∀ {t t' : Tree}, Spans d id t → Spans d id t' → t = t'
  | .document ts, _, h, h' => by
    obtain ⟨hk, hs⟩ : d.content? id = some .document ∧ SpansAll d (d.first? id) ts := by
      cases h with
      | document hk hs => exact ⟨hk, hs⟩
    cases h' with
    | document _ hs' => rw [SpansAll.unique hs hs']
    | text hk' => simp [hk] at hk'
    | element hk' _ => simp [hk] at hk'
  | .text s, _, h, h' => by
    cases h with
    | text hk =>
      cases h' with
      | document hk' _ => simp [hk] at hk'
      | text hk' => simpa [hk] using hk'
      | element hk' _ => simp [hk] at hk'
  | .element l ts, _, h, h' => by
    -- the label is a value of `d.label`, so the node behind it has to be named first
    obtain ⟨e, hk, rfl, hs⟩ :
        ∃ e, d.content? id = some (.element e) ∧ d.label e = l ∧ SpansAll d (d.first? id) ts := by
      cases h with
      | element hk hs => exact ⟨_, hk, rfl, hs⟩
    cases h' with
    | document hk' _ => simp [hk] at hk'
    | text hk' => simp [hk] at hk'
    | element hk' hs' =>
      rw [hk] at hk'
      cases hk'
      rw [SpansAll.unique hs hs']

theorem SpansAll.unique : ∀ {start : Option NodeId} {ts ts' : List Tree}, SpansAll d start ts →
    SpansAll d start ts' → ts = ts'
  | _, [], _, h, h' => by
    cases h
    cases h'
    rfl
  | _, t :: ts, _, h, h' => by
    cases h with
    | step h hs =>
      cases h' with
      | step h' hs' => rw [Spans.unique h h', SpansAll.unique hs hs']

end

theorem Spans.contains {id : NodeId} {t : Tree} (h : Spans d id t) : d.contains id = true := by
  cases h with
  | document hk _ => exact contains_of_content? hk
  | text hk => exact contains_of_content? hk
  | element hk _ => exact contains_of_content? hk

/-! ## 2. The tree of a node is the one it spans -/

theorem spansAll_of_walk {start : Option NodeId} {l : List NodeId} {f : NodeId → Tree}
    (hw : Walk d.next? start l) (hf : ∀ c ∈ l, Spans d c (f c)) : SpansAll d start (l.map f) := by
  induction hw with
  | done => exact .done
  | @step id l _ ih =>
    exact .step (hf id List.mem_cons_self) (ih fun c hc => hf c (List.mem_cons_of_mem _ hc))

/-- Deep enough, the tree down to some level is spanned: each level down lengthens the path by one, and
    no path is longer than the document is large. -/
theorem WellFormed.spans_treeFrom (h : WellFormed d) {n : Nat} {id : NodeId}
    (hid : d.contains id = true) (hn : d.size < n + (d.path id).length) :
    Spans d id (d.treeFrom n id) := by
  induction n generalizing id with
  | zero =>
    have hl := h.length_path_le id
    omega
  | succ n ih =>
    -- a child has one level less to go, and a path longer by one
    have hall : SpansAll d (d.first? id) ((d.children id).map (d.treeFrom n)) := by
      refine spansAll_of_walk (h.arranged.walk_next id) fun c hc => ?_
      have hp := h.length_path_child hc
      exact ih (h.arranged.contains_kid hc) (by omega)
    obtain ⟨k, hk⟩ := exists_content? hid
    unfold treeFrom
    rw [hk]
    cases k with
    | document => exact .document hk hall
    | text s => exact .text hk
    | element e => exact .element hk hall

theorem WellFormed.spans_tree (h : WellFormed d) {id : NodeId} (hid : d.contains id = true) :
    Spans d id (d.tree id) := by
  have hl := List.length_pos_of_mem (h.self_mem_path hid)
  exact h.spans_treeFrom hid (by omega)

/-- An element over one text. -/
theorem WellFormed.spans_paragraph (h : WellFormed d) {id c : NodeId} {l : Label} {s : String}
    (hl : (d.element? id).map d.label = some l) (hc : d.children id = [c])
    (hs : d.text? c = some s) : Spans d id (.element l [.text s]) := by
  obtain ⟨e, he, rfl⟩ := Option.map_eq_some_iff.mp hl
  have hw := h.arranged.walk_next id
  rw [hc] at hw
  have hall := spansAll_of_walk (f := fun _ => .text s) hw fun x hx => by
    rw [List.mem_singleton.mp hx]
    exact .text (text?_eq_some_iff.mp hs)
  exact .element (element?_eq_some_iff.mp he) hall

/-- **A node spans its tree and no other, and what is no node spans nothing.** -/
theorem WellFormed.spans_iff (h : WellFormed d) {id : NodeId} {t : Tree} :
    Spans d id t ↔ d.contains id = true ∧ d.tree id = t := by
  constructor
  · intro hs
    exact ⟨hs.contains, (h.spans_tree hs.contains).unique hs⟩
  · rintro ⟨hid, rfl⟩
    exact h.spans_tree hid

theorem tree_of_not_contains {id : NodeId} (hid : ¬ d.contains id = true) (n : Nat) :
    d.treeFrom n id = .document [] := by
  have hk : d.content? id = none := by
    rw [content?, get?_of_not_contains hid]
    rfl
  cases n with
  | zero => rfl
  | succ n => rw [treeFrom, hk]

/-! ## 3. A bound that is not felt -/

theorem treeFrom_of_le (h : WellFormed d) (ht : Tabled d) {n : Nat} (hn : d.size ≤ n) (id : NodeId) :
    d.treeFrom n id = d.tree id := by
  by_cases hid : d.contains id = true
  · have hm := h.self_mem_path hid
    have hl := List.length_pos_of_mem hm
    have hs : SameBelow d d id := fun _ _ => ⟨rfl, rfl⟩
    exact treeFrom_congr h h ht (.refl _) hs hm (by omega) (by omega)
  · rw [tree, tree_of_not_contains hid, tree_of_not_contains hid]

/-- **Going deeper than there are nodes writes nothing more.** -/
theorem writeNode_of_le (h : WellFormed d) (ht : Tabled d) {n : Nat} (hn : d.size ≤ n)
    (id : NodeId) : d.writeNode n id = d.outerHtml id := by
  rw [writeNode_eq h ht, treeFrom_of_le h ht hn, outerHtml_eq h ht]

theorem collectText_of_le (h : WellFormed d) (ht : Tabled d) {n : Nat} (hn : d.size ≤ n)
    (id : NodeId) : d.collectText n id = d.textContent id := by
  rw [collectText_eq, treeFrom_of_le h ht hn, textContent_eq]

end Document

/-! ## 4. Output of a tree -/

/-- What decides about the text in an element. -/
structure ElementName where
  nsUri : Option String
  localName : String
  deriving DecidableEq, Repr

/-- The raw-text elements of HTML. -/
def ElementName.isRawText (n : ElementName) : Bool :=
  n.nsUri = some Namespace.html && rawTextElements.contains n.localName

def Label.name (l : Label) : ElementName where
  nsUri := l.nsUri
  localName := l.localName

/-- All that is written for a node. -/
structure Output where
  outer : String
  inner : String
  text : String
  deriving DecidableEq, Repr

namespace Tree

/-- The trees right under a tree. -/
def children : Tree → List Tree
  | document ts => ts
  | text _ => []
  | element _ ts => ts

def label? : Tree → Option Label
  | element l _ => some l
  | _ => none

mutual

/-- The texts in a tree, in order. -/
def texts : Tree → List String
  | document ts => textsAll ts
  | text s => [s]
  | element _ ts => textsAll ts

def textsAll : List Tree → List String
  | [] => []
  | t :: ts => t.texts ++ textsAll ts

end

/-- The markup of a tree under an element of the name `parent`, which only a text asks for. -/
def markup (parent : Option ElementName) : Tree → String
  | text s => if parent.any ElementName.isRawText then s else escapeText s
  | t => t.write none

/-- All that is written for a tree under an element of the name `parent`. -/
def output (parent : Option ElementName) (t : Tree) : Output where
  outer := t.markup parent
  inner := String.join (t.children.map (markup (t.label?.map Label.name)))
  text := String.join t.texts

theorem write_eq_markup (parent : Option Label) (t : Tree) :
    t.write parent = t.markup (parent.map Label.name) := by
  cases t with
  | document ts => rfl
  | element l ts => rfl
  | text s => cases parent <;> rfl

/-- Only under a text does the parent matter. -/
theorem output_congr {p p' : Option ElementName} {t : Tree} (h : ∀ s, t = .text s → p = p') :
    t.output p = t.output p' := by
  cases t with
  | document ts => rfl
  | element l ts => rfl
  | text s => rw [h s rfl]

mutual

theorem content_eq_join : ∀ t : Tree, t.content = String.join t.texts
  | document ts => contentAll_eq_join ts
  | text s => by rw [content, texts, String.join_cons, String.join_nil, String.append_empty]
  | element _ ts => contentAll_eq_join ts

theorem contentAll_eq_join : ∀ ts : List Tree, contentAll ts = String.join (textsAll ts)
  | [] => rfl
  | t :: ts => by
    rw [contentAll, textsAll, String.join_append, content_eq_join t, contentAll_eq_join ts]

end

end Tree

namespace Document

variable {d : Document}

/-- All that the document gives for a node. -/
def output (d : Document) (id : NodeId) : Output where
  outer := d.outerHtml id
  inner := d.innerHtml id
  text := d.textContent id

/-- The name of the element over a node. -/
def parentName? (d : Document) (id : NodeId) : Option ElementName :=
  (d.parentLabel? id).map Label.name

theorem WellFormed.children_tree (h : WellFormed d) (ht : Tabled d) (id : NodeId) :
    (d.tree id).children = (d.children id).map d.tree := by
  by_cases hid : d.contains id = true
  · obtain ⟨k, hk⟩ := exists_content? hid
    rw [tree_eq h ht, hk]
    cases k with
    | document => rfl
    | text s => rw [h.textChildren id _ hk rfl]; rfl
    | element e => rfl
  · rw [tree, tree_of_not_contains hid, h.arranged.kids_of_not_contains hid]
    rfl

theorem WellFormed.label?_tree (h : WellFormed d) (ht : Tabled d) (id : NodeId) :
    (d.tree id).label? = (d.element? id).map d.label := by
  rw [tree_eq h ht, element?_eq_content?]
  cases d.content? id with
  | none => rfl
  | some k => cases k <;> rfl

/-- **What a document gives for a node is the output of its tree.** -/
theorem output_eq (h : WellFormed d) (ht : Tabled d) (id : NodeId) :
    d.output id = (d.tree id).output (d.parentName? id) := by
  have hinner : d.innerHtml id = String.join ((d.tree id).children.map
      (Tree.markup ((d.tree id).label?.map Label.name))) := by
    rw [h.children_tree ht, h.label?_tree ht, List.map_map, innerHtml]
    refine congrArg String.join (List.map_congr_left fun c hc => ?_)
    rw [outerHtml_eq h ht, h.parentLabel?_child hc, Tree.write_eq_markup]
    rfl
  rw [output, Tree.output, hinner, outerHtml_eq h ht, Tree.write_eq_markup, textContent_eq,
    Tree.content_eq_join]
  rfl

/-! ## 5. Output in reachable documents -/

/-- **In every reachable document a node spans exactly one tree, and what is written for the node is the
    output of that tree**, whatever ids, symbols and history the document has. The walks never come to
    their bound. -/
theorem output_after (calls : List Action) (id : NodeId) :
    let d := fresh.after calls
    (d.contains id = true →
      ∃ t, (∀ t', Spans d id t' ↔ t' = t) ∧ d.output id = t.output (d.parentName? id)) ∧
    (d.contains id = false → d.output id = ⟨"", "", ""⟩) ∧
    (∀ n, d.size ≤ n → d.writeNode n id = d.outerHtml id ∧ d.collectText n id = d.textContent id) ∧
    ∀ (calls' : List Action) (id' : NodeId) (t : Tree),
      let d' := fresh.after calls'
      Spans d id t → Spans d' id' t → (∀ s, t = .text s → d.parentName? id = d'.parentName? id') →
      d.output id = d'.output id' := by
  intro d
  have h : WellFormed d := wellFormed_after calls
  have ht : Tabled d := tabled_after calls
  refine ⟨fun hid => ⟨d.tree id, fun t' => ?_, output_eq h ht id⟩, fun hid => ?_,
    fun n hn => ⟨writeNode_of_le h ht hn id, collectText_of_le h ht hn id⟩, ?_⟩
  · rw [h.spans_iff]
    exact ⟨fun ⟨_, e⟩ => e.symm, fun e => ⟨hid, e.symm⟩⟩
  · rw [output_eq h ht, tree, tree_of_not_contains (by simp [hid])]
    rfl
  · intro calls' id' t d' hs hs' hp
    have h' : WellFormed d' := wellFormed_after calls'
    rw [output_eq h ht, output_eq h' (tabled_after calls'), (h.spans_iff.mp hs).2,
      (h'.spans_iff.mp hs').2, Tree.output_congr hp]

/-- A paragraph with a text, alone in its document, and one that was made among other nodes, from another
    kind of call, and whose text was moved there from elsewhere. -/
theorem output_after_paragraph :
    let calls : List Action :=
      [.createElement "P", .createText "a<b", .append ⟨1⟩ ⟨2⟩, .setAttribute ⟨1⟩ "id" "x"]
    let calls' : List Action :=
      [.createText "left", .createElement "title", .createText "a<b", .append ⟨2⟩ ⟨3⟩, .append ⟨2⟩ ⟨1⟩,
        .createElementNs (some Namespace.html) "p", .append ⟨4⟩ ⟨3⟩, .setAttribute ⟨4⟩ "ID" "x"]
    let d := fresh.after calls
    let d' := fresh.after calls'
    let t := Tree.element ⟨some Namespace.html, none, "p", (AttributeList.set {} "id" "x").2⟩
      [.text "a<b"]
    (∃ t, (∀ t', Spans d ⟨1⟩ t' ↔ t' = t) ∧ d.output ⟨1⟩ = t.output (d.parentName? ⟨1⟩)) ∧
      Spans d ⟨1⟩ t ∧ Spans d' ⟨4⟩ t ∧ d.output ⟨1⟩ = d'.output ⟨4⟩ ∧
      d'.output ⟨4⟩ = ⟨"<p id=\"x\">a&lt;b</p>", "a&lt;b", "a<b"⟩ ∧ d.output ⟨5⟩ = ⟨"", "", ""⟩ ∧
      d.writeNode 3 ⟨1⟩ = d.outerHtml ⟨1⟩ := by
  intro calls calls' d d' t
  have hs : Spans d ⟨1⟩ t := (wellFormed_after calls).spans_paragraph (c := ⟨2⟩)
    (by decide +kernel) (by decide +kernel) (by decide +kernel)
  have hs' : Spans d' ⟨4⟩ t := (wellFormed_after calls').spans_paragraph (c := ⟨3⟩)
    (by decide +kernel) (by decide +kernel) (by decide +kernel)
  obtain ⟨h1, _, h3, h4⟩ := output_after calls ⟨1⟩
  obtain ⟨_, h2, _⟩ := output_after calls ⟨5⟩
  exact ⟨h1 (by decide +kernel), hs, hs', h4 calls' ⟨4⟩ t hs hs' (fun s e => by simp [t] at e),
    by decide +kernel, h2 (by decide +kernel), (h3 3 (by decide +kernel)).1⟩

end Document

end DomBuilder
