import DomBuilder.Markup.Writer
import DomBuilder.Proofs.Reachable

/-!
# The tree under a node

What a document writes for a node depends on an ordered tree and on nothing else: not on ids, not on
links, not on symbols. This file fixes that tree and what is read off it:

* `Label`: the names of an element as texts, and its attributes; `Document.label` reads them;
* `Tree`, `Document.tree`: a node and what lies under it;
* `Tree.write`, `Tree.text`: markup and text by recursion on the tree. They are what the document
  gives (`outerHtml_eq`, `textContent_eq`);
* `tree_congr`: two documents with the same children and contents from a node downward have the same
  tree there, whatever else differs; `tree_eq`: the tree of a node is its content over the trees of its
  children, so the bound on the depth is never felt.
-/

namespace DomBuilder

open Markup

/-! ## 1. Labels -/

/-- Names and attributes of an element, as texts. -/
structure Label where
  nsUri : Option String
  nsPrefix : Option String
  localName : String
  attributes : AttributeList
  deriving DecidableEq, Repr

namespace Label

/-- The name in the tags. -/
def tagName (l : Label) : String := joinName l.nsPrefix l.localName

def isHtml (l : Label) : Bool := l.nsUri = some Namespace.html

def isVoid (l : Label) : Bool := l.isHtml && voidElements.contains l.tagName

def isRawText (l : Label) : Bool := l.isHtml && rawTextElements.contains l.localName

/-- Text under an element with this label. -/
def writeText (l : Option Label) (s : String) : String :=
  if l.any isRawText then s else escapeText s

end Label

/-- What the symbols of `e` read as. -/
def Document.label (d : Document) (e : Element) : Label where
  nsUri := e.nsUri.map d.symbolText
  nsPrefix := e.nsPrefix.map d.symbolText
  localName := d.symbolText e.localName
  attributes := e.attributes

/-! ## 2. Trees -/

/-- A node and what lies under it. -/
inductive Tree where
  | document (ts : List Tree)
  | text (s : String)
  | element (l : Label) (ts : List Tree)

namespace Tree

mutual

/-- The markup of a tree under `parent`. -/
def write (parent : Option Label) : Tree → String
  | document ts => writeAll none ts
  | text s => Label.writeText parent s
  | element l ts =>
    if l.isVoid then startTag l.tagName l.attributes
    else startTag l.tagName l.attributes ++ writeAll (some l) ts ++ endTag l.tagName

/-- The markup of each in turn. -/
def writeAll (parent : Option Label) : List Tree → String
  | [] => ""
  | t :: ts => t.write parent ++ writeAll parent ts

end

mutual

/-- The texts of a tree in order. -/
def content : Tree → String
  | document ts => contentAll ts
  | text s => s
  | element _ ts => contentAll ts

def contentAll : List Tree → String
  | [] => ""
  | t :: ts => t.content ++ contentAll ts

end

theorem writeAll_eq (parent : Option Label) : ∀ ts : List Tree,
    writeAll parent ts = String.join (ts.map (write parent))
  | [] => rfl
  | t :: ts => by rw [writeAll, writeAll_eq parent ts, List.map_cons, String.join_cons]

theorem contentAll_eq : ∀ ts : List Tree, contentAll ts = String.join (ts.map content)
  | [] => rfl
  | t :: ts => by rw [contentAll, contentAll_eq ts, List.map_cons, String.join_cons]

end Tree

namespace Document

variable {d d' : Document}

/-- The tree at a node, down to `n` levels. -/
def treeFrom (d : Document) : Nat → NodeId → Tree
  | 0, _ => .document []
  | n + 1, id =>
    match d.content? id with
    | none => .document []
    | some .document => .document ((d.children id).map (d.treeFrom n))
    | some (.text s) => .text s
    | some (.element e) => .element (d.label e) ((d.children id).map (d.treeFrom n))

/-- The tree at a node. -/
def tree (d : Document) (id : NodeId) : Tree := d.treeFrom d.size id

/-! ## 3. Markup and text of a tree -/

theorem Tabled.regular (h : Tabled d) : d.symbols.Regular :=
  h.table.regular SymbolTable.regular_initial

theorem Tabled.isHtml_label (h : Tabled d) (e : Element) : (d.label e).isHtml = d.isHtml e := by
  unfold Label.isHtml label isHtml symbolText
  cases e.nsUri with
  | none => rfl
  | some y =>
    have hi : d.symbols.lookup Namespace.html = some y ↔ d.symbols.text y = Namespace.html :=
      h.regular.lookup_html_iff
    simp only [Option.map_some, Option.some.injEq, Option.isSome_some, Bool.true_and, ← hi]
    exact decide_eq_decide.mpr eq_comm

theorem Tabled.isHtml_iff_nsUri? (h : Tabled d) {id : NodeId} {e : Element}
    (he : d.element? id = some e) : d.isHtml e = decide (d.nsUri? id = some Namespace.html) := by
  rw [← h.isHtml_label, Label.isHtml, nsUri?, he]
  rfl

theorem Tabled.isVoid_label (h : Tabled d) (e : Element) : (d.label e).isVoid = d.isVoid e := by
  rw [Label.isVoid, h.isHtml_label, isVoid]
  rfl

theorem Tabled.isRawText_label (h : Tabled d) (e : Element) :
    (d.label e).isRawText = d.isRawText e := by
  rw [Label.isRawText, h.isHtml_label, isRawText]
  rfl

theorem Tabled.writeText_label (h : Tabled d) (p : Option Element) (s : String) :
    Label.writeText (p.map d.label) s = d.writeText p s := by
  unfold Label.writeText writeText
  cases p with
  | none => rfl
  | some e => simp only [Option.map_some, Option.any_some, h.isRawText_label]

/-- The label of the element over a node. -/
def parentLabel? (d : Document) (id : NodeId) : Option Label :=
  ((d.parent? id).bind d.element?).map d.label

theorem WellFormed.parentLabel?_child (h : WellFormed d) {p c : NodeId} (hc : c ∈ d.children p) :
    d.parentLabel? c = (d.element? p).map d.label := by
  rw [parentLabel?, (h.arranged.parent p c).mpr hc]
  rfl

/-- Markup of a node is markup of its tree, at every depth. -/
theorem writeNode_eq (h : WellFormed d) (ht : Tabled d) (n : Nat) (id : NodeId) :
    d.writeNode n id = (d.treeFrom n id).write (d.parentLabel? id) := by
  induction n generalizing id with
  | zero => rfl
  | succ n ih =>
    have hall : ∀ p, (d.element? id).map d.label = p →
        String.join ((d.children id).map fun c => d.writeNode n c) =
          Tree.writeAll p ((d.children id).map (d.treeFrom n)) := by
      intro p hp
      rw [Tree.writeAll_eq, List.map_map]
      refine congrArg String.join (List.map_congr_left fun c hc => ?_)
      rw [ih c, h.parentLabel?_child hc, hp]
      rfl
    unfold writeNode treeFrom
    cases hn : d.get? id with
    | none => simp only [content?, hn, Option.map_none]; rfl
    | some node =>
      have hel : d.element? id = node.content.element? := by rw [element?, hn]; rfl
      cases hk : node.content with
      | document =>
        simp only [content?, hn, Option.map_some, hk]
        exact hall none (by rw [hel, hk]; rfl)
      | text s =>
        have hp : node.parent = d.parent? id := by rw [parent?, hn]; rfl
        simp only [content?, hn, Option.map_some, hk, Tree.write, hp]
        rw [← ht.writeText_label]
        rfl
      | element e =>
        simp only [content?, hn, Option.map_some, hk, Tree.write]
        rw [hall (some (d.label e)) (by rw [hel, hk]; rfl), ht.isVoid_label]
        rfl

/-- **The markup of a node is that of its tree.** -/
theorem outerHtml_eq (h : WellFormed d) (ht : Tabled d) (id : NodeId) :
    d.outerHtml id = (d.tree id).write (d.parentLabel? id) :=
  writeNode_eq h ht d.size id

theorem collectText_eq (d : Document) (n : Nat) (id : NodeId) :
    d.collectText n id = (d.treeFrom n id).content := by
  induction n generalizing id with
  | zero => rfl
  | succ n ih =>
    have hall : String.join ((d.children id).map fun c => d.collectText n c) =
        Tree.contentAll ((d.children id).map (d.treeFrom n)) := by
      rw [Tree.contentAll_eq, List.map_map]
      exact congrArg String.join (List.map_congr_left fun c _ => ih c)
    unfold collectText treeFrom
    cases hn : d.get? id with
    | none => simp only [content?, hn, Option.map_none]; rfl
    | some node =>
      cases hk : node.content <;>
        simp only [content?, hn, Option.map_some, hk, Tree.content, hall]

/-- **The text of a node is that of its tree.** -/
theorem textContent_eq (d : Document) (id : NodeId) : d.textContent id = (d.tree id).content :=
  collectText_eq d d.size id

/-! ## 4. Documents with the same tree somewhere -/

theorem symbolText_grown (h : Tabled d) (hg : d.symbols.Grown d'.symbols) {s : String} {y : Symbol}
    (hs : d.symbols.lookup s = some y) : d'.symbolText y = d.symbolText y :=
  hg.text (h.regular.below s y hs)

theorem map_symbolText_grown (h : Tabled d) (hg : d.symbols.Grown d'.symbols) {o : Option String}
    {y : Option Symbol} (hs : o.map d.symbols.lookup = y.map some) :
    y.map d'.symbolText = y.map d.symbolText := by
  cases y with
  | none => rfl
  | some y =>
    obtain ⟨s, _, hy⟩ := Option.map_eq_some_iff.mp hs
    rw [Option.map_some, Option.map_some, symbolText_grown h hg hy]

/-- As the table grows, an element reads as it did. -/
theorem Tabled.label_grown (h : Tabled d) (hg : d.symbols.Grown d'.symbols) {id : NodeId}
    {e : Element} (he : d.element? id = some e) : d'.label e = d.label e := by
  obtain ⟨q, _, hn⟩ := h.named id e he
  rw [label, label, map_symbolText_grown h hg hn.nsUri, map_symbolText_grown h hg hn.nsPrefix,
    symbolText_grown h hg hn.localName]

/-- In `d'` the nodes from `top` downward have the children and the contents that they have in `d`. -/
def SameBelow (d d' : Document) (top : NodeId) : Prop :=
  ∀ x, top ∈ d.path x → d'.children x = d.children x ∧ d'.content? x = d.content? x

theorem treeFrom_congr (h : WellFormed d) (h' : WellFormed d') (ht : Tabled d)
    (hg : d.symbols.Grown d'.symbols) {top : NodeId} (hs : SameBelow d d' top) {n m : Nat}
    {id : NodeId} (hid : top ∈ d.path id) (hn : d.size < n + (d.path id).length)
    (hm : d'.size < m + (d'.path id).length) : d'.treeFrom m id = d.treeFrom n id := by
  induction n generalizing m id with
  | zero =>
    have hl := h.length_path_le id
    omega
  | succ n ih =>
    cases m with
    | zero =>
      have hl := h'.length_path_le id
      omega
    | succ m =>
      obtain ⟨hc, hk⟩ := hs id hid
      have hall : (d'.children id).map (d'.treeFrom m) = (d.children id).map (d.treeFrom n) := by
        rw [hc]
        refine List.map_congr_left fun c hcm => ?_
        have hp := h.length_path_child hcm
        have hp' := h'.length_path_child (hc ▸ hcm)
        exact ih (h.mem_path_child hcm hid) (by omega) (by omega)
      unfold treeFrom
      rw [hk, hall]
      cases hkd : d.content? id with
      | none => rfl
      | some k =>
        cases k with
        | document => rfl
        | text s => rfl
        | element e => simp only [ht.label_grown hg (element?_eq_some_iff.mpr hkd)]

/-- **From where children and contents are the same downward, the tree is the same.** -/
theorem tree_congr (h : WellFormed d) (h' : WellFormed d') (ht : Tabled d)
    (hg : d.symbols.Grown d'.symbols) {top : NodeId} (htop : d.contains top = true)
    (hs : SameBelow d d' top) : d'.tree top = d.tree top := by
  have hm := h.self_mem_path htop
  have hk := (hs top hm).2
  have htop' : d'.contains top = true := by
    obtain ⟨k, hk'⟩ := exists_content? htop
    exact contains_of_content? (hk.trans hk')
  have hpos : ∀ {u : Document}, WellFormed u → u.contains top = true → 0 < (u.path top).length :=
    fun hu hut => List.length_pos_of_mem (hu.self_mem_path hut)
  have h1 := hpos h htop
  have h2 := hpos h' htop'
  exact treeFrom_congr h h' ht hg hs hm (by omega) (by omega)

/-- **The tree of a node is its content over the trees of its children.** -/
theorem tree_eq (h : WellFormed d) (ht : Tabled d) (id : NodeId) :
    d.tree id =
      match d.content? id with
      | none => .document []
      | some .document => .document ((d.children id).map d.tree)
      | some (.text s) => .text s
      | some (.element e) => .element (d.label e) ((d.children id).map d.tree) := by
  by_cases hid : d.contains id = true
  · have hsize : 0 < d.size := Nat.lt_of_le_of_lt (Nat.zero_le _) (contains_iff_lt.mp hid)
    obtain ⟨n, hn⟩ : ∃ n, d.size = n + 1 := ⟨d.size - 1, by omega⟩
    have hall : (d.children id).map (d.treeFrom n) = (d.children id).map d.tree := by
      refine List.map_congr_left fun c hc => ?_
      have hp := h.length_path_child hc
      have hl := List.length_pos_of_mem (h.self_mem_path hid)
      have hs : SameBelow d d c := fun _ _ => ⟨rfl, rfl⟩
      refine (treeFrom_congr h h ht (.refl _) hs (h.self_mem_path (h.arranged.contains_kid hc))
        ?_ ?_).symm <;> omega
    rw [tree, hn, treeFrom, hall]
  · have hk : d.content? id = none := by rw [content?, get?_of_not_contains hid]; rfl
    rw [hk, tree]
    cases d.size with
    | zero => rfl
    | succ n => rw [treeFrom, hk]

theorem tree_of_text (h : WellFormed d) (ht : Tabled d) {id : NodeId} {s : String}
    (hs : d.text? id = some s) : d.tree id = .text s := by
  rw [tree_eq h ht, text?_eq_some_iff.mp hs]

theorem tree_of_element (h : WellFormed d) (ht : Tabled d) {id : NodeId} {e : Element}
    (he : d.element? id = some e) :
    d.tree id = .element (d.label e) ((d.children id).map d.tree) := by
  rw [tree_eq h ht, element?_eq_some_iff.mp he]

end Document

end DomBuilder
