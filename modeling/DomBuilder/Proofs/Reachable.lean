import DomBuilder.Proofs.Build.Leaves
import DomBuilder.Proofs.Forest

/-!
# The documents that callers can reach

This file fixes what a caller can do, one thing after another, and what every document that comes of
it is like:

* `Action`, `Action.apply`: one call, of any kind, and the document after it, whether the call gave a
  result or failed; `Document.after`: the document after a list of calls;
* `WellFormed.edit`: every step keeps the forest; `forest_after`: so every list of calls does;
* `Tabled`: the symbol table grew out of the fresh one, and every element's symbols are those of a
  name that a new element can get. Every step keeps this too;
* `Action.isChecked`: the calls that look at the names of attributes they write.
-/

namespace DomBuilder

namespace Document

variable {raw : Prop} {d d' : Document}

/-! ## 1. A node more -/

/-- The new node is behind all others, and they are as they were. -/
theorem get?_added (d : Document) (k : NodeContent) (t : SymbolTable) (x : NodeId) :
    (d.added k t).get? x = if x.index = d.size then some { content := k } else d.get? x := by
  unfold added get? size
  exact Array.getElem?_push

@[simp] theorem size_added (d : Document) (k : NodeContent) (t : SymbolTable) :
    (d.added k t).size = d.size + 1 := by
  simp [added, size]

theorem get?_of_index_eq {x : NodeId} (h : x.index = d.size) : d.get? x = none := by
  unfold get?
  rw [h]
  exact Array.getElem?_eq_none (Nat.le_refl _)

/-- A new node has no links, so the links are those of before. -/
theorem sameLinks_added (d : Document) (k : NodeContent) (t : SymbolTable) :
    SameLinks d (d.added k t) := by
  have h : ∀ f : Node → Option NodeId, f { content := k } = none →
      ∀ x, ((d.added k t).get? x).bind f = (d.get? x).bind f := by
    intro f hf x
    rw [get?_added]
    by_cases hx : x.index = d.size
    · rw [if_pos hx, get?_of_index_eq hx]
      exact hf
    · rw [if_neg hx]
  exact ⟨h _ rfl, h _ rfl, h _ rfl, h _ rfl, h _ rfl⟩

theorem content?_added (d : Document) (k : NodeContent) (t : SymbolTable) (x : NodeId) :
    (d.added k t).content? x = if x.index = d.size then some k else d.content? x := by
  rw [content?, get?_added]
  by_cases hx : x.index = d.size
  · rw [if_pos hx, if_pos hx]
    rfl
  · rw [if_neg hx, if_neg hx]
    rfl

theorem content?_of_index_eq {x : NodeId} (h : x.index = d.size) : d.content? x = none := by
  rw [content?, get?_of_index_eq h]
  rfl

/-- Old nodes keep their content. -/
theorem content?_added_of_some {k k' : NodeContent} {t : SymbolTable} {x : NodeId}
    (h : d.content? x = some k') : (d.added k t).content? x = some k' := by
  have hx : x.index ≠ d.size := fun hx => by
    rw [content?_of_index_eq hx] at h
    cases h
  rw [content?_added, if_neg hx, h]

/-- The id that a new node gets is free. -/
theorem not_contains_new (hsize : d.size < UInt32.size) : ¬ d.contains (.ofNat d.size) = true := by
  intro hc
  have hi := contains_iff_lt.mp hc
  rw [NodeId.index_ofNat hsize] at hi
  exact Nat.lt_irrefl _ hi

theorem content?_added_self (hsize : d.size < UInt32.size) (k : NodeContent) (t : SymbolTable) :
    (d.added k t).content? (.ofNat d.size) = some k := by
  rw [content?_added, if_pos (NodeId.index_ofNat hsize)]

theorem element?_added_self (hsize : d.size < UInt32.size) (el : Element) (t : SymbolTable) :
    (d.added (.element el) t).element? (.ofNat d.size) = some el :=
  element?_eq_some_iff.mpr (content?_added_self hsize _ t)

theorem WellFormed.added (h : WellFormed d) {k : NodeContent} (hk : k.isDocument = false)
    (t : SymbolTable) : WellFormed (d.added k t) := by
  refine h.transport (sameLinks_added d k t) (fun x k' hx => ?_) (fun x k' hx hx' => ?_)
  · exact ⟨k', content?_added_of_some hx, .refl k'⟩
  · rw [content?_added] at hx'
    by_cases hi : x.index = d.size
    · rw [if_pos hi] at hx'
      cases hx'
      exact hk
    · rw [if_neg hi, hx] at hx'
      cases hx'

/-! ## 2. New content for a node -/

/-- The document with content `k` at `id`. -/
def rewritten (d : Document) (id : NodeId) (k : NodeContent) : Document :=
  d.update id fun n => { n with content := k }

theorem putAttributes_eq (d : Document) (id : NodeId) (e : Element) (l : AttributeList) :
    d.putAttributes id e l = d.rewritten id (.element { e with attributes := l }) := rfl

@[simp] theorem size_rewritten (d : Document) (id : NodeId) (k : NodeContent) :
    (d.rewritten id k).size = d.size := size_update ..

theorem sameLinks_rewritten (d : Document) (id : NodeId) (k : NodeContent) :
    SameLinks d (d.rewritten id k) := by
  have h : ∀ f : Node → Option NodeId, (∀ n : Node, f { n with content := k } = f n) →
      ∀ x, ((d.rewritten id k).get? x).bind f = (d.get? x).bind f := by
    intro f hf x
    rw [rewritten, get?_update]
    by_cases hx : x = id
    · rw [if_pos hx]
      cases d.get? x with
      | none => rfl
      | some n => exact hf n
    · rw [if_neg hx]
  exact ⟨h _ fun _ => rfl, h _ fun _ => rfl, h _ fun _ => rfl, h _ fun _ => rfl, h _ fun _ => rfl⟩

theorem content?_rewritten (d : Document) (id : NodeId) (k : NodeContent) (x : NodeId) :
    (d.rewritten id k).content? x =
      if x = id then (d.content? x).map fun _ => k else d.content? x := by
  rw [content?, rewritten, get?_update]
  by_cases hx : x = id
  · rw [if_pos hx, if_pos hx, content?, Option.map_map, Option.map_map]
    rfl
  · rw [if_neg hx, if_neg hx]
    rfl

theorem WellFormed.rewritten (h : WellFormed d) {id : NodeId} {k k' : NodeContent}
    (hk : d.content? id = some k) (hs : k.SameKind k') : WellFormed (d.rewritten id k') := by
  refine h.transport (sameLinks_rewritten d id k') (fun x k₀ hx => ?_) (fun x k₀ hx hx' => ?_)
  · rw [content?_rewritten]
    by_cases he : x = id
    · subst he
      rw [hk] at hx
      cases hx
      exact ⟨k', by rw [if_pos rfl, hk]; rfl, hs⟩
    · exact ⟨k₀, by rw [if_neg he, hx], .refl k₀⟩
  · rw [content?_rewritten, hx] at hx'
    by_cases he : x = id
    · rw [if_pos he] at hx'
      cases hx'
    · rw [if_neg he] at hx'
      cases hx'

/-! ## 3. The forest -/

theorem WellFormed.putAttributes (h : WellFormed d) {id : NodeId} {e : Element}
    (he : d.element? id = some e) (l : AttributeList) : WellFormed (d.putAttributes id e l) :=
  h.rewritten (element?_eq_some_iff.mp he) ⟨rfl, rfl, rfl⟩

/-- **Every step keeps the forest.** -/
theorem WellFormed.edit (h : WellFormed d) (he : Edit raw d d') : WellFormed d' := by
  cases he with
  | element _ _ _ _ => exact h.added rfl _
  | text s => exact h.added rfl _
  | moved hm => exact h.moved hm
  | detached c => exact h.detached c
  | set he _ _ => exact h.putAttributes he _
  | setNs he _ _ => exact h.putAttributes he _
  | overwrite _ he l => exact h.putAttributes he l
  | replaceText ht s => exact h.rewritten (text?_eq_some_iff.mp ht) ⟨rfl, rfl, rfl⟩

/-- **What every step keeps, any number of steps keeps.** -/
theorem keeps_edits {P : Document → Prop} (hP : ∀ d d', Edit raw d d' → P d → P d')
    (h : Edits raw d d') (hd : P d) : P d' := by
  induction h with
  | refl => exact hd
  | tail _ he ih => exact hP _ _ he ih

/-- No step takes a node away. -/
theorem size_le_edit (he : Edit raw d d') : d.size ≤ d'.size := by
  cases he with
  | element _ _ _ _ => exact Nat.le_trans (Nat.le_succ _) (Nat.le_of_eq (size_added ..).symm)
  | text s => exact Nat.le_trans (Nat.le_succ _) (Nat.le_of_eq (size_added ..).symm)
  | moved _ => exact Nat.le_of_eq (size_moved ..).symm
  | detached c => exact Nat.le_of_eq (size_detached ..).symm
  | set _ _ _ => exact Nat.le_of_eq (size_update ..).symm
  | setNs _ _ _ => exact Nat.le_of_eq (size_update ..).symm
  | overwrite _ _ l => exact Nat.le_of_eq (size_update ..).symm
  | replaceText _ s => exact Nat.le_of_eq (size_update ..).symm

theorem size_le_edits (h : Edits raw d d') : d.size ≤ d'.size :=
  keeps_edits (P := fun u => d.size ≤ u.size) (fun _ _ he hu => Nat.le_trans hu (size_le_edit he)) h
    (Nat.le_refl _)

theorem WellFormed.edits (h : WellFormed d) (he : Edits raw d d') : WellFormed d' :=
  keeps_edits (fun _ _ he hd => hd.edit he) he h

theorem size_le_run {α : Type} {x : DomM α} (hx : Operation.Respects (Edits False) x) (d : Document) :
    d.size ≤ (x.run d).2.size := size_le_edits (hx d)

theorem WellFormed.run {α : Type} {x : DomM α} (h : WellFormed d)
    (hx : Operation.Respects (Edits False) x) : WellFormed (x.run d).2 := h.edits (hx d)

/-- The rest of a sequence takes no node away. -/
theorem size_le_run_bind {α β : Type} {x : DomM α} {f : α → DomM β}
    (hf : ∀ a, Operation.Respects (Edits False) (f a)) (d : Document) :
    (x.run d).2.size ≤ ((x >>= f).run d).2.size := by
  rw [Operation.run_bind]
  rcases x.run d with ⟨err | a, d₁⟩
  · exact Nat.le_refl _
  · exact size_le_run (hf a) d₁

theorem get?_fresh (x : NodeId) :
    fresh.get? x = if x = .root then some { content := .document } else none := by
  unfold get? fresh
  by_cases hx : x = .root
  · rw [if_pos hx, hx]
    rfl
  · have hi : x.index ≠ 0 := fun h => hx (NodeId.index_inj.mp h)
    rw [if_neg hx]
    exact Array.getElem?_eq_none (Nat.pos_of_ne_zero hi)

theorem content?_fresh (x : NodeId) :
    fresh.content? x = if x = .root then some .document else none := by
  rw [content?, get?_fresh]
  split <;> rfl

/-- No node of the fresh document has a link. -/
theorem bind_fresh {f : Node → Option NodeId} (hf : f { content := .document } = none) (x : NodeId) :
    (fresh.get? x).bind f = none := by
  rw [get?_fresh]
  split
  · exact hf
  · rfl

theorem element?_fresh (x : NodeId) : fresh.element? x = none := by
  rw [element?_eq_content?, content?_fresh]
  split <;> rfl

theorem wellFormed_fresh : WellFormed fresh := by
  have ha : Arranged fresh fun _ => [] :=
    { first := bind_fresh rfl
      last := bind_fresh rfl
      nodup := fun _ => List.nodup_nil
      parent := fun p c => by
        rw [show fresh.parent? c = none from bind_fresh rfl c]
        exact ⟨fun h => (by cases h), fun h => (by cases h)⟩
      prev := fun p a c b e => (by cases a <;> cases e)
      next := fun p a c b e => (by cases a <;> cases e)
      alone := fun c _ => ⟨bind_fresh rfl c, bind_fresh rfl c⟩ }
  have hk : ∀ p, fresh.children p = [] := ha.children_eq
  refine ⟨ha.self, fun id => ⟨[id], .step ?_⟩, ?_, fun id hid => ?_, bind_fresh rfl _, ?_,
    fun c hc => ?_, fun id k _ _ => hk id⟩
  · rw [show fresh.parent? id = none from bind_fresh rfl id]
    exact .done
  · rw [content?_fresh, if_pos rfl]
  · rw [content?_fresh] at hid
    by_cases hx : id = .root
    · exact hx
    · rw [if_neg hx] at hid
      cases hid
  · rw [hk]
    exact Nat.zero_le _
  · rw [hk] at hc
    cases hc

/-! ## 4. Elements and their symbols -/

/-- The attribute lists that a write can leave in place of `l`: any at all if `raw` is granted, or else
    `l` with one checked attribute put into it. -/
inductive Written (raw : Prop) (l : AttributeList) : AttributeList → Prop where
  | plain {name : String} (hn : Name.isValid name = true) (value : String) :
      Written raw l (l.set name value).2
  | lower {name : String} (hn : Name.isValid name = true) (value : String) :
      Written raw l (l.set name.toLower value).2
  | extracted {nsUri : Option String} {name : String} {q : QualifiedName}
      (hq : QualifiedName.extract nsUri name = .ok q) (value : String) : Written raw l
        (l.setNs { nsUri := q.nsUri, nsPrefix := q.nsPrefix, localName := q.localName, value }).2
  | raw (h : raw) (l' : AttributeList) : Written raw l l'

/-- A law of elements and the table of their symbols. New elements have it, growing tables keep it, and
    so do writes to the attributes. -/
structure ElementLaw (raw : Prop) (P : SymbolTable → Element → Prop) : Prop where
  grown : ∀ t t' e, t.Grown t' → P t e → P t' e
  new : ∀ t e q, Naming q → e.Named t q → e.attributes = {} → P t e
  written : ∀ t e l, Written raw e.attributes l → P t e → P t { e with attributes := l }

section ElementLaw

variable {P : SymbolTable → Element → Prop}

theorem ElementLaw.putAttributes (hP : ElementLaw raw P)
    (hd : ∀ id e, d.element? id = some e → P d.symbols e) {id : NodeId} {e : Element}
    {l : AttributeList} (he : d.element? id = some e) (hw : Written raw e.attributes l) :
    ∀ x e', (d.putAttributes id e l).element? x = some e' →
      P (d.putAttributes id e l).symbols e' := by
  intro x e' hx
  rw [putAttributes_eq] at hx ⊢
  rw [element?_eq_some_iff, content?_rewritten] at hx
  by_cases hi : x = id
  · rw [if_pos hi] at hx
    obtain ⟨_, _, hk⟩ := Option.map_eq_some_iff.mp hx
    cases hk
    exact hP.written _ _ _ hw (hd id e he)
  · rw [if_neg hi] at hx
    exact hd x e' (element?_eq_some_iff.mpr hx)

theorem ElementLaw.added (hP : ElementLaw raw P)
    (hd : ∀ id e, d.element? id = some e → P d.symbols e) {k : NodeContent} {t : SymbolTable}
    (ht : d.symbols.Grown t) (hk : ∀ e, k = .element e → P t e) :
    ∀ x e, (d.added k t).element? x = some e → P t e := by
  intro x e hx
  rw [element?_eq_some_iff, content?_added] at hx
  by_cases hi : x.index = d.size
  · rw [if_pos hi] at hx
    exact hk e (Option.some.inj hx)
  · rw [if_neg hi] at hx
    exact hP.grown _ _ _ ht (hd x e (element?_eq_some_iff.mpr hx))

/-- **A law of elements is kept by every step.** -/
theorem ElementLaw.edit (hP : ElementLaw raw P) (he : Edit raw d d')
    (hd : ∀ id e, d.element? id = some e → P d.symbols e) :
    ∀ id e, d'.element? id = some e → P d'.symbols e := by
  cases he with
  | element hq ht hn hl =>
    refine hP.added hd ht fun e he => ?_
    cases he
    exact hP.new _ _ _ hq hn hl
  | text s => exact hP.added hd (.refl _) fun e he => (by cases he)
  | moved hm =>
    intro x e hx
    rw [element?_eq_some_iff, content?_moved] at hx
    rw [symbols_moved]
    exact hd x e (element?_eq_some_iff.mpr hx)
  | detached c =>
    intro x e hx
    rw [element?_eq_some_iff, content?_detached] at hx
    rw [symbols_detached]
    exact hd x e (element?_eq_some_iff.mpr hx)
  | @set id e name he hn value =>
    refine hP.putAttributes hd he ?_
    unfold attributeName
    by_cases hh : d.isHtml e = true
    · rw [if_pos hh]
      exact .lower hn value
    · rw [if_neg hh]
      exact .plain hn value
  | setNs he hq value => exact hP.putAttributes hd he (.extracted hq value)
  | overwrite hraw he l => exact hP.putAttributes hd he (.raw hraw l)
  | @replaceText id _ ht s =>
    intro x e hx
    change (d.rewritten id (.text s)).element? x = some e at hx
    rw [element?_eq_some_iff, content?_rewritten] at hx
    by_cases hi : x = id
    · rw [if_pos hi] at hx
      obtain ⟨_, _, hk⟩ := Option.map_eq_some_iff.mp hx
      cases hk
    · rw [if_neg hi] at hx
      exact hd x e (element?_eq_some_iff.mpr hx)

end ElementLaw

theorem Element.Named.grown {t t' : SymbolTable} {q : QualifiedName} {e : Element}
    (h : e.Named t q) (hg : t.Grown t') : e.Named t' q :=
  ⟨map_lookup_of_grown hg h.nsUri, map_lookup_of_grown hg h.nsPrefix, hg.lookup h.localName⟩

theorem elementLaw_named (raw : Prop) :
    ElementLaw raw fun t e => ∃ q, Naming q ∧ e.Named t q where
  grown := fun _ _ _ hg ⟨q, hq, hn⟩ => ⟨q, hq, Element.Named.grown hn hg⟩
  new := fun _ _ q hq hn _ => ⟨q, hq, hn⟩
  written := fun _ _ _ _ ⟨q, hq, hn⟩ => ⟨q, hq, hn.nsUri, hn.nsPrefix, hn.localName⟩

/-- The table of `d` grew out of the fresh one, and the elements have their symbols from it. -/
structure Tabled (d : Document) : Prop where
  table : SymbolTable.initial.Grown d.symbols
  named : ∀ id e, d.element? id = some e → ∃ q, Naming q ∧ e.Named d.symbols q

theorem symbols_edit (he : Edit raw d d') : d.symbols.Grown d'.symbols := by
  cases he with
  | element _ ht _ _ => exact ht
  | moved _ => rw [symbols_moved]; exact .refl _
  | detached _ => rw [symbols_detached]; exact .refl _
  | _ => exact .refl _

theorem Tabled.edits (h : Tabled d) (he : Edits raw d d') : Tabled d' :=
  keeps_edits (fun _ _ he hd => ⟨hd.table.trans (symbols_edit he),
    (elementLaw_named raw).edit he hd.named⟩) he h

theorem tabled_fresh : Tabled fresh := by
  have ht : fresh.symbols = SymbolTable.initial := by simp only [fresh]
  refine ⟨by rw [ht]; exact .refl _, fun id e he => ?_⟩
  rw [element?_fresh] at he
  cases he

end Document

/-! ## 5. Calls -/

/-- One call on a document. -/
inductive Action where
  | createElement (name : String)
  | createElementNs (nsUri : Option String) (name : String)
  | createText (s : String)
  | append (parent child : NodeId)
  | detach (id : NodeId)
  | setAttribute (id : NodeId) (name value : String)
  | setAttributeNs (id : NodeId) (nsUri : Option String) (name value : String)
  | overwriteAttribute (id : NodeId) (name value : String)
  | overwriteAttributeNs (id : NodeId) (a : Attribute)
  | replaceText (id : NodeId) (s : String)
  | build (config : Config) (tag : String) (content : Argument)

namespace Action

/-- The document after the call, whether it gave a result or failed. -/
def apply (d : Document) : Action → Document
  | createElement name => ((Document.createElement name).run d).2
  | createElementNs nsUri name => ((Document.createElementNs nsUri name).run d).2
  | createText s => ((Document.createText s).run d).2
  | append parent child => ((Document.append parent child).run d).2
  | detach id => ((Document.detach id).run d).2
  | setAttribute id name value => ((Document.setAttribute id name value).run d).2
  | setAttributeNs id nsUri name value => ((Document.setAttributeNs id nsUri name value).run d).2
  | overwriteAttribute id name value =>
    ((d.overwriteAttribute? id name value).map (·.2)).getD d
  | overwriteAttributeNs id a => ((d.overwriteAttributeNs? id a).map (·.2)).getD d
  | replaceText id s => ((d.replaceText? id s).map (·.2)).getD d
  | build config tag content =>
    ((Builder.mk d config false).build tag content).builder.document

/-- The names of the attributes that the call writes are looked at. -/
def isChecked : Action → Bool
  | overwriteAttribute .. => false
  | overwriteAttributeNs .. => false
  | _ => true

end Action

namespace Document

variable {raw : Prop} {d : Document}

/-- The document after the calls, in order. -/
def after (d : Document) (calls : List Action) : Document := calls.foldl Action.apply d

theorem after_append (d : Document) (calls calls' : List Action) :
    d.after (calls ++ calls') = (d.after calls).after calls' := List.foldl_append

/-- A build leaves what creating its element and placing its leaves leaves. -/
theorem apply_build (d : Document) (config : Config) (tag : String) (content : Argument) :
    (Action.build config tag content).apply d =
      ((createWith config tag content.leaves).run d).2 :=
  congrArg Prod.snd (Builder.build_eq d config tag content)

theorem edits_overwrite (hraw : raw) (d : Document) (id : NodeId)
    (write : AttributeList → Option String × AttributeList) :
    Edits raw d (((d.overwrite? id write).map (·.2)).getD d) := by
  unfold overwrite?
  cases he : d.element? id with
  | none => exact .refl
  | some e => exact .single (.overwrite hraw he _)

/-- **A call is a run of steps, a checked one of checked steps.** -/
theorem edits_apply (a : Action) (ha : a.isChecked = true ∨ raw) (d : Document) :
    Edits raw d (a.apply d) := by
  have hraw : a.isChecked = false → raw := fun h => by
    rcases ha with ha | ha
    · rw [h] at ha
      cases ha
    · exact ha
  cases a with
  | createElement name => exact edits_createElement name d
  | createElementNs nsUri name => exact edits_createElementNs nsUri name d
  | createText s => exact edits_createText s d
  | append p c => exact edits_append p c d
  | detach id => exact edits_detach id d
  | setAttribute id name value => exact edits_setAttribute id name value d
  | setAttributeNs id nsUri name value => exact edits_setAttributeNs id nsUri name value d
  | overwriteAttribute id name value => exact edits_overwrite (hraw rfl) d id _
  | overwriteAttributeNs id a => exact edits_overwrite (hraw rfl) d id _
  | replaceText id s =>
    show Edits raw d (((d.replaceText? id s).map (·.2)).getD d)
    unfold replaceText?
    cases ht : d.text? id with
    | none => exact .refl
    | some old => exact .single (.replaceText ht s)
  | build config tag content =>
    rw [apply_build]
    exact edits_createWith config tag content.leaves d

theorem edits_after {calls : List Action} (h : ∀ a ∈ calls, a.isChecked = true ∨ raw)
    (d : Document) : Edits raw d (d.after calls) := by
  induction calls generalizing d with
  | nil => exact .refl
  | cons a calls ih =>
    refine .trans (edits_apply a (h a List.mem_cons_self) d) ?_
    exact ih (fun b hb => h b (List.mem_cons_of_mem _ hb)) (a.apply d)

theorem edits_after_raw (calls : List Action) (d : Document) : Edits True d (d.after calls) :=
  edits_after (fun _ _ => .inr trivial) d

theorem wellFormed_after (calls : List Action) : WellFormed (fresh.after calls) :=
  wellFormed_fresh.edits (edits_after_raw calls fresh)

theorem tabled_after (calls : List Action) : Tabled (fresh.after calls) :=
  tabled_fresh.edits (edits_after_raw calls fresh)

/-- **After any calls at all, the nodes form a forest.** -/
theorem forest_after (calls : List Action) : Forest (fresh.after calls) :=
  (wellFormed_after calls).forest

end Document

end DomBuilder
