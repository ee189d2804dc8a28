import DomBuilder.Builder
import DomBuilder.Proofs.Edit

/-!
# A build as a sequence of document operations

An argument nests, and a build notes events. Neither changes what is done to the document. This file
fixes the sequence that is left:

* `Leaf`, `Argument.leaves`: the items of an argument in order, lists opened at every depth, nothing
  for the empty argument, and a map without keys as the text it reads as;
* `Leaf.place`: one item put into an element, as an operation on the document alone;
* `BuildM.Tracks x y`: `x` does to the document what `y` does, with the same result, and only notes
  more; `tracks_element`: a build tracks the creation of its element and its leaves in turn;
* `QualifiedName.ofTag`: the name that the element of a tag gets; `gives_creation`: its creation comes to
  that and nothing else;
* `edits_createWith`: whatever its result, a build is a run of steps.
-/

namespace DomBuilder

/-! ## 1. Leaves -/

/-- An item that goes into an element. -/
inductive Leaf where
  | text (s : String)
  | node (id : NodeId)
  /-- Keys of attributes with their values, at least one. -/
  | keys (entries : List (String × String))
  deriving DecidableEq, Repr

mutual

/-- The items of an argument in order. -/
def Argument.leaves : Argument → List Leaf
  | .empty => []
  | .text s => [.text s]
  | .node id => [.node id]
  | .list items => Argument.leavesAll items
  | .attributes m => if m.isEmpty then [.text m.shownText] else [.keys m.entries]

def Argument.leavesAll : List Argument → List Leaf
  | [] => []
  | item :: rest => item.leaves ++ Argument.leavesAll rest

end

/-- Sets the attribute that `key` names. -/
def Document.setKey (c : Config) (element : NodeId) (key value : String) : DomM Unit :=
  match (AttributeKey.ofKey key).nsUri c with
  | some uri => Document.setAttributeNs element (some uri) (AttributeKey.ofKey key).localName value
  | none => Document.setAttribute element (AttributeKey.ofKey key).localName value

/-- Puts the leaf into `element`. -/
def Leaf.place (c : Config) (element : NodeId) : Leaf → DomM Unit
  | text s => do
    let node ← Document.createText s
    let _ ← Document.append element node
  | node id => do
    let _ ← Document.append element id
  | keys entries => entries.forM fun (key, value) => Document.setKey c element key value

/-- An operation whose result is dropped. -/
theorem Operation.run_discard {σ α : Type} (x : Operation σ α) (s : σ) :
    (discard x).run s = ((x.run s).1.map fun _ => (), (x.run s).2) := by
  show (x >>= fun _ => pure ()).run s = _
  rw [run_bind]
  rcases x.run s with ⟨e | a, s'⟩ <;> rfl

/-- A text is placed by an append in the document that has it. -/
theorem Document.run_place_text (c : Config) (element : NodeId) (s : String) (d : Document) :
    ((Leaf.text s).place c element).run d =
      (discard (Document.append element (.ofNat d.size))).run (d.added (.text s) d.symbols) := rfl

/-- A node is placed by an append. -/
theorem Document.run_place_node (c : Config) (element id : NodeId) (d : Document) :
    ((Leaf.node id).place c element).run d = (discard (Document.append element id)).run d := rfl

/-- A new element with the leaves in it. -/
def Document.createWith (c : Config) (tag : String) (leaves : List Leaf) : DomM NodeId := do
  let id ← BuildM.createElement c tag
  leaves.forM (Leaf.place c id)
  return id

/-! ## 2. Events set aside -/

namespace BuildM

variable {α β : Type}

/-- `x` does to the document what `y` does, with the same result. -/
def Tracks (x : BuildM α) (y : DomM α) : Prop :=
  ∀ p, ((x.run p).1, (x.run p).2.document) = y.run p.document

theorem tracks_pure (a : α) : Tracks (pure a) (pure a) := fun _ => rfl

theorem tracks_onDocument (y : DomM α) : Tracks (onDocument y) y := by
  intro p
  rw [onDocument, Operation.run_within]

theorem tracks_bind {x : BuildM α} {y : DomM α} {f : α → BuildM β} {g : α → DomM β}
    (hx : Tracks x y) (hf : ∀ a, Tracks (f a) (g a)) : Tracks (x >>= f) (y >>= g) := by
  intro p
  have h := hx p
  rw [Operation.run_bind, Operation.run_bind, ← h]
  rcases x.run p with ⟨e | a, p'⟩
  · rfl
  · exact hf a p'

/-- An event more makes no difference. -/
theorem tracks_note {e : Event} {x : BuildM α} {y : DomM α} (h : Tracks x y) :
    Tracks (note e >>= fun _ => x) y :=
  fun p => h { p with events := p.events.push e }

theorem tracks_noteOption {o : Option Event} {x : BuildM α} {y : DomM α} (h : Tracks x y) :
    Tracks (noteOption o >>= fun _ => x) y := by
  cases o with
  | none => exact h
  | some e => exact tracks_note h

/-- Nor does a look at the state. -/
theorem tracks_read {f : Progress → BuildM α} {y : DomM α} (h : ∀ p, Tracks (f p) y) :
    Tracks (Operation.read >>= f) y :=
  fun p => h p p

theorem tracks_forM {γ : Type} {f : γ → BuildM PUnit} {g : γ → DomM PUnit}
    (h : ∀ a, Tracks (f a) (g a)) : ∀ l : List γ, Tracks (l.forM f) (l.forM g)
  | [] => tracks_pure _
  | a :: l => tracks_bind (h a) fun _ => tracks_forM h l

/-! ## 3. One argument -/

theorem tracks_append (parent child : NodeId) :
    Tracks (append parent child) (Document.append parent child) :=
  tracks_read fun _ => tracks_noteOption (tracks_onDocument _)

theorem tracks_addText (c : Config) (element : NodeId) (s : String) :
    Tracks (addText element s) ((Leaf.text s).place c element) :=
  tracks_bind (tracks_onDocument _) fun _ => tracks_bind (tracks_append _ _) fun _ => tracks_pure _

theorem tracks_setKey (c : Config) (element : NodeId) (key value : String) :
    Tracks (setKey c element key value) (Document.setKey c element key value) := by
  refine tracks_noteOption (tracks_note ?_)
  unfold Document.setKey
  cases (AttributeKey.ofKey key).nsUri c <;> exact tracks_onDocument _

/-- A sequence of one leaf is that leaf. -/
theorem forM_singleton (f : Leaf → DomM PUnit) (l : Leaf) : [l].forM f = f l := by
  show (f l >>= fun _ => pure PUnit.unit) = f l
  exact bind_pure (f l)

theorem tracks_addAttributes (c : Config) (element : NodeId) (m : AttributeMap) :
    Tracks (addAttributes c element m)
      ((Argument.attributes m).leaves.forM (Leaf.place c element)) := by
  unfold addAttributes Argument.leaves
  by_cases hm : m.isEmpty = true
  · rw [if_pos hm, if_pos hm, forM_singleton]
    exact tracks_addText c element _
  · rw [if_neg hm, if_neg hm, forM_singleton]
    exact tracks_forM (fun (key, value) => tracks_setKey c element key value) m.entries

theorem forM_append (f : Leaf → DomM PUnit) : ∀ l l' : List Leaf,
    (l ++ l').forM f = l.forM f >>= fun _ => l'.forM f
  | [], _ => rfl
  | a :: l, l' => by
    show (f a >>= fun _ => (l ++ l').forM f) = (f a >>= fun _ => l.forM f) >>= fun _ => l'.forM f
    rw [bind_assoc]
    exact bind_congr fun _ => forM_append f l l'

mutual

/-- **An argument is its leaves in turn.** -/
theorem tracks_add (c : Config) (element : NodeId) : ∀ a : Argument,
    Tracks (add c element a) (a.leaves.forM (Leaf.place c element))
  | .empty => tracks_pure _
  | .text s => by
    rw [add, Argument.leaves, forM_singleton]
    exact tracks_note (tracks_addText c element s)
  | .list items => by
    rw [add, Argument.leaves]
    exact tracks_note (tracks_addAll c element items)
  | .node child => by
    rw [add, Argument.leaves, forM_singleton]
    exact tracks_note (tracks_bind (tracks_append element child) fun _ => tracks_pure _)
  | .attributes m => by
    rw [add]
    exact tracks_addAttributes c element m

theorem tracks_addAll (c : Config) (element : NodeId) : ∀ items : List Argument,
    Tracks (addAll c element items) ((Argument.leavesAll items).forM (Leaf.place c element))
  | [] => tracks_pure _
  | item :: rest => by
    rw [addAll, Argument.leavesAll, forM_append]
    exact tracks_bind (tracks_add c element item) fun _ => tracks_addAll c element rest

end

/-! ## 4. A build -/

/-- **A build creates its element and puts the leaves into it.** -/
theorem tracks_element (c : Config) (tag : String) (content : Argument) :
    Tracks (element c tag content) (Document.createWith c tag content.leaves) := by
  refine tracks_bind (tracks_onDocument _) fun id => tracks_note ?_
  refine tracks_bind (tracks_add c id content) fun _ => ?_
  exact tracks_read fun _ => tracks_note (tracks_pure id)

end BuildM

/-- What a builder that is not lent gives and leaves. -/
theorem Builder.build_eq (d : Document) (c : Config) (tag : String) (content : Argument) :
    (((Builder.mk d c false).build tag content).result,
      ((Builder.mk d c false).build tag content).builder.document) =
    (Document.createWith c tag content.leaves).run d :=
  BuildM.tracks_element c tag content { document := d }

theorem Builder.run_createWith_of_not_lent {b : Builder} (hb : b.lent = false) (tag : String)
    (content : Argument) : (Document.createWith b.config tag content.leaves).run b.document =
      ((b.build tag content).result, (b.build tag content).builder.document) := by
  obtain ⟨d, c, lent⟩ := b
  cases hb
  exact (Builder.build_eq d c tag content).symm

/-- What succeeds was built on a document that is not lent, leaf by leaf. -/
theorem Builder.run_createWith_of_build {b : Builder} {tag : String} {content : Argument} {e : NodeId}
    (h : (b.build tag content).result = .ok e) :
    (Document.createWith b.config tag content.leaves).run b.document =
      (.ok e, (b.build tag content).builder.document) := by
  obtain ⟨d, c, lent⟩ := b
  cases lent with
  | true => cases h
  | false => rw [← Builder.build_eq, h]

/-- The name that the element of a tag gets, in the configured namespace or else of HTML, or why it gets
    none. -/
def QualifiedName.ofTag (c : Config) (tag : String) : Except DomError QualifiedName :=
  match c.elementNamespace with
  | some ns => extract (some (c.prefixes.resolve ns)) tag
  | none => forHtml tag

theorem naming_ofTag {c : Config} {tag : String} {q : QualifiedName}
    (h : QualifiedName.ofTag c tag = .ok q) : Naming q := by
  unfold QualifiedName.ofTag at h
  cases hn : c.elementNamespace with
  | none =>
    rw [hn] at h
    exact naming_forHtml h
  | some ns =>
    rw [hn] at h
    exact .extracted h

namespace Document

variable {raw : Prop}

theorem edits_setKey (c : Config) (element : NodeId) (key value : String) :
    Operation.Respects (Edits raw) (setKey c element key value) := by
  unfold setKey
  cases (AttributeKey.ofKey key).nsUri c with
  | none => exact edits_setAttribute _ _ _
  | some uri => exact edits_setAttributeNs _ _ _ _

theorem edits_place (c : Config) (element : NodeId) (l : Leaf) :
    Operation.Respects (Edits raw) (l.place c element) := by
  have ht : ∀ s t u, Edits raw s t → Edits raw t u → Edits raw s u := fun _ _ _ => .trans
  cases l with
  | text s =>
    exact Operation.respects_bind ht (edits_createText s) fun _ =>
      Operation.respects_bind ht (edits_append _ _) fun _ => fun _ => .refl
  | node id => exact Operation.respects_bind ht (edits_append _ _) fun _ => fun _ => .refl
  | keys entries =>
    exact Operation.respects_forM (fun _ => .refl) ht fun _ _ => edits_setKey c element _ _

/-- The element of a build gets the name of its tag, or the build ends there. -/
theorem gives_creation (c : Config) (tag : String) (d : Document) :
    Gives (BuildM.createElement c tag) d (QualifiedName.ofTag c tag) := by
  rw [BuildM.createElement_eq, QualifiedName.ofTag]
  cases c.elementNamespace with
  | none => exact gives_createElement tag d
  | some ns => exact gives_createElementNs _ tag d

theorem edits_creation (c : Config) (tag : String) :
    Operation.Respects (Edits raw) (BuildM.createElement c tag) :=
  fun d => (gives_creation c tag d).edits fun _ => naming_ofTag

theorem run_createWith_of_error {c : Config} {tag : String} {d d' : Document} {e : DomError}
    (h : (BuildM.createElement c tag).run d = (.error e, d')) (leaves : List Leaf) :
    (createWith c tag leaves).run d = (.error e, d') :=
  Operation.run_bind_of_error h

/-- Once its element is there, a build is its leaves in turn, and gives the element. -/
theorem run_createWith_of_created {c : Config} {tag : String} {d d' : Document} {id : NodeId}
    (h : (BuildM.createElement c tag).run d = (.ok id, d')) (leaves : List Leaf) :
    (createWith c tag leaves).run d =
      (((leaves.forM (Leaf.place c id)).run d').1.map fun _ => id,
        ((leaves.forM (Leaf.place c id)).run d').2) := by
  rw [createWith, Operation.run_bind_of_ok h]
  show ((leaves.forM (Leaf.place c id) >>= fun _ => pure id) : DomM NodeId).run d' = _
  rw [Operation.run_bind]
  rcases (leaves.forM (Leaf.place c id)).run d' with ⟨e | u, d''⟩ <;> rfl

/-- **However a build ends, it is a run of steps.** -/
theorem edits_createWith (c : Config) (tag : String) (leaves : List Leaf) :
    Operation.Respects (Edits raw) (createWith c tag leaves) := by
  have ht : ∀ s t u, Edits raw s t → Edits raw t u → Edits raw s u := fun _ _ _ => .trans
  refine Operation.respects_bind ht (edits_creation c tag) fun id =>
    Operation.respects_bind ht ?_ fun _ => fun _ => .refl
  exact Operation.respects_forM (fun _ => .refl) ht fun l _ => edits_place c id l

end Document

end DomBuilder
