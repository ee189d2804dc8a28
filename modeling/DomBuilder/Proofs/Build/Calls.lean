import DomBuilder.Markup.Writer
import DomBuilder.Proofs.Reachable

/-!
# A build as a list of calls

A build threads one document through a nested argument and may stop anywhere in it. This file fixes the
flat list of calls that it comes down to, and that running the list does the same, also where it stops:

* `Primitive`: one call of the kinds that a build makes; `Document.runAll` runs calls in order and stops at
  the first that fails, with the document as it is then;
* `Leaf.callsAll`: the calls that put leaves into an element. New nodes are numbered on from the element,
  so the id of a text is known before it is made (`Leaf.idAfter`);
* `buildCalls`: the creation of the element, then the calls of its leaves;
* `run_forM_place`: leaves that are placed one after another are their calls, by induction on the leaves.
  What carries it is that the next id is always the size of the document (`idAfter_of_run_place`);
* `build_eq_runAll`: a build gives and leaves what its calls do, and so does every build of an argument
  with the same leaves.
-/

namespace DomBuilder

/-! ## 1. Calls -/

/-- The id of the node that is made next after `id`. -/
def NodeId.succ (id : NodeId) : NodeId := ⟨id.val + 1⟩

theorem NodeId.ofNat_succ (n : Nat) : ofNat (n + 1) = (ofNat n).succ :=
  congrArg NodeId.mk (UInt32.ofNat_add n 1)

/-- One call of the kinds that a build makes. -/
inductive Primitive where
  | createElement (name : String)
  | createElementNs (nsUri : Option String) (name : String)
  | createText (s : String)
  | append (parent child : NodeId)
  | setAttribute (id : NodeId) (name value : String)
  | setAttributeNs (id : NodeId) (nsUri : Option String) (name value : String)
  deriving DecidableEq, Repr

namespace Primitive

/-- What the call does. Of its result only counts whether it failed. -/
def operation : Primitive → DomM Unit
  | createElement name => discard (Document.createElement name)
  | createElementNs nsUri name => discard (Document.createElementNs nsUri name)
  | createText s => discard (Document.createText s)
  | append parent child => discard (Document.append parent child)
  | setAttribute id name value => Document.setAttribute id name value
  | setAttributeNs id nsUri name value => Document.setAttributeNs id nsUri name value

/-- The call that creates an element of the configured namespace, or else of HTML. -/
def ofTag (c : Config) (tag : String) : Primitive :=
  match c.elementNamespace with
  | some ns => createElementNs (some (c.prefixes.resolve ns)) tag
  | none => createElement tag

/-- The call that sets the attribute that `key` names. -/
def ofKey (c : Config) (element : NodeId) (key value : String) : Primitive :=
  match (AttributeKey.ofKey key).nsUri c with
  | some uri => setAttributeNs element (some uri) (AttributeKey.ofKey key).localName value
  | none => setAttribute element (AttributeKey.ofKey key).localName value

end Primitive

/-- Runs calls in order, up to the first that fails. -/
def Document.runAll (d : Document) : List Primitive → Except DomError Unit × Document
  | [] => (.ok (), d)
  | p :: ps =>
    match p.operation.run d with
    | (.ok (), d') => d'.runAll ps
    | (.error e, d') => (.error e, d')

namespace Leaf

/-- The calls that put a leaf into `element`, where `next` is the id of the next new node. -/
def calls (c : Config) (element next : NodeId) : Leaf → List Primitive
  | text s => [.createText s, .append element next]
  | node id => [.append element id]
  | keys entries => entries.map fun (key, value) => .ofKey c element key value

/-- The id of the next new node after the leaf, where it was `next` before. -/
def idAfter (next : NodeId) : Leaf → NodeId
  | text _ => next.succ
  | _ => next

/-- The calls that put leaves into `element` in turn. -/
def callsAll (c : Config) (element : NodeId) : NodeId → List Leaf → List Primitive
  | _, [] => []
  | next, l :: rest => l.calls c element next ++ callsAll c element (l.idAfter next) rest

end Leaf

/-- The calls of a build whose new element is `id`. -/
def buildCalls (c : Config) (tag : String) (content : Argument) (id : NodeId) : List Primitive :=
  .ofTag c tag :: Leaf.callsAll c id id.succ content.leaves

/-! ## 2. Running calls -/

namespace Document

theorem runAll_append (ps qs : List Primitive) (d : Document) :
    d.runAll (ps ++ qs) =
      match d.runAll ps with
      | (.ok (), d') => d'.runAll qs
      | (.error e, d') => (.error e, d') := by
  induction ps generalizing d with
  | nil => rfl
  | cons p ps ih =>
    rw [List.cons_append, runAll, runAll]
    rcases p.operation.run d with ⟨e | u, d'⟩
    · rfl
    · exact ih d'

/-- An operation that is calls, and then one that is calls where the first succeeds. -/
theorem run_bind_eq_runAll {x y : DomM Unit} {ps qs : List Primitive} {d : Document}
    (hx : x.run d = d.runAll ps) (hy : ∀ d', x.run d = (.ok (), d') → y.run d' = d'.runAll qs) :
    (x >>= fun _ => y).run d = d.runAll (ps ++ qs) := by
  rw [Operation.run_bind, runAll_append, ← hx]
  rcases h : x.run d with ⟨e | u, d'⟩
  · rfl
  · exact hy d' h

theorem runAll_singleton (p : Primitive) (d : Document) : d.runAll [p] = p.operation.run d := by
  rw [runAll]
  rcases p.operation.run d with ⟨e | u, d'⟩ <;> rfl

/-! ## 3. What calls do to the numbering -/

/-- No node more. -/
def SameSize (d d' : Document) : Prop := d'.size = d.size

/-- The operation makes no node, however it ends. -/
abbrev KeepsSize {α : Type} (x : DomM α) : Prop := x.Respects SameSize

theorem keepsSize_append (p c : NodeId) : KeepsSize (append p c) := by
  intro d
  by_cases h : d.MayAppend p c
  · rw [run_append_of_mayAppend h]
    exact size_moved ..
  · rw [snd_run_append h]
    rfl

theorem keepsSize_discard {α : Type} {x : DomM α} (hx : KeepsSize x) : KeepsSize (discard x) := by
  intro d
  rw [Operation.run_discard]
  exact hx d

theorem keepsSize_setAttribute (id : NodeId) (name value : String) :
    KeepsSize (setAttribute id name value) := by
  intro d
  rw [run_setAttribute]
  cases Name.check name with
  | error e => rfl
  | ok u =>
    cases d.elementOf id with
    | error e => rfl
    | ok e => exact size_update ..

theorem keepsSize_setAttributeNs (id : NodeId) (nsUri : Option String) (name value : String) :
    KeepsSize (setAttributeNs id nsUri name value) := by
  intro d
  rw [run_setAttributeNs]
  cases QualifiedName.extract nsUri name with
  | error e => rfl
  | ok q =>
    cases d.elementOf id with
    | error e => rfl
    | ok e => exact size_update ..

theorem keepsSize_setKey (c : Config) (element : NodeId) (key value : String) :
    KeepsSize (setKey c element key value) := by
  unfold setKey
  cases (AttributeKey.ofKey key).nsUri c with
  | none => exact keepsSize_setAttribute _ _ _
  | some uri => exact keepsSize_setAttributeNs _ _ _ _

theorem keepsSize_setKeys (c : Config) (element : NodeId) (entries : List (String × String)) :
    KeepsSize (entries.forM fun (key, value) => setKey c element key value) := by
  have hr : ∀ d, SameSize d d := fun _ => rfl
  have ht : ∀ s t u, SameSize s t → SameSize t u → SameSize s u := fun _ _ _ h h' => h'.trans h
  exact Operation.respects_forM hr ht fun (key, value) _ => keepsSize_setKey c element key value

/-! ## 4. Leaves as calls -/

theorem operation_ofKey (c : Config) (element : NodeId) (key value : String) :
    (Primitive.ofKey c element key value).operation = setKey c element key value := by
  unfold Primitive.ofKey setKey
  cases (AttributeKey.ofKey key).nsUri c <;> rfl

/-- Keys that are set one after another are their calls. -/
theorem run_forM_setKey (c : Config) (element : NodeId) (entries : List (String × String))
    (d : Document) : (entries.forM fun (key, value) => setKey c element key value).run d =
      d.runAll (entries.map fun (key, value) => .ofKey c element key value) := by
  induction entries generalizing d with
  | nil => rfl
  | cons kv entries ih =>
    obtain ⟨key, value⟩ := kv
    have hx : (setKey c element key value).run d = d.runAll [.ofKey c element key value] := by
      rw [runAll_singleton, operation_ofKey]
    exact run_bind_eq_runAll hx fun d' _ => ih d'

/-- **A leaf that is placed is its calls.** -/
theorem run_place (c : Config) (element : NodeId) (l : Leaf) (d : Document) :
    (l.place c element).run d = d.runAll (l.calls c element (.ofNat d.size)) := by
  cases l with
  | text s =>
    rw [run_place_text]
    exact (runAll_singleton (.append element (.ofNat d.size)) _).symm
  | node id =>
    rw [run_place_node]
    exact (runAll_singleton (.append element id) d).symm
  | keys entries => exact run_forM_setKey c element entries d

/-- After a leaf the next new node is numbered by the size of the document again. -/
theorem idAfter_of_run_place {c : Config} {element : NodeId} {l : Leaf} {d d' : Document}
    (h : (l.place c element).run d = (.ok (), d')) :
    l.idAfter (.ofNat d.size) = .ofNat d'.size := by
  have hs : ((l.place c element).run d).2.size = d'.size := by rw [h]
  cases l with
  | text s =>
    have ha := keepsSize_discard (keepsSize_append element (.ofNat d.size))
      (d.added (.text s) d.symbols)
    rw [Leaf.idAfter, ← NodeId.ofNat_succ, ← size_added d (.text s) d.symbols]
    exact congrArg NodeId.ofNat (ha.symm.trans hs)
  | node id =>
    exact congrArg NodeId.ofNat ((keepsSize_discard (keepsSize_append element id) d).symm.trans hs)
  | keys entries =>
    exact congrArg NodeId.ofNat ((keepsSize_setKeys c element entries d).symm.trans hs)

/-- **Leaves that are placed one after another are their calls**, whether all of them succeed or not. -/
theorem run_forM_place (c : Config) (element : NodeId) (leaves : List Leaf) (d : Document) :
    (leaves.forM (Leaf.place c element)).run d =
      d.runAll (Leaf.callsAll c element (.ofNat d.size) leaves) := by
  induction leaves generalizing d with
  | nil => rfl
  | cons l leaves ih =>
    refine run_bind_eq_runAll (run_place c element l d) fun d' h => ?_
    rw [idAfter_of_run_place h]
    exact ih d'

/-! ## 5. A build as calls -/

theorem operation_ofTag (c : Config) (tag : String) :
    (Primitive.ofTag c tag).operation = discard (BuildM.createElement c tag) := by
  rw [Primitive.ofTag, BuildM.createElement_eq]
  cases c.elementNamespace <;> rfl

/-- A new element gets the next id, or nothing is made. -/
theorem run_createElement_cases (c : Config) (tag : String) (d : Document) :
    (∃ e, (BuildM.createElement c tag).run d = (.error e, d)) ∨
    ∃ d', (BuildM.createElement c tag).run d = (.ok (.ofNat d.size), d') ∧
      d'.size = d.size + 1 := by
  have h := gives_creation c tag d
  cases hq : QualifiedName.ofTag c tag with
  | error e =>
    rw [hq] at h
    exact .inl ⟨e, h⟩
  | ok q =>
    rw [hq] at h
    obtain ⟨el, t, hx, _⟩ := h
    exact .inr ⟨_, hx, size_added ..⟩

/-- **The creation of an element with its leaves is the calls of the build.** -/
theorem run_createWith (c : Config) (tag : String) (content : Argument) (d : Document) :
    (createWith c tag content.leaves).run d =
      ((d.runAll (buildCalls c tag content (.ofNat d.size))).1.map fun _ => .ofNat d.size,
        (d.runAll (buildCalls c tag content (.ofNat d.size))).2) := by
  have ho := Operation.run_discard (BuildM.createElement c tag) d
  rw [← operation_ofTag] at ho
  rcases run_createElement_cases c tag d with ⟨e, he⟩ | ⟨d', hd', hs⟩
  · have hr : d.runAll (buildCalls c tag content (.ofNat d.size)) = (.error e, d) := by
      rw [buildCalls, runAll, ho, he]
      rfl
    rw [hr, run_createWith_of_error he]
    rfl
  · have hr : d.runAll (buildCalls c tag content (.ofNat d.size)) =
        (content.leaves.forM (Leaf.place c (.ofNat d.size))).run d' := by
      rw [run_forM_place, hs, NodeId.ofNat_succ, buildCalls, runAll, ho, hd']
      rfl
    rw [hr, run_createWith_of_created hd']

/-- **A build is its calls.** -/
theorem build_eq_runAll (d : Document) (c : Config) (tag : String) (content : Argument) :
    let b : Builder := { document := d, config := c }
    let id := NodeId.ofNat d.size
    let ran := d.runAll (buildCalls c tag content id)
    (b.build tag content).result = ran.1.map (fun _ => id) ∧
      (b.build tag content).builder = { b with document := ran.2 } ∧
      ∀ content' : Argument, content'.leaves = content.leaves →
        (b.build tag content').result = (b.build tag content).result ∧
          (b.build tag content').builder = (b.build tag content).builder := by
  intro b id ran
  have hb : ∀ a : Argument, a.leaves = content.leaves →
      (b.build tag a).result = ran.1.map (fun _ => id) ∧
        (b.build tag a).builder = { b with document := ran.2 } := by
    intro a ha
    have h := Builder.build_eq d c tag a
    rw [ha, run_createWith] at h
    obtain ⟨h1, h2⟩ := Prod.mk.inj h
    exact ⟨h1, congrArg (fun u => { b with document := u }) h2⟩
  obtain ⟨h1, h2⟩ := hb content rfl
  refine ⟨h1, h2, fun content' hl => ?_⟩
  obtain ⟨h3, h4⟩ := hb content' hl
  exact ⟨h3.trans h1.symm, h4.trans h2.symm⟩

/-- A build in the namespace of a prefix that fails at the second of three keys, and the same leaves nested
    otherwise: the text and the first key are there, the third key and the last text are not. -/
theorem build_eq_runAll_partial :
    let c := (Config.default.withPrefix "s" Namespace.svg).withNamespace "s"
    let entries := [("viewBox", "x"), ("1", "y"), ("xlink:href", "z")]
    let content := Argument.list [.text "a", .attributes ⟨entries, none⟩, .text "b"]
    let content' := Argument.list [.empty, .list [.list [.text "a"], .attributes ⟨entries, none⟩],
      .attributes ⟨[], some "b"⟩]
    let b : Builder := { document := fresh, config := c }
    buildCalls c "g" content ⟨1⟩ = [.createElementNs (some Namespace.svg) "g", .createText "a",
        .append ⟨1⟩ ⟨2⟩, .setAttribute ⟨1⟩ "viewBox" "x", .setAttribute ⟨1⟩ "1" "y",
        .setAttributeNs ⟨1⟩ (some Namespace.xlink) "href" "z", .createText "b", .append ⟨1⟩ ⟨3⟩] ∧
      (b.build "g" content).result = .error (.invalidCharacter "1") ∧
      (b.build "g" content).builder.document.outerHtml ⟨1⟩ = "<g viewBox=\"x\">a</g>" ∧
      content'.leaves = content.leaves ∧
      (b.build "g" content').result = (b.build "g" content).result ∧
      (b.build "g" content').builder = (b.build "g" content).builder := by
  intro c entries content content' b
  have hl : content'.leaves = content.leaves := by decide +kernel
  obtain ⟨_, _, h⟩ := build_eq_runAll fresh c "g" content
  exact ⟨by decide +kernel, by decide +kernel, by decide +kernel, hl, h content' hl⟩

end Document

end DomBuilder
