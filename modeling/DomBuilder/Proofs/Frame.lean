import DomBuilder.Proofs.Build.Calls
import DomBuilder.Proofs.Build.Effect
import DomBuilder.Proofs.Lasting
import DomBuilder.Proofs.Spanning

/-!
# What a call leaves alone

Nodes are moved by rewriting links of their neighbours, and every new name adds to the table that the old
names are read from. This file fixes the calls of which nothing can be seen from an element downward:

* `WellFormed.below_induction`: what holds of a node and goes from parents to children holds of all that
  lies under the node;
* `SameBelow.mem_path_iff`: if children and contents stay from `e` downward, the same nodes lie under `e`.
  This makes one change after another again such a change (`SameBelow.trans`);
* `sameBelow_moved` and its like: one change of each kind. A node that is not under `e`, or is `e` itself,
  is nobody's child under `e` (`WellFormed.not_mem_children`), so taking it away is not seen there;
* `sameBelow_forM`: leaves that are placed into an element outside, by induction on the leaves, wherever
  the placing stops;
* `Action.Spares`: the calls that neither write nor hang anything under `e`, and take at most `e` itself
  away from there; `output_of_spares`: after such a call all that is written for `e` is the same.
-/

namespace DomBuilder

namespace Document

variable {d d' d₁ : Document} {e x : NodeId}

/-! ## 1. What lies under a node -/

theorem isInclusiveAncestor_eq_false_iff : d.isInclusiveAncestor e x = false ↔ e ∉ d.path x := by
  rw [← isInclusiveAncestor_iff, Bool.not_eq_true]

/-- **What holds of a node and goes from parents to children holds of all under it.** -/
theorem WellFormed.below_induction (h : WellFormed d) {P : NodeId → Prop} (self : P e)
    (child : ∀ p c, e ∈ d.path p → P p → c ∈ d.children p → P c) (hx : e ∈ d.path x) : P x := by
  have hr := (h.mem_path_iff_reaches.mp hx).2
  -- the induction is on the way up from `x`, from its end at `e` on
  induction hr using Relation.ReflTransGen.head_induction_on with
  | refl => exact self
  | @head x p hp hr ih =>
    have hc := (h.arranged.parent p x).mp hp
    have he : e ∈ d.path p := h.mem_path_iff_reaches.mpr ⟨h.arranged.contains_parent hc, hr⟩
    exact child p x he (ih he) hc

/-- A node that is not under `e`, or is `e` itself, is nobody's child under `e`. -/
theorem WellFormed.not_mem_children (h : WellFormed d) {q c : NodeId} (hq : e ∈ d.path q)
    (hc : e ∉ d.path c ∨ c = e) : c ∉ d.children q := by
  intro hm
  rcases hc with hc | rfl
  · exact hc (h.mem_path_child hm hq)
  · exact h.not_mem_path_parent hm hq

/-- A free id has no way up, so the node that gets it comes under nothing before it hangs. -/
theorem not_mem_path_new (hsize : d.size < UInt32.size) : e ∉ d.path (.ofNat d.size) := by
  rw [path_of_not_contains (not_contains_new hsize)]
  exact List.not_mem_nil

/-! ## 2. The same from a node downward -/

theorem SameBelow.refl (d : Document) (e : NodeId) : SameBelow d d e := fun _ _ => ⟨rfl, rfl⟩

theorem SameBelow.contains (hs : SameBelow d d' e) (h : WellFormed d) (he : d.contains e = true) :
    d'.contains e = true := by
  obtain ⟨k, hk⟩ := exists_content? he
  exact contains_of_content? ((hs e (h.self_mem_path he)).2.trans hk)

/-- **If children and contents stay from `e` downward, the same nodes lie under `e`.** -/
theorem SameBelow.mem_path_iff (hs : SameBelow d d' e) (h : WellFormed d) (h' : WellFormed d')
    (he : d.contains e = true) (x : NodeId) : e ∈ d'.path x ↔ e ∈ d.path x := by
  constructor
  · refine h'.below_induction (P := fun x => e ∈ d.path x) (h.self_mem_path he) fun p c _ hp hc => ?_
    rw [(hs p hp).1] at hc
    exact h.mem_path_child hc hp
  · refine h.below_induction (P := fun x => e ∈ d'.path x) (h'.self_mem_path (hs.contains h he))
      fun p c hp hp' hc => ?_
    rw [← (hs p hp).1] at hc
    exact h'.mem_path_child hc hp'

theorem SameBelow.trans (hs : SameBelow d d₁ e) (hs' : SameBelow d₁ d' e) (h : WellFormed d)
    (h₁ : WellFormed d₁) (he : d.contains e = true) : SameBelow d d' e := by
  intro x hx
  obtain ⟨hc, hk⟩ := hs x hx
  obtain ⟨hc', hk'⟩ := hs' x ((hs.mem_path_iff h h₁ he x).mpr hx)
  exact ⟨hc'.trans hc, hk'.trans hk⟩

/-! ## 3. One change -/

theorem sameBelow_added (h : WellFormed d) (k : NodeContent) (t : SymbolTable) :
    SameBelow d (d.added k t) e := by
  intro x hx
  obtain ⟨k', hk'⟩ := exists_content? (contains_of_mem_path hx)
  exact ⟨h.children_transport (sameLinks_added d k t) x, by rw [content?_added_of_some hk', hk']⟩

theorem sameBelow_rewritten (h : WellFormed d) {id : NodeId} (hid : e ∉ d.path id)
    (k : NodeContent) : SameBelow d (d.rewritten id k) e := by
  intro x hx
  have hne : x ≠ id := fun he => hid (he ▸ hx)
  exact ⟨h.children_transport (sameLinks_rewritten d id k) x, by rw [content?_rewritten, if_neg hne]⟩

theorem sameBelow_detached (h : WellFormed d) {c : NodeId} (hc : e ∉ d.path c ∨ c = e) :
    SameBelow d (d.detached c) e := by
  intro x hx
  refine ⟨?_, content?_detached d c x⟩
  rw [h.children_detached, List.erase_of_not_mem (h.not_mem_children hx hc)]

theorem sameBelow_moved (h : WellFormed d) {p c : NodeId} (hm : d.MayAppend p c)
    (hp : e ∉ d.path p) (hc : e ∉ d.path c ∨ c = e) : SameBelow d (d.moved p c) e := by
  intro x hx
  have hne : x ≠ p := fun he => hp (he ▸ hx)
  refine ⟨?_, content?_moved d p c x⟩
  rw [h.children_moved hm, if_neg hne, List.erase_of_not_mem (h.not_mem_children hx hc)]

theorem sameBelow_append (h : WellFormed d) {p c : NodeId} (hp : e ∉ d.path p)
    (hc : e ∉ d.path c ∨ c = e) : SameBelow d ((append p c).run d).2 e := by
  by_cases hm : d.MayAppend p c
  · rw [run_append_of_mayAppend hm]
    exact sameBelow_moved h hm hp hc
  · rw [snd_run_append hm]
    exact .refl d e

/-! ## 4. Operations on one node -/

/-- A node more, or nothing. -/
def Grows (d d' : Document) : Prop := d' = d ∨ ∃ k t, d' = d.added k t

theorem Grows.sameBelow (hg : Grows d d') (h : WellFormed d) : SameBelow d d' e := by
  rcases hg with hd | ⟨k, t, rfl⟩
  · exact hd ▸ .refl d e
  · exact sameBelow_added h k t

theorem Gives.grows {x : DomM NodeId} {r : Except DomError QualifiedName} (h : Gives x d r) :
    Grows d (x.run d).2 := by
  cases r with
  | error err => exact .inl (by rw [h.run_error])
  | ok q =>
    obtain ⟨el, t, hrun, _⟩ := h
    exact .inr ⟨.element el, t, by rw [hrun]⟩

/-- New content for the node at `id`, or nothing. -/
def WritesAt (id : NodeId) (d d' : Document) : Prop := d' = d ∨ ∃ k, d' = d.rewritten id k

theorem WritesAt.sameBelow {id : NodeId} (hw : WritesAt id d d') (h : WellFormed d)
    (hid : e ∉ d.path id) : SameBelow d d' e := by
  rcases hw with hd | ⟨k, rfl⟩
  · exact hd ▸ .refl d e
  · exact sameBelow_rewritten h hid k

theorem writesAt_setAttribute (id : NodeId) (name value : String) :
    Operation.Respects (WritesAt id) (setAttribute id name value) := by
  intro d
  rw [run_setAttribute]
  cases Name.check name with
  | error x => exact .inl rfl
  | ok u =>
    cases d.elementOf id with
    | error x => exact .inl rfl
    | ok el => exact .inr ⟨_, rfl⟩

theorem writesAt_setAttributeNs (id : NodeId) (nsUri : Option String) (name value : String) :
    Operation.Respects (WritesAt id) (setAttributeNs id nsUri name value) := by
  intro d
  rw [run_setAttributeNs]
  cases QualifiedName.extract nsUri name with
  | error x => exact .inl rfl
  | ok q =>
    cases d.elementOf id with
    | error x => exact .inl rfl
    | ok el => exact .inr ⟨_, rfl⟩

theorem writesAt_setKey (c : Config) (id : NodeId) (key value : String) :
    Operation.Respects (WritesAt id) (setKey c id key value) := by
  unfold setKey
  cases (AttributeKey.ofKey key).nsUri c with
  | none => exact writesAt_setAttribute _ _ _
  | some uri => exact writesAt_setAttributeNs _ _ _ _

theorem writesAt_overwrite (d : Document) (id : NodeId)
    (write : AttributeList → Option String × AttributeList) :
    WritesAt id d (((d.overwrite? id write).map (·.2)).getD d) := by
  unfold overwrite?
  cases d.element? id with
  | none => exact .inl rfl
  | some el => exact .inr ⟨_, rfl⟩

theorem writesAt_replaceText (d : Document) (id : NodeId) (s : String) :
    WritesAt id d (((d.replaceText? id s).map (·.2)).getD d) := by
  unfold replaceText?
  cases d.text? id with
  | none => exact .inl rfl
  | some old => exact .inr ⟨_, rfl⟩

/-! ## 5. Leaves that are placed -/

/-- A step, and then the rest if the step succeeds. -/
theorem sameBelow_bind {α β : Type} {x : DomM α} {f : α → DomM β} (h : WellFormed d)
    (he : d.contains e = true) (h₁ : WellFormed (x.run d).2) (hx : SameBelow d (x.run d).2 e)
    (hf : ∀ a d₁, x.run d = (.ok a, d₁) → SameBelow d₁ ((f a).run d₁).2 e) :
    SameBelow d ((x >>= f).run d).2 e := by
  rw [Operation.run_bind]
  rcases hr : x.run d with ⟨err | a, d₁⟩
  · rw [hr] at hx
    exact hx
  · rw [hr] at hx h₁
    exact hx.trans (hf a d₁ hr) h h₁ he

section Leaves

variable {c : Config} {n : NodeId}

/-- Keys of an element that is not under `e`. -/
theorem sameBelow_setKeys (h : WellFormed d) (he : d.contains e = true) (hn : e ∉ d.path n)
    (entries : List (String × String)) :
    SameBelow d ((entries.forM fun (key, value) => setKey c n key value).run d).2 e := by
  induction entries generalizing d with
  | nil => exact .refl d e
  | cons kv entries ih =>
    have hs : SameBelow d ((setKey c n kv.1 kv.2).run d).2 e :=
      (writesAt_setKey c n kv.1 kv.2 d).sameBelow h hn
    have h₁ : WellFormed ((setKey c n kv.1 kv.2).run d).2 :=
      h.run (edits_setKey c n kv.1 kv.2)
    refine sameBelow_bind h he h₁ hs fun _ d₁ hr => ?_
    rw [hr] at hs h₁
    exact ih h₁ (hs.contains h he) fun hm => hn ((hs.mem_path_iff h h₁ he n).mp hm)

/-- A leaf of an element that is not under `e`. A new text is not under `e` either. -/
theorem sameBelow_place (h : WellFormed d) (he : d.contains e = true) (hn : e ∉ d.path n) {l : Leaf}
    (hl : ∀ id, l = .node id → e ∉ d.path id ∨ id = e)
    (hsize : ((l.place c n).run d).2.size ≤ UInt32.size) :
    SameBelow d ((l.place c n).run d).2 e := by
  cases l with
  | text s =>
    have hlt := size_lt_of_place_text hsize
    rw [run_place_text, Operation.run_discard]
    have h₁ : WellFormed (d.added (.text s) d.symbols) := h.added rfl _
    have hs : SameBelow d (d.added (.text s) d.symbols) e := sameBelow_added h _ _
    have hout : ∀ x, e ∉ d.path x → e ∉ (d.added (.text s) d.symbols).path x :=
      fun x hx hm => hx ((hs.mem_path_iff h h₁ he x).mp hm)
    exact hs.trans (sameBelow_append h₁ (hout n hn) (.inl (hout _ (not_mem_path_new hlt)))) h h₁ he
  | node id =>
    rw [run_place_node, Operation.run_discard]
    exact sameBelow_append h hn (hl id rfl)
  | keys entries => exact sameBelow_setKeys h he hn entries

/-- **Leaves of an element that is not under `e` change nothing there**, if their nodes are not under `e`,
    or are `e` itself, wherever the placing stops. -/
theorem sameBelow_forM (h : WellFormed d) (he : d.contains e = true) (hn : e ∉ d.path n)
    {leaves : List Leaf} (hl : ∀ id, .node id ∈ leaves → e ∉ d.path id ∨ id = e)
    (hsize : ((leaves.forM (Leaf.place c n)).run d).2.size ≤ UInt32.size) :
    SameBelow d ((leaves.forM (Leaf.place c n)).run d).2 e := by
  induction leaves generalizing d with
  | nil => exact .refl d e
  | cons l leaves ih =>
    have hl₀ : ∀ id, l = .node id → e ∉ d.path id ∨ id = e :=
      fun id hid => hl id (hid ▸ List.mem_cons_self)
    have h₁ : WellFormed ((l.place c n).run d).2 := h.run (edits_place c n l)
    have hs := sameBelow_place h he hn hl₀ (Nat.le_trans (size_le_forM_cons l leaves) hsize)
    refine sameBelow_bind h he h₁ hs fun _ d₁ hr => ?_
    rw [run_forM_cons_of_ok hr] at hsize
    rw [hr] at hs h₁
    -- what lies under `e` is the same after the leaf, so the condition on the others still holds
    have hiff := hs.mem_path_iff h h₁ he
    refine ih h₁ (hs.contains h he) (fun hm => hn ((hiff n).mp hm)) (fun id hid => ?_) hsize
    exact (hl id (List.mem_cons_of_mem _ hid)).imp_left fun hid hm => hid ((hiff id).mp hm)

/-- **A build changes nothing under `e`**, if its nodes are not under `e`, or are `e` itself, and whether
    it succeeds or fails. -/
theorem sameBelow_createWith (h : WellFormed d) (he : d.contains e = true) {tag : String}
    {leaves : List Leaf} (hl : ∀ id, .node id ∈ leaves → e ∉ d.path id ∨ id = e)
    (hsize : ((createWith c tag leaves).run d).2.size ≤ UInt32.size) :
    SameBelow d ((createWith c tag leaves).run d).2 e := by
  have hg := (gives_creation c tag d).grows
  have h₁ : WellFormed ((BuildM.createElement c tag).run d).2 :=
    h.run (edits_creation c tag)
  have hs := hg.sameBelow (e := e) h
  rcases run_createElement_cases c tag d with ⟨err, hr⟩ | ⟨d₁, hr, hsz⟩
  · rw [run_createWith_of_error hr]
    exact .refl d e
  rw [hr] at hs h₁
  have hiff := hs.mem_path_iff h h₁ he
  rw [run_createWith_of_created hr] at hsize ⊢
  have hlt : d.size < UInt32.size := size_lt_of_forM hsz hsize
  have hnew : e ∉ d₁.path (.ofNat d.size) := by
    rw [hiff]
    exact not_mem_path_new hlt
  refine hs.trans (sameBelow_forM h₁ (hs.contains h he) hnew (fun id hid => ?_) hsize) h h₁ he
  exact (hl id hid).imp_left fun hn hm => hn ((hiff id).mp hm)

end Leaves

/-! ## 6. Calls -/

/-- `c` may be taken away: it is not under `e`, or is `e` itself. -/
def Removable (d : Document) (e c : NodeId) : Prop := d.isInclusiveAncestor e c = false ∨ c = e

instance (d : Document) (e c : NodeId) : Decidable (d.Removable e c) :=
  inferInstanceAs (Decidable (_ ∨ _))

end Document

/-- The call writes to no node from `e` downward and hangs nothing there, and takes at most `e` itself
    away from there. -/
def Action.Spares (d : Document) (e : NodeId) : Action → Prop
  | createElement _ => True
  | createElementNs _ _ => True
  | createText _ => True
  | append parent child => d.isInclusiveAncestor e parent = false ∧ d.Removable e child
  | detach id => d.Removable e id
  | setAttribute id _ _ => d.isInclusiveAncestor e id = false
  | setAttributeNs id _ _ _ => d.isInclusiveAncestor e id = false
  | overwriteAttribute id _ _ => d.isInclusiveAncestor e id = false
  | overwriteAttributeNs id _ => d.isInclusiveAncestor e id = false
  | replaceText id _ => d.isInclusiveAncestor e id = false
  | build _ _ content => ∀ id ∈ Leaf.nodes content.leaves, d.Removable e id

instance (d : Document) (e : NodeId) : (a : Action) → Decidable (a.Spares d e)
  | .createElement _ | .createElementNs _ _ | .createText _ => isTrue trivial
  | .append _ _ => inferInstanceAs (Decidable (_ ∧ _))
  | .detach id => inferInstanceAs (Decidable (d.Removable e id))
  | .setAttribute _ _ _ | .setAttributeNs _ _ _ _ | .overwriteAttribute _ _ _
  | .overwriteAttributeNs _ _ | .replaceText _ _ => inferInstanceAs (Decidable (_ = false))
  | .build _ _ content => inferInstanceAs (Decidable (∀ id ∈ Leaf.nodes content.leaves, _))

namespace Document

variable {d : Document} {e : NodeId}

theorem removable_iff {c : NodeId} : d.Removable e c ↔ e ∉ d.path c ∨ c = e := by
  rw [Removable, isInclusiveAncestor_eq_false_iff]

/-- **A call that spares `e` changes nothing from `e` downward**, as long as the ids fit the word. -/
theorem sameBelow_apply (h : WellFormed d) (he : d.contains e = true) {a : Action} (ha : a.Spares d e)
    (hsize : (a.apply d).size ≤ UInt32.size) : SameBelow d (a.apply d) e := by
  have hat : ∀ {id d'}, WritesAt id d d' → d.isInclusiveAncestor e id = false → SameBelow d d' e :=
    fun hw hid => hw.sameBelow h (isInclusiveAncestor_eq_false_iff.mp hid)
  cases a with
  | createElement name => exact (gives_createElement name d).grows.sameBelow h
  | createElementNs nsUri name => exact (gives_createElementNs nsUri name d).grows.sameBelow h
  | createText s => exact sameBelow_added h _ _
  | append p c =>
    exact sameBelow_append h (isInclusiveAncestor_eq_false_iff.mp ha.1) (removable_iff.mp ha.2)
  | detach id =>
    show SameBelow d ((detach id).run d).2 e
    rw [snd_run_detach]
    exact sameBelow_detached h (removable_iff.mp ha)
  | setAttribute id name value => exact hat (writesAt_setAttribute id name value d) ha
  | setAttributeNs id nsUri name value => exact hat (writesAt_setAttributeNs id nsUri name value d) ha
  | overwriteAttribute id name value => exact hat (writesAt_overwrite d id _) ha
  | overwriteAttributeNs id a => exact hat (writesAt_overwrite d id _) ha
  | replaceText id s => exact hat (writesAt_replaceText d id s) ha
  | build config tag content =>
    rw [apply_build] at hsize ⊢
    exact sameBelow_createWith h he
      (fun id hid => removable_iff.mp (ha id (Leaf.mem_nodes.mpr hid))) hsize

/-- **After a call that spares an element, all that is written for the element is the same, the same nodes
    lie under it, and each has the same children.** -/
theorem output_of_spares {calls : List Action} {a : Action} {el : Element}
    (hel : (fresh.after calls).element? e = some el) (ha : a.Spares (fresh.after calls) e)
    (hsize : (a.apply (fresh.after calls)).size < UInt32.size) :
    let d := fresh.after calls
    let d' := a.apply d
    d'.output e = d.output e ∧
      ∀ x, d'.isInclusiveAncestor e x = d.isInclusiveAncestor e x ∧
        (d.isInclusiveAncestor e x = true → d'.children x = d.children x) := by
  intro d d'
  have h : WellFormed d := wellFormed_after calls
  have ht : Tabled d := tabled_after calls
  have hedits : Edits True d d' := edits_apply a (.inr trivial) d
  have h' : WellFormed d' := h.edits hedits
  have he : d.contains e = true := contains_of_element? hel
  have hs : SameBelow d d' e := sameBelow_apply h he ha (Nat.le_of_lt hsize)
  refine ⟨?_, fun x => ⟨?_, fun hx => (hs x (isInclusiveAncestor_iff.mp hx)).1⟩⟩
  · have htree := tree_congr h h' ht (grown_edits hedits) he hs
    rw [output_eq h ht, output_eq h' (ht.edits hedits), htree]
    exact Tree.output_congr fun s hs => by rw [tree_of_element h ht hel] at hs; cases hs
  · rw [Bool.eq_iff_iff, isInclusiveAncestor_iff, isInclusiveAncestor_iff]
    exact hs.mem_path_iff h h' he x

/-- A build that takes a paragraph and its next sibling out of a division, adds a text and then fails: the
    paragraph has gone, and reads as before. -/
theorem output_of_spares_partial :
    let calls : List Action :=
      [.createElement "div", .createElement "p", .createText "x", .append ⟨1⟩ ⟨2⟩, .append ⟨2⟩ ⟨3⟩,
        .createElement "b", .append ⟨1⟩ ⟨4⟩]
    let a := Action.build Config.default "ul"
      (.list [.node ⟨4⟩, .node ⟨2⟩, .text "z", .attributes ⟨[("id", "u"), ("1", "y")], none⟩])
    let d := fresh.after calls
    let d' := a.apply d
    a.Spares d ⟨2⟩ ∧ d.outerHtml ⟨1⟩ = "<div><p>x</p><b></b></div>" ∧
      d'.outerHtml ⟨1⟩ = "<div></div>" ∧
      d'.outerHtml ⟨5⟩ = "<ul id=\"u\"><b></b><p>x</p>z</ul>" ∧
      d'.output ⟨2⟩ = d.output ⟨2⟩ ∧ d.output ⟨2⟩ = ⟨"<p>x</p>", "x", "x"⟩ ∧
      d'.children ⟨2⟩ = d.children ⟨2⟩ := by
  intro calls a d d'
  have ha : a.Spares d ⟨2⟩ := by decide +kernel
  obtain ⟨el, hel⟩ := Option.isSome_iff_exists.mp (by decide +kernel : (d.element? ⟨2⟩).isSome = true)
  obtain ⟨ho, hx⟩ := output_of_spares hel ha (by decide +kernel)
  exact ⟨ha, by decide +kernel, by decide +kernel, by decide +kernel, ho, by decide +kernel,
    (hx ⟨2⟩).2 (by decide +kernel)⟩

end Document

end DomBuilder
