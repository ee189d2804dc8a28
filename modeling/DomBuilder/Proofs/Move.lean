import DomBuilder.Proofs.Reachable

/-!
# Moves

An append is checked against the whole forest and then rewrites the links of up to six nodes. This file
fixes, for the documents that callers can reach, when it is accepted and what it does then:

* `places_append`: the moved node is behind the other children of its new parent and in no other list;
  no other node has another parent, and nothing but places changes;
* `FirstOf`: of several faults the first in a list counts; `Reports`: a check that ends so;
* `appendFaults`: what may be wrong with an append, in the order of report. Each fault is told by what the
  nodes are and where they hang, and none by a walk; `WellFormed.reports_checkAppend`: the check reports
  them;
* `Touched`: the nodes that an append looks up. All of them are there (`WellFormed.contains_touched`), and
  the others stay as they are (`get?_moved_of_not_touched`);
* `result_append`: the result of an append.
-/

namespace DomBuilder.Document

variable {d d' : Document} {p c x : NodeId}

/-! ## 1. Places after an append -/

/-- **All places after an append that gives a result.** The node that it gives is the last child of its new
    parent, and gone from wherever it was, which may be the same list. Every other node has the parent it
    had, and no node is made, has other content or is named otherwise. -/
theorem places_append {calls : List Action} {id : NodeId}
    (hrun : (append p c).run (fresh.after calls) = (.ok id, d')) :
    let d := fresh.after calls
    id = c ∧ d'.parent? c = some p ∧ d'.children p = (d.children p).filter (· ≠ c) ++ [c] ∧
      (∀ q, q ≠ p → d'.children q = (d.children q).filter (· ≠ c)) ∧
      (∀ x, x ≠ c → d'.parent? x = d.parent? x) ∧
      d'.size = d.size ∧ (∀ x, d'.content? x = d.content? x) ∧ d'.symbols = d.symbols := by
  intro d
  have hw : WellFormed d := wellFormed_after calls
  obtain ⟨hm, hid, rfl⟩ := eq_moved_of_run_append hrun
  have hlist := hw.arranged.erase_eq_filter
  refine ⟨hid, ?_, ?_, fun q hq => ?_, fun x hx => ?_, size_moved .., content?_moved d p c,
    symbols_moved ..⟩
  · rw [parent?_moved hm.contains_child, if_pos rfl]
  · rw [hw.children_moved hm, if_pos rfl, hlist]
  · rw [hw.children_moved hm, if_neg hq, hlist]
  · rw [parent?_moved hm.contains_child, if_neg hx]

/-- The middle one of three children goes behind the last one, and then under the first. -/
theorem places_append_middle :
    let calls : List Action := [.createElement "ul", .createElement "li", .createText "x",
      .createElement "li", .append ⟨1⟩ ⟨2⟩, .append ⟨1⟩ ⟨3⟩, .append ⟨1⟩ ⟨4⟩]
    let d := fresh.after calls
    let d₁ := fresh.after (calls ++ [.append ⟨1⟩ ⟨3⟩])
    let d₂ := ((append ⟨2⟩ ⟨3⟩).run d₁).2
    d.children ⟨1⟩ = [⟨2⟩, ⟨3⟩, ⟨4⟩] ∧ d₁.children ⟨1⟩ = [⟨2⟩, ⟨4⟩, ⟨3⟩] ∧
      d₂.children ⟨1⟩ = [⟨2⟩, ⟨4⟩] ∧ d₂.children ⟨2⟩ = [⟨3⟩] ∧ d₂.parent? ⟨4⟩ = some ⟨1⟩ ∧
      d₂.content? ⟨3⟩ = some (.text "x") := by
  intro calls d d₁ d₂
  have hd : d.children ⟨1⟩ = [⟨2⟩, ⟨3⟩, ⟨4⟩] := by decide +kernel
  have hrun₁ : (append ⟨1⟩ ⟨3⟩).run d = (.ok ⟨3⟩, d₁) :=
    Prod.ext (by decide +kernel) (after_append fresh calls [.append ⟨1⟩ ⟨3⟩]).symm
  obtain ⟨_, _, hend, _⟩ := places_append hrun₁
  rw [hd] at hend
  have hrun₂ : (append ⟨2⟩ ⟨3⟩).run d₁ = (.ok ⟨3⟩, d₂) := Prod.ext (by decide +kernel) rfl
  obtain ⟨_, _, hin, hout, hparent, _, hcontent, _⟩ := places_append hrun₂
  exact ⟨hd, hend, (hout ⟨1⟩ (by decide)).trans (by rw [hend]; decide), hin.trans (by decide +kernel),
    (hparent ⟨4⟩ (by decide)).trans (by decide +kernel), (hcontent ⟨3⟩).trans (by decide +kernel)⟩

/-! ## 2. The first of several faults -/

/-- `err` comes with the first fault in the list that there is. -/
inductive FirstOf : List (Prop × DomError) → DomError → Prop where
  | here {fault : Prop} {err : DomError} {rest : List (Prop × DomError)} (h : fault) :
      FirstOf ((fault, err) :: rest) err
  | later {fault : Prop} {err err' : DomError} {rest : List (Prop × DomError)} (h : ¬ fault)
      (hrest : FirstOf rest err) : FirstOf ((fault, err') :: rest) err

/-- A check that reports the first of these faults, if there is one. -/
def Reports (faults : List (Prop × DomError)) : Except DomError Unit → Prop
  | .ok () => ∀ f ∈ faults, ¬ f.1
  | .error err => FirstOf faults err

section Reports

variable {faults rest : List (Prop × DomError)} {fault : Prop} {err err' : DomError}
  {r : Except DomError Unit}

theorem FirstOf.exists_fault (h : FirstOf faults err) : ∃ f ∈ faults, f.1 := by
  induction h with
  | here h => exact ⟨_, List.mem_cons_self, h⟩
  | later _ _ ih =>
    obtain ⟨f, hf, hfault⟩ := ih
    exact ⟨f, List.mem_cons_of_mem _ hf, hfault⟩

theorem FirstOf.unique (h : FirstOf faults err) (h' : FirstOf faults err') : err = err' := by
  induction h with
  | here hf =>
    cases h' with
    | here _ => rfl
    | later hn _ => exact absurd hf hn
  | later hn _ ih =>
    cases h' with
    | here hf => exact absurd hf hn
    | later _ h' => exact ih h'

theorem reports_nil : Reports [] (.ok ()) := fun _ hf => absurd hf List.not_mem_nil

/-- A check looks for one fault, and goes on where it does not find it. -/
theorem reports_cons (hfault : fault → r = .error err) (hrest : ¬ fault → Reports rest r) :
    Reports ((fault, err) :: rest) r := by
  by_cases hf : fault
  · rw [hfault hf]
    exact .here hf
  · have h := hrest hf
    cases r with
    | error err' => exact .later hf h
    | ok u => exact List.forall_mem_cons.mpr ⟨hf, h⟩

theorem Reports.eq_ok_iff (h : Reports faults r) : r = .ok () ↔ ∀ f ∈ faults, ¬ f.1 := by
  cases r with
  | error err =>
    refine ⟨fun he => (by cases he), fun hn => ?_⟩
    obtain ⟨f, hm, hfault⟩ := FirstOf.exists_fault h
    exact absurd hfault (hn f hm)
  | ok u => exact ⟨fun _ => h, fun _ => rfl⟩

theorem Reports.eq_error_iff (h : Reports faults r) : r = .error err ↔ FirstOf faults err := by
  cases r with
  | error err' =>
    refine ⟨fun he => ?_, fun hf => by rw [h.unique hf]⟩
    cases he
    exact h
  | ok u =>
    refine ⟨fun he => (by cases he), fun hf => ?_⟩
    obtain ⟨f, hm, hfault⟩ := hf.exists_fault
    exact absurd hfault (h f hm)

end Reports

/-! ## 3. What may be wrong with an append -/

/-- The faults of an append of `c` to `p`, in the order in which they are looked for. -/
def appendFaults (d : Document) (p c : NodeId) : List (Prop × DomError) := [
  (¬ d.contains p = true, .notFound p),
  (¬ d.contains c = true, .notFound c),
  (∃ s, d.text? p = some s, .hierarchyFault .textParent),
  (c = .root, .hierarchyFault .documentChild),
  (c = p ∨ d.Under p c, .hierarchyFault .containment),
  (p = .root ∧ ∃ s, d.text? c = some s, .hierarchyFault .textUnderDocument),
  (p = .root ∧ ∃ x ∈ d.children p, (∃ e, d.element? x = some e) ∧ x ≠ c,
    .hierarchyFault .secondElement)]

/-- What a check of the shape comes to. -/
def refused : Option HierarchyFault → Except DomError Unit
  | some fault => .error (.hierarchyFault fault)
  | none => .ok ()

theorem checkAppend_eq_refused {kp kc : NodeContent} (hp : d.content? p = some kp)
    (hc : d.content? c = some kc) : d.checkAppend p c = refused (d.hierarchyFault? p c kp kc) := by
  obtain ⟨np, hnp, rfl⟩ := Option.map_eq_some_iff.mp hp
  obtain ⟨nc, hnc, rfl⟩ := Option.map_eq_some_iff.mp hc
  unfold checkAppend
  simp only [hnp, hnc]
  cases d.hierarchyFault? p c np.content nc.content <;> rfl

/-- One rule of the shape after the other. -/
theorem reports_refused {cond fault : Prop} [Decidable cond] {f : HierarchyFault}
    {o : Option HierarchyFault} {rest : List (Prop × DomError)} (hcond : cond ↔ fault)
    (hrest : ¬ fault → Reports rest (refused o)) :
    Reports ((fault, .hierarchyFault f) :: rest) (refused (if cond then some f else o)) := by
  refine reports_cons (fun hf => ?_) fun hf => ?_
  · rw [if_pos (hcond.mpr hf)]
    rfl
  · rw [if_neg (mt hcond.mp hf)]
    exact hrest hf

theorem isText_iff {k : NodeContent} (hk : d.content? x = some k) :
    k.isText = true ↔ ∃ s, d.text? x = some s := by
  simp only [text?_eq_some_iff, hk, Option.some.injEq]
  cases k <;> simp [NodeContent.isText]

theorem WellFormed.isDocument_iff (h : WellFormed d) {k : NodeContent} (hk : d.content? x = some k) :
    k.isDocument = true ↔ x = .root := by
  refine ⟨fun hd => h.rootOnly x (by rw [hk, eq_document_of_isDocument hd]), fun hx => ?_⟩
  rw [hx, h.rootContent] at hk
  cases hk
  rfl

/-- **The check of an append reports its faults in order.** -/
theorem WellFormed.reports_checkAppend (h : WellFormed d) (p c : NodeId) :
    Reports (d.appendFaults p c) (d.checkAppend p c) := by
  refine reports_cons (fun hp => ?_) fun hp => reports_cons (fun hc => ?_) fun hc => ?_
  · rw [checkAppend, get?_of_not_contains hp]
  · obtain ⟨np, hnp⟩ := contains_iff.mp (not_not.mp hp)
    rw [checkAppend, hnp]
    simp only [get?_of_not_contains hc]
  · have hp := not_not.mp hp
    obtain ⟨kp, hkp⟩ := exists_content? hp
    obtain ⟨kc, hkc⟩ := exists_content? (not_not.mp hc)
    have hanc : d.isInclusiveAncestor c p = true ↔ c = p ∨ d.Under p c := by
      rw [isInclusiveAncestor_iff, h.mem_path_iff hp]
    have hroot := h.isDocument_iff hkp
    have hother : (d.children p).any (fun id => (d.element? id).isSome && id ≠ c) = true ↔
        ∃ x ∈ d.children p, (∃ e, d.element? x = some e) ∧ x ≠ c := by
      simp only [List.any_eq_true, Bool.and_eq_true, Option.isSome_iff_exists, decide_eq_true_eq]
    rw [checkAppend_eq_refused hkp hkc]
    exact reports_refused (isText_iff hkp) fun _ => reports_refused (h.isDocument_iff hkc) fun _ =>
      reports_refused hanc fun _ => reports_refused (and_congr hroot (isText_iff hkc)) fun _ =>
      reports_refused (and_congr hroot hother) fun _ => reports_nil

/-- What is there, no text and not the document, is an element. -/
theorem WellFormed.exists_element_iff (h : WellFormed d) (hx : d.contains x = true) (hr : x ≠ .root) :
    (∃ e, d.element? x = some e) ↔ ¬ ∃ s, d.text? x = some s := by
  obtain ⟨k, hk⟩ := exists_content? hx
  simp only [element?_eq_some_iff, text?_eq_some_iff, hk, Option.some.injEq]
  cases k with
  | document => exact absurd (h.rootOnly x hk) hr
  | text s => simp
  | element e => simp

/-- **When an append is accepted**, told by what the nodes are and where they hang. -/
theorem WellFormed.mayAppend_iff (h : WellFormed d) : d.MayAppend p c ↔ d.contains p = true ∧
    d.contains c = true ∧ d.text? p = none ∧ c ≠ .root ∧ c ≠ p ∧ ¬ d.Under p c ∧
    (p = .root → (∃ e, d.element? c = some e) ∧
      ∀ x ∈ d.children p, (∃ e, d.element? x = some e) → x = c) := by
  rw [← checkAppend_eq_ok_iff, (h.reports_checkAppend p c).eq_ok_iff]
  simp only [appendFaults, List.forall_mem_cons, not_not, not_or, Option.eq_none_iff_forall_ne_some,
    not_exists, and_assoc]
  refine and_congr_right fun _ => and_congr_right fun hc => and_congr_right fun _ =>
    and_congr_right fun hr => and_congr_right fun _ => and_congr_right fun _ => ?_
  rw [h.exists_element_iff hc hr]
  constructor
  · rintro ⟨htext, hother, _⟩ hroot
    refine ⟨fun ht => htext ⟨hroot, ht⟩, fun x hx he => not_not.mp fun hne => ?_⟩
    exact hother ⟨hroot, x, hx, he, hne⟩
  · intro hdoc
    exact ⟨fun ⟨hroot, ht⟩ => (hdoc hroot).1 ht,
      fun ⟨hroot, x, hx, he, hne⟩ => hne ((hdoc hroot).2 x hx he), List.forall_mem_nil _⟩

/-! ## 4. The nodes that an append looks up -/

/-- The nodes that an append reads or writes: both its own, the old parent of `c` and the siblings there,
    and the last child of `p` once `c` has left its place. -/
inductive Touched (d : Document) (p c : NodeId) : NodeId → Prop where
  | parent : Touched d p c p
  | child : Touched d p c c
  | oldParent {x : NodeId} (h : d.parent? c = some x) : Touched d p c x
  | oldPrev {x : NodeId} (h : d.prev? c = some x) : Touched d p c x
  | oldNext {x : NodeId} (h : d.next? c = some x) : Touched d p c x
  | last {x : NodeId} (h : (d.detached c).last? p = some x) : Touched d p c x

/-- **An append looks up only nodes that are there.** -/
theorem WellFormed.contains_touched (h : WellFormed d) (hp : d.contains p = true)
    (hc : d.contains c = true) (hx : d.Touched p c x) : d.contains x = true := by
  cases hx with
  | parent => exact hp
  | child => exact hc
  | oldParent hx => exact h.inside (.inl hx)
  | oldPrev hx => exact h.inside (.inr (.inr (.inr (.inl hx))))
  | oldNext hx => exact h.inside (.inr (.inr (.inr (.inr hx))))
  | last hx =>
    rw [← contains_detached d c x]
    exact (h.detached c).inside (.inr (.inr (.inl hx)))

theorem get?_detached_of_ne (hc : x ≠ c) (hp : d.parent? c ≠ some x) (hprev : d.prev? c ≠ some x)
    (hnext : d.next? c ≠ some x) : (d.detached c).get? x = d.get? x := by
  cases hpar : d.parent? c with
  | none => rw [detached_of_no_parent hpar]
  | some q =>
    obtain ⟨node, hnode, hq⟩ := Option.bind_eq_some_iff.mp hpar
    have hxq : x ≠ q := fun e => hp (by rw [hpar, e])
    have hxprev : node.prevSibling ≠ some x := by simpa [prev?, hnode] using hprev
    have hxnext : node.nextSibling ≠ some x := by simpa [next?, hnode] using hnext
    rw [detached_of_parent? hnode hq, get?_unlink]
    have hid : Detached c node q x = id := funext fun n => by simp [Detached, hc, hxq, hxprev, hxnext]
    rw [hid, Option.map_id_apply]

/-- **The other nodes stay as they are.** -/
theorem get?_moved_of_not_touched (hx : ¬ d.Touched p c x) : (d.moved p c).get? x = d.get? x := by
  have hxp : x ≠ p := fun e => hx (e ▸ .parent)
  have hxc : x ≠ c := fun e => hx (e ▸ .child)
  have hlast : (d.detached c).last? p ≠ some x := fun e => hx (.last e)
  have hid : Linked p c ((d.detached c).last? p) x = id := funext fun n => by
    simp [Linked, hxp, hxc, hlast]
  rw [moved, get?_link, hid, Option.map_id_apply]
  exact get?_detached_of_ne hxc (fun e => hx (.oldParent e)) (fun e => hx (.oldPrev e))
    fun e => hx (.oldNext e)

/-! ## 5. The result of an append -/

/-- Only a node that is not there cannot leave its place. -/
theorem fst_run_detach (hc : d.contains c = true) : ((detach c).run d).1 = .ok () := by
  obtain ⟨node, hnode⟩ := contains_iff.mp hc
  rw [run_detach, hnode]
  cases hp : node.parent <;> simp only [hp]

/-- **The result of an append in a reachable document.** It succeeds exactly if both nodes are there, the
    parent is no text, the child is not the document, nor the parent or a node that the parent hangs under,
    and, where the parent is the document, the child is an element and no other element is there. Of
    several faults the first is reported. Once the check has passed, nothing goes wrong any more: the child
    leaves its place, and all nodes that are looked up are there. -/
theorem result_append (calls : List Action) (p c : NodeId) :
    let d := fresh.after calls
    let result := ((append p c).run d).1
    (result = .ok c ↔ d.contains p = true ∧ d.contains c = true ∧ d.text? p = none ∧ c ≠ .root ∧
      c ≠ p ∧ ¬ d.Under p c ∧ (p = .root → (∃ e, d.element? c = some e) ∧
        ∀ x ∈ d.children p, (∃ e, d.element? x = some e) → x = c)) ∧
    (∀ id, result = .ok id → id = c) ∧
    (∀ err, result = .error err ↔ FirstOf (d.appendFaults p c) err) ∧
    (d.checkAppend p c = .ok () → result = .ok c ∧ ((detach c).run d).1 = .ok () ∧
      (∀ x, d.Touched p c x → d.contains x = true) ∧
      ∀ x, ¬ d.Touched p c x → ((append p c).run d).2.get? x = d.get? x) := by
  intro d result
  have h : WellFormed d := wellFormed_after calls
  have hres : result = (d.checkAppend p c).map fun _ => c := fst_run_append d p c
  have hrep := h.reports_checkAppend p c
  have hok : result = .ok c ↔ d.checkAppend p c = .ok () := by
    rw [hres]
    cases d.checkAppend p c <;> simp [Except.map]
  refine ⟨by rw [hok, checkAppend_eq_ok_iff, h.mayAppend_iff], fun id hid => ?_, fun err => ?_,
    fun hcheck => ?_⟩
  · rw [hres] at hid
    cases hc : d.checkAppend p c with
    | error err => rw [hc] at hid; cases hid
    | ok u => rw [hc] at hid; cases hid; rfl
  · rw [← hrep.eq_error_iff, hres]
    cases d.checkAppend p c <;> simp [Except.map]
  · have hm : d.MayAppend p c := checkAppend_eq_ok_iff.mp hcheck
    refine ⟨hok.mpr hcheck, fst_run_detach hm.contains_child,
      fun x => h.contains_touched hm.contains_parent hm.contains_child, fun x hx => ?_⟩
    rw [run_append_of_mayAppend hm]
    exact get?_moved_of_not_touched hx

/-- The document is refused under a text for the text, and under itself for being the document. -/
example : ((append ⟨1⟩ .root).run (fresh.after [.createText "x"])).1 =
      .error (.hierarchyFault .textParent) ∧
    ((append .root .root).run fresh).1 = .error (.hierarchyFault .documentChild) := by
  decide +kernel

end DomBuilder.Document
