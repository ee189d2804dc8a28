import DomBuilder.Proofs.Move
import DomBuilder.Proofs.Sameness

/-!
# Appending and detaching the same node

An append takes its node out of the old place first, so where the node hung before cannot matter. This file
fixes that for the documents that callers can reach:

* `detached_detached`, `detached_moved`, `moved_detached`, `moved_moved`: of two changes of the place of one
  node the last one alone counts, as equations between whole documents;
* `WellFormed.checkAppend_detached`: the check of an append gives one answer whether its node hangs somewhere
  or not. Its faults are told by ancestors and children, and none of them looks above the node;
* `append_absorbs_detach`: the same of the operations themselves, with their results.
-/

namespace DomBuilder.Document

variable {d : Document} {p c x : NodeId}

/-! ## 1. Two changes of one place -/

theorem detached_detached (d : Document) (c : NodeId) : (d.detached c).detached c = d.detached c :=
  detached_of_no_parent (by rw [parent?_detached, if_pos rfl])

theorem moved_detached (d : Document) (p c : NodeId) : (d.detached c).moved p c = d.moved p c := by
  rw [moved, moved, detached_detached]

/-- **Out of a new place, a document is what it was without the node.** -/
theorem WellFormed.detached_moved (h : WellFormed d) (hm : d.MayAppend p c) :
    (d.moved p c).detached c = d.detached c := by
  have hbeyond : SameBeyond (d.detached c) ((d.moved p c).detached c) := fun i hi =>
    (sameBeyond_detached (d.moved p c) c i hi).trans (sameBeyond_link (d.detached c) p c i hi)
  refine (h.detached c).eq_of_children ((h.moved hm).detached c) hbeyond (by simp) (by simp) fun q => ?_
  have hc : c ∉ (d.children q).erase c := fun hc => ((h.arranged.nodup q).mem_erase_iff.mp hc).1 rfl
  rw [(h.moved hm).children_detached, h.children_moved hm, h.children_detached]
  by_cases hq : q = p
  · rw [if_pos hq, List.erase_append_right _ hc, List.erase_cons_head, List.append_nil]
  · rw [if_neg hq, List.erase_of_not_mem hc]

theorem WellFormed.moved_moved (h : WellFormed d) (hm : d.MayAppend p c) :
    (d.moved p c).moved p c = d.moved p c := by
  rw [Document.moved, h.detached_moved hm, Document.moved]

/-! ## 2. The check without the old place -/

/-- The way up to a node does not go on from it, so it is there also when the node has no place. -/
theorem reaches_detached_iff (d : Document) (c x : NodeId) :
    Relation.ReflTransGen (fun y z => (d.detached c).parent? y = some z) x c ↔
      Relation.ReflTransGen (fun y z => d.parent? y = some z) x c := by
  constructor
  · refine fun h => Relation.ReflTransGen.mono (fun y z hy => ?_) x c h
    rw [parent?_detached] at hy
    by_cases hyc : y = c
    · rw [if_pos hyc] at hy
      cases hy
    · rwa [if_neg hyc] at hy
  · intro h
    induction h using Relation.ReflTransGen.head_induction_on with
    | refl => exact .refl
    | @head y z hy _ ih =>
      by_cases hyc : y = c
      · rw [hyc]
      · exact .head (by rwa [parent?_detached, if_neg hyc]) ih

theorem under_detached_iff (d : Document) (p c : NodeId) :
    c = p ∨ (d.detached c).Under p c ↔ c = p ∨ d.Under p c := by
  rw [Under, Under, ← Relation.reflTransGen_iff_eq_or_transGen,
    ← Relation.reflTransGen_iff_eq_or_transGen]
  exact reaches_detached_iff d c p

theorem WellFormed.appendFaults_detached (h : WellFormed d) (p c : NodeId) :
    (d.detached c).appendFaults p c = d.appendFaults p c := by
  have hcontent : ∀ x, (d.detached c).content? x = d.content? x := content?_detached d c
  have htext : ∀ x, (d.detached c).text? x = d.text? x := fun x => by
    rw [text?_eq_content?, hcontent, text?_eq_content?]
  have helement : ∀ x, (d.detached c).element? x = d.element? x := fun x => by
    rw [element?_eq_content?, hcontent, element?_eq_content?]
  have hother : (∃ x ∈ (d.detached c).children p, (∃ e, d.element? x = some e) ∧ x ≠ c) ↔
      ∃ x ∈ d.children p, (∃ e, d.element? x = some e) ∧ x ≠ c := by
    refine exists_congr fun x => and_congr_left fun hx => ?_
    rw [h.children_detached, List.mem_erase_of_ne hx.2]
  simp only [appendFaults, contains_detached, htext, helement, under_detached_iff, hother]

/-- A check has one answer for one list of faults. -/
theorem Reports.unique {faults : List (Prop × DomError)} {r r' : Except DomError Unit}
    (h : Reports faults r) (h' : Reports faults r') : r = r' := by
  cases r with
  | ok u => exact (h'.eq_ok_iff.mpr (h.eq_ok_iff.mp rfl)).symm
  | error err => exact (h'.eq_error_iff.mpr (h.eq_error_iff.mp rfl)).symm

/-- **Where a node hangs makes no difference to the check of its append.** -/
theorem WellFormed.checkAppend_detached (h : WellFormed d) (p c : NodeId) :
    (d.detached c).checkAppend p c = d.checkAppend p c := by
  have hr := (h.detached c).reports_checkAppend p c
  rw [h.appendFaults_detached] at hr
  exact hr.unique (h.reports_checkAppend p c)

/-- What may be appended may be appended again. -/
theorem WellFormed.mayAppend_moved (h : WellFormed d) (hm : d.MayAppend p c) :
    (d.moved p c).MayAppend p c := by
  have hw := h.moved hm
  rw [← checkAppend_eq_ok_iff, ← hw.checkAppend_detached, h.detached_moved hm, h.checkAppend_detached]
  exact checkAppend_eq_ok_iff.mpr hm

/-! ## 3. The operations -/

theorem run_detach_of_contains (hc : d.contains c = true) :
    (detach c).run d = (.ok (), d.detached c) :=
  Prod.ext (fst_run_detach hc) (snd_run_detach d c)

/-- To detach a node once more gives the same result and does nothing. -/
theorem run_detach_detached (d : Document) (c : NodeId) :
    (detach c).run (d.detached c) = (((detach c).run d).1, d.detached c) := by
  refine Prod.ext ?_ (by rw [snd_run_detach, detached_detached])
  by_cases hc : d.contains c = true
  · rw [fst_run_detach hc, fst_run_detach (by rwa [contains_detached])]
  · have hd : d.detached c = d := by rw [detached, get?_of_not_contains hc]
    rw [hd]

/-- **An append absorbs a detach of its node.** In every document that calls can reach, an append has the
    same result, or the same error, whether its node was detached before or not, and where it succeeds it
    leaves the same document. After it, the same append succeeds again and changes nothing, and detaching the
    node leaves what detaching it at first would have left. Detaching it twice is detaching it once. -/
theorem append_absorbs_detach (calls : List Action) (p c : NodeId) :
    let d := fresh.after calls
    let d₀ := ((detach c).run d).2
    ((append p c).run d₀).1 = ((append p c).run d).1 ∧
      (∀ id d', (append p c).run d = (.ok id, d') → (append p c).run d₀ = (.ok id, d') ∧
        (append p c).run d' = (.ok id, d') ∧ (detach c).run d' = (.ok (), d₀)) ∧
      (detach c).run d₀ = (((detach c).run d).1, d₀) := by
  intro d d₀
  have h : WellFormed d := wellFormed_after calls
  have hd₀ : d₀ = d.detached c := snd_run_detach d c
  rw [hd₀]
  refine ⟨by rw [fst_run_append, fst_run_append, h.checkAppend_detached], fun id d' hrun => ?_,
    run_detach_detached d c⟩
  obtain ⟨hm, rfl, rfl⟩ := eq_moved_of_run_append hrun
  have hm₀ : (d.detached id).MayAppend p id := by
    rw [← checkAppend_eq_ok_iff, h.checkAppend_detached]
    exact checkAppend_eq_ok_iff.mpr hm
  have hid : (d.moved p id).contains id = true := (h.mayAppend_moved hm).contains_child
  exact ⟨by rw [run_append_of_mayAppend hm₀, moved_detached],
    by rw [run_append_of_mayAppend (h.mayAppend_moved hm), h.moved_moved hm],
    by rw [run_detach_of_contains hid, h.detached_moved hm]⟩

/-- The middle one of three children, which goes behind the others; and a node that may not go under its own
    child, from its place and without it. -/
theorem append_absorbs_detach_middle :
    let calls : List Action := [.createElement "ul", .createElement "li", .createElement "li",
      .createElement "li", .append ⟨1⟩ ⟨2⟩, .append ⟨1⟩ ⟨3⟩, .append ⟨1⟩ ⟨4⟩, .append .root ⟨1⟩]
    let d := fresh.after calls
    let d₀ := ((detach ⟨3⟩).run d).2
    let d' := ((append ⟨1⟩ ⟨3⟩).run d).2
    d'.children ⟨1⟩ = [⟨2⟩, ⟨4⟩, ⟨3⟩] ∧ (append ⟨1⟩ ⟨3⟩).run d₀ = (.ok ⟨3⟩, d') ∧
      (append ⟨1⟩ ⟨3⟩).run d' = (.ok ⟨3⟩, d') ∧ (detach ⟨3⟩).run d' = (.ok (), d₀) ∧
      ((append ⟨3⟩ ⟨1⟩).run ((detach ⟨1⟩).run d).2).1 = .error (.hierarchyFault .containment) := by
  intro calls d d₀ d'
  have hrun : (append ⟨1⟩ ⟨3⟩).run d = (.ok ⟨3⟩, d') := Prod.ext (by decide +kernel) rfl
  obtain ⟨h₀, h₁, h₂⟩ := (append_absorbs_detach calls ⟨1⟩ ⟨3⟩).2.1 ⟨3⟩ d' hrun
  exact ⟨by decide +kernel, h₀, h₁, h₂,
    (append_absorbs_detach calls ⟨3⟩ ⟨1⟩).1.trans (by decide +kernel)⟩

end DomBuilder.Document
