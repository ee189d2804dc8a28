import DomBuilder.Proofs.Reachable

/-!
# Calls that fail

Nothing undoes what an operation did before it failed. This file fixes the operations on a document that
need no undoing, since they look first and write only what cannot fail any more:

* `Operation.Atomic`: where the operation fails, the state is as it was;
* `ReadOnly`, `Unfailing`: the two halves of such an operation. What only reads may stand before an atomic
  rest (`ReadOnly.bind_atomic`), and what never fails is atomic (`Unfailing.atomic`);
* `atomic_append`: here the rest has a step in its middle that may fail, but not once the check has passed;
* `atomic_calls`: every call is atomic but a build. A build is up to its element, and what it has put into
  the element stays.
-/

namespace DomBuilder

namespace Operation

variable {σ α β : Type} {x : Operation σ α} {f : α → Operation σ β}

/-! ## 1. Looking first -/

/-- Where `x` fails, it leaves the state as it was. -/
def Atomic (x : Operation σ α) : Prop := ∀ s err, (x.run s).1 = .error err → (x.run s).2 = s

def ReadOnly (x : Operation σ α) : Prop := x.Respects Eq

def Unfailing (x : Operation σ α) : Prop := ∀ s err, (x.run s).1 ≠ .error err

theorem ReadOnly.atomic (h : x.ReadOnly) : x.Atomic := fun s _ _ => (h s).symm

theorem Unfailing.atomic (h : x.Unfailing) : x.Atomic := fun s err herr => absurd herr (h s err)

/-- What only reads may fail before anything is written. -/
theorem ReadOnly.bind_atomic (hx : x.ReadOnly) (hf : ∀ a, (f a).Atomic) : (x >>= f).Atomic := by
  intro s err herr
  obtain ⟨r, s', hrun⟩ : ∃ r s', x.run s = (r, s') := ⟨_, _, rfl⟩
  obtain rfl : s = s' := by rw [hx s, hrun]
  cases r with
  | error e => rw [run_bind_of_error hrun]
  | ok a =>
    rw [run_bind_of_ok hrun] at herr ⊢
    exact hf a _ err herr

theorem Unfailing.bind (hx : x.Unfailing) (hf : ∀ a, (f a).Unfailing) : (x >>= f).Unfailing := by
  intro s err
  obtain ⟨r, s', hrun⟩ : ∃ r s', x.run s = (r, s') := ⟨_, _, rfl⟩
  cases r with
  | error e => exact absurd (congrArg Prod.fst hrun) (hx s e)
  | ok a =>
    rw [run_bind_of_ok hrun]
    exact hf a s' err

theorem readOnly_read : (read : Operation σ σ).ReadOnly := fun _ => rfl

theorem readOnly_ofExcept (r : Except DomError α) : (ofExcept r : Operation σ α).ReadOnly := fun _ => rfl

theorem readOnly_fail (err : DomError) : (fail err : Operation σ α).ReadOnly := fun _ => rfl

theorem unfailing_pure (a : α) : (pure a : Operation σ α).Unfailing := fun _ _ h => (by cases h)

theorem unfailing_modify (g : σ → σ) : (modify g).Unfailing := fun _ _ h => (by cases h)

theorem unfailing_step (g : σ → α × σ) : (step g).Unfailing := fun _ _ h => (by cases h)

end Operation

namespace Document

open Operation

/-! ## 2. Creations -/

theorem atomic_createElement (name : String) : (createElement name).Atomic := by
  unfold createElement intern push
  exact (readOnly_ofExcept _).bind_atomic fun _ =>
    ((unfailing_step _).bind fun _ => (unfailing_step _).bind fun _ => unfailing_step _).atomic

theorem unfailing_internOption (o : Option String) : (internOption o).Unfailing := by
  cases o with
  | none => exact unfailing_pure none
  | some s => exact (unfailing_step _).bind fun _ => unfailing_pure _

theorem atomic_createElementNs (nsUri : Option String) (name : String) :
    (createElementNs nsUri name).Atomic := by
  unfold createElementNs intern push
  exact (readOnly_ofExcept _).bind_atomic fun _ =>
    ((unfailing_internOption _).bind fun _ => (unfailing_internOption _).bind fun _ =>
      (unfailing_step _).bind fun _ => unfailing_step _).atomic

/-- The element of a build is made by one call or the other. -/
theorem atomic_creation (c : Config) (tag : String) : (BuildM.createElement c tag).Atomic := by
  rw [BuildM.createElement_eq]
  cases c.elementNamespace with
  | none => exact atomic_createElement tag
  | some ns => exact atomic_createElementNs _ tag

/-! ## 3. Places -/

theorem atomic_detach (id : NodeId) : (detach id).Atomic := by
  unfold detach
  refine readOnly_read.bind_atomic fun d => ?_
  cases d.get? id with
  | none => exact (readOnly_fail _).atomic
  | some node =>
    simp only
    cases node.parent with
    | none => exact (unfailing_pure ()).atomic
    | some parent => exact (unfailing_modify _).atomic

/-- An append whose check has passed does not fail, and one that is refused has done nothing yet. -/
theorem atomic_append (p c : NodeId) : (append p c).Atomic := by
  intro d err herr
  by_cases hm : d.MayAppend p c
  · rw [run_append_of_mayAppend hm] at herr
    cases herr
  · exact snd_run_append hm

/-! ## 4. Attributes -/

theorem atomic_setAttribute (id : NodeId) (name value : String) : (setAttribute id name value).Atomic := by
  unfold setAttribute
  exact (readOnly_ofExcept _).bind_atomic fun _ => readOnly_read.bind_atomic fun _ =>
    (readOnly_ofExcept _).bind_atomic fun _ => (unfailing_modify _).atomic

theorem atomic_setAttributeNs (id : NodeId) (nsUri : Option String) (name value : String) :
    (setAttributeNs id nsUri name value).Atomic := by
  unfold setAttributeNs
  exact (readOnly_ofExcept _).bind_atomic fun _ => readOnly_read.bind_atomic fun _ =>
    (readOnly_ofExcept _).bind_atomic fun _ => (unfailing_modify _).atomic

/-! ## 5. All calls -/

/-- A build whose element is refused ends there, with the builder as it was. -/
theorem build_of_refused {b : Builder} {tag : String} {err : DomError}
    (h : ((BuildM.createElement b.config tag).run b.document).1 = .error err) (content : Argument) :
    (b.build tag content).builder = b ∧ (b.lent = false → (b.build tag content).result = .error err) := by
  obtain ⟨d, c, lent⟩ := b
  cases lent with
  | true => exact ⟨rfl, fun hb => (by cases hb)⟩
  | false =>
    have hrun : (BuildM.createElement c tag).run d = (.error err, d) :=
      Prod.ext h (atomic_creation c tag d err h)
    have hbuild := Builder.build_eq d c tag content
    rw [run_createWith_of_error hrun] at hbuild
    obtain ⟨hres, hdoc⟩ := Prod.mk.inj hbuild
    exact ⟨congrArg (fun u => Builder.mk u c false) hdoc, fun _ => hres⟩

/-- **A call that fails changes nothing**: no node, no link, no attribute and no symbol, whatever the
    document. Of a build this holds where its element is refused. -/
theorem atomic_calls :
    (∀ name, (createElement name).Atomic) ∧ (∀ nsUri name, (createElementNs nsUri name).Atomic) ∧
      (∀ p c, (append p c).Atomic) ∧ (∀ id, (detach id).Atomic) ∧
      (∀ id name value, (setAttribute id name value).Atomic) ∧
      (∀ id nsUri name value, (setAttributeNs id nsUri name value).Atomic) ∧
      ∀ (b : Builder) tag err, ((BuildM.createElement b.config tag).run b.document).1 = .error err →
        ∀ content, (b.build tag content).builder = b ∧
          (b.lent = false → (b.build tag content).result = .error err) :=
  ⟨atomic_createElement, atomic_createElementNs, atomic_append, atomic_detach, atomic_setAttribute,
    atomic_setAttributeNs, fun _ _ _ h content => build_of_refused h content⟩

/-- A local name that is none, a node under its own child, an attribute of a text, a prefix without a
    namespace, and a tag whose prefix is bound to another namespace: each is found before anything is
    written. -/
theorem atomic_calls_refused :
    let d := fresh.after [.createElement "div", .createElement "p", .createText "x", .append ⟨1⟩ ⟨2⟩]
    let b : Builder := { document := d, config := Config.default.withNamespace "svg" }
    (createElementNs (some "u") "new:1").run d = (.error (.invalidCharacter "1"), d) ∧
      (append ⟨2⟩ ⟨1⟩).run d = (.error (.hierarchyFault .containment), d) ∧
      (setAttribute ⟨3⟩ "new" "y").run d = (.error (.notAnElement ⟨3⟩), d) ∧
      (setAttributeNs ⟨1⟩ none "new:name" "y").run d =
        (.error (.namespaceFault (.prefixUnbound "new:name")), d) ∧
      (b.build "xml:new" (.text "y")).builder = b := by
  intro d b
  obtain ⟨_, hns, happend, _, hset, hsetNs, hbuild⟩ := atomic_calls
  have hrun : ∀ {α : Type} {x : DomM α} {err : DomError}, x.Atomic → (x.run d).1 = .error err →
      x.run d = (.error err, d) := fun hx herr => Prod.ext herr (hx d _ herr)
  exact ⟨hrun (hns _ _) (by decide +kernel), hrun (happend _ _) (by decide +kernel),
    hrun (hset _ _ _) (by decide +kernel), hrun (hsetNs _ _ _ _) (by decide +kernel),
    (hbuild b "xml:new" (.namespaceFault .xmlPrefix) (by decide +kernel) (.text "y")).1⟩

end Document

end DomBuilder
