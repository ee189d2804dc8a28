import DomBuilder.Document.Create
import DomBuilder.Document.Write
import DomBuilder.Proofs.Append
import DomBuilder.Proofs.Symbols
import Mathlib.Logic.Relation

/-!
# What one step can do to a document

Every operation on a document, however it ends, changes it by a few kinds of steps. This file fixes
the steps once, so that what all of them keep is kept by every run:

* `Naming`: where the name of a new element comes from; `Element.Named`: its symbols are those of the
  name's texts;
* `Edit raw d d'`: one step from `d` to `d'`. Writes that skip the checks are steps only if `raw` is
  granted;
* `Edits raw d d'`: any number of steps; `Operation.Respects R`: the state after a run is related by `R`
  to the state before it, whatever its result;
* `Gives x d r`: a creation adds the element that `r` names, or fails with the error in `r` and leaves no
  trace (`gives_createElement`, `gives_createElementNs`);
* each checked operation is such a run (`edits_createElement` and its like).
-/

namespace DomBuilder

/-! ## 1. Operations and relations -/

/-- However `x` ends, the state after it is related to the one before it. -/
def Operation.Respects {σ α : Type} (R : σ → σ → Prop) (x : Operation σ α) : Prop :=
  ∀ s, R s (x.run s).2

namespace Operation

variable {σ α β : Type} {R : σ → σ → Prop}

theorem respects_pure (hr : ∀ s, R s s) (a : α) : Respects R (pure a : Operation σ α) := hr

theorem respects_bind (ht : ∀ s t u, R s t → R t u → R s u) {x : Operation σ α}
    {f : α → Operation σ β} (hx : Respects R x) (hf : ∀ a, Respects R (f a)) :
    Respects R (x >>= f) := by
  intro s
  have h := hx s
  rw [run_bind]
  rcases hr : x.run s with ⟨e | a, s'⟩
  · rw [hr] at h
    exact h
  · rw [hr] at h
    exact ht _ _ _ h (hf a s')

theorem respects_forM (hr : ∀ s, R s s) (ht : ∀ s t u, R s t → R t u → R s u) {γ : Type}
    {f : γ → Operation σ PUnit} {l : List γ} (hf : ∀ a ∈ l, Respects R (f a)) :
    Respects R (l.forM f) := by
  induction l with
  | nil => exact respects_pure hr _
  | cons a l ih =>
    show Respects R (f a >>= fun _ => l.forM f)
    exact respects_bind ht (hf a List.mem_cons_self) fun _ =>
      ih fun b hb => hf b (List.mem_cons_of_mem _ hb)

end Operation

/-! ## 2. New elements -/

/-- The names that new elements get: a valid name in lowercase in the HTML namespace, or a name taken
    apart for its namespace. -/
inductive Naming : QualifiedName → Prop where
  | html {name : String} (h : Name.isValid name = true) :
      Naming { nsUri := some Namespace.html, nsPrefix := none, localName := name.toLower }
  | extracted {nsUri : Option String} {name : String} {q : QualifiedName}
      (h : QualifiedName.extract nsUri name = .ok q) : Naming q

/-- The name that an element of HTML gets, or why it gets none. -/
def QualifiedName.forHtml (name : String) : Except DomError QualifiedName :=
  (Name.check name).map fun _ => ⟨some Namespace.html, none, name.toLower⟩

theorem QualifiedName.forHtml_eq_ok {name : String} {q : QualifiedName} (h : forHtml name = .ok q) :
    Name.isValid name = true ∧ q = ⟨some Namespace.html, none, name.toLower⟩ := by
  unfold forHtml at h
  cases hn : Name.check name with
  | error e => rw [hn] at h; cases h
  | ok u =>
    rw [hn] at h
    cases h
    exact ⟨(Name.check_eq_ok_iff name).mp hn, rfl⟩

theorem naming_forHtml {name : String} {q : QualifiedName} (h : QualifiedName.forHtml name = .ok q) :
    Naming q := by
  obtain ⟨hv, rfl⟩ := QualifiedName.forHtml_eq_ok h
  exact .html hv

/-- The symbols of `e` are those that `t` has for the texts of `q`. -/
structure Element.Named (t : SymbolTable) (q : QualifiedName) (e : Element) : Prop where
  nsUri : q.nsUri.map t.lookup = e.nsUri.map some
  nsPrefix : q.nsPrefix.map t.lookup = e.nsPrefix.map some
  localName : t.lookup q.localName = some e.localName

namespace Document

/-- The document with a node more, and its table grown to `t`. -/
def added (d : Document) (content : NodeContent) (t : SymbolTable) : Document :=
  { nodes := d.nodes.push { content }, symbols := t }

/-! ## 3. Steps -/

/-- One step from `d` to `d'`. -/
inductive Edit (raw : Prop) (d : Document) : Document → Prop where
  | element {q : QualifiedName} {e : Element} {t : SymbolTable} (hq : Naming q)
      (ht : d.symbols.Grown t) (he : e.Named t q) (hl : e.attributes = {}) :
      Edit raw d (d.added (.element e) t)
  | text (s : String) : Edit raw d (d.added (.text s) d.symbols)
  | moved {p c : NodeId} (h : d.MayAppend p c) : Edit raw d (d.moved p c)
  | detached (c : NodeId) : Edit raw d (d.detached c)
  | set {id : NodeId} {e : Element} {name : String} (he : d.element? id = some e)
      (hn : Name.isValid name = true) (value : String) : Edit raw d
        (d.putAttributes id e (e.attributes.set (d.attributeName e name) value).2)
  | setNs {id : NodeId} {e : Element} {nsUri : Option String} {name : String}
      {q : QualifiedName} (he : d.element? id = some e)
      (hq : QualifiedName.extract nsUri name = .ok q) (value : String) : Edit raw d
        (d.putAttributes id e (e.attributes.setNs
          { nsUri := q.nsUri, nsPrefix := q.nsPrefix, localName := q.localName, value }).2)
  | overwrite {id : NodeId} {e : Element} (hraw : raw) (he : d.element? id = some e)
      (l : AttributeList) : Edit raw d (d.putAttributes id e l)
  | replaceText {id : NodeId} {old : String} (h : d.text? id = some old) (s : String) :
      Edit raw d (d.update id fun n => { n with content := .text s })

/-- Any number of steps. -/
abbrev Edits (raw : Prop) : Document → Document → Prop := Relation.ReflTransGen (Edit raw)

variable {raw : Prop} {d : Document}

/-! ## 4. Operations as steps -/

theorem elementOf_eq_ok_iff {id : NodeId} {e : Element} :
    d.elementOf id = .ok e ↔ d.element? id = some e := by
  unfold elementOf element?
  cases d.get? id with
  | none => simp
  | some n => cases hc : n.content <;> simp [NodeContent.element?, hc]

/-- `x` adds an element that is named `q`, and gives its id. -/
def Creates (x : DomM NodeId) (d : Document) (q : QualifiedName) : Prop :=
  ∃ (e : Element) (t : SymbolTable), x.run d = (.ok (NodeId.ofNat d.size), d.added (.element e) t) ∧
    d.symbols.Grown t ∧ e.Named t q ∧ e.attributes = {}

/-- `x` adds an element of that name, or fails with that error and leaves everything as it was. -/
def Gives (x : DomM NodeId) (d : Document) : Except DomError QualifiedName → Prop
  | .ok q => Creates x d q
  | .error e => x.run d = (.error e, d)

theorem Creates.edits {x : DomM NodeId} {q : QualifiedName} (h : Creates x d q) (hq : Naming q) :
    Edits raw d (x.run d).2 := by
  obtain ⟨e, t, hrun, hg, hn, hl⟩ := h
  rw [hrun]
  exact .single (.element hq hg hn hl)

theorem Gives.run_error {x : DomM NodeId} {e : DomError} (h : Gives x d (.error e)) :
    x.run d = (.error e, d) := h

theorem Gives.edits {x : DomM NodeId} {r : Except DomError QualifiedName} (h : Gives x d r)
    (hr : ∀ q, r = .ok q → Naming q) : Edits raw d (x.run d).2 := by
  cases r with
  | error e => rw [h.run_error]
  | ok q => exact Creates.edits h (hr q rfl)

theorem createElement_creates {name : String} (h : Name.isValid name = true) (d : Document) :
    Creates (createElement name) d
      { nsUri := some Namespace.html, nsPrefix := none, localName := name.toLower } := by
  let t := (d.symbols.intern name.toLower).2
  let y := (d.symbols.intern name.toLower).1
  refine ⟨⟨some (t.intern Namespace.html).1, none, y, {}⟩, (t.intern Namespace.html).2, ?_,
    (SymbolTable.grown_intern d.symbols name.toLower).trans
      (SymbolTable.grown_intern t Namespace.html), ⟨?_, rfl, ?_⟩, rfl⟩
  · unfold createElement
    simp only [Operation.run_bind, Operation.run_ofExcept, (Name.check_eq_ok_iff name).mpr h,
      run_intern, run_push]
    rfl
  · simp [SymbolTable.lookup_intern_self]
  · exact SymbolTable.lookup_intern (SymbolTable.lookup_intern_self _ _)

theorem run_createElement_of_error {name : String} {e : DomError} (h : Name.check name = .error e)
    (d : Document) : (createElement name).run d = (.error e, d) := by
  unfold createElement
  simp only [Operation.run_bind, Operation.run_ofExcept, h]

theorem gives_createElement (name : String) (d : Document) :
    Gives (createElement name) d (QualifiedName.forHtml name) := by
  unfold QualifiedName.forHtml
  cases hn : Name.check name with
  | error e => exact run_createElement_of_error hn d
  | ok u => exact createElement_creates ((Name.check_eq_ok_iff name).mp hn) d

theorem edits_createElement (name : String) :
    Operation.Respects (Edits raw) (createElement name) :=
  fun d => (gives_createElement name d).edits fun _ => naming_forHtml

theorem run_internOption (o : Option String) (d : Document) : ∃ (y : Option Symbol)
    (t : SymbolTable), (internOption o).run d = (.ok y, { d with symbols := t }) ∧
      d.symbols.Grown t ∧ o.map t.lookup = y.map some := by
  cases o with
  | none => exact ⟨none, d.symbols, rfl, .refl _, rfl⟩
  | some s =>
    refine ⟨some (d.symbols.intern s).1, _, rfl, SymbolTable.grown_intern _ s, ?_⟩
    simp [SymbolTable.lookup_intern_self]

/-- The symbols of texts that may be missing stay as the table grows. -/
theorem map_lookup_of_grown {t t' : SymbolTable} (hg : t.Grown t') {o : Option String}
    {y : Option Symbol} (h : o.map t.lookup = y.map some) : o.map t'.lookup = y.map some := by
  cases o with
  | none => exact h
  | some s =>
    cases y with
    | none => cases h
    | some y =>
      simp only [Option.map_some, Option.some.injEq] at h ⊢
      exact hg.lookup h

theorem createElementNs_creates {nsUri : Option String} {name : String} {q : QualifiedName}
    (h : QualifiedName.extract nsUri name = .ok q) (d : Document) :
    Creates (createElementNs nsUri name) d q := by
  obtain ⟨y₁, t₁, hr₁, hg₁, hy₁⟩ := run_internOption q.nsUri d
  obtain ⟨y₂, t₂, hr₂, hg₂, hy₂⟩ := run_internOption q.nsPrefix { d with symbols := t₁ }
  have hg₃ := SymbolTable.grown_intern t₂ q.localName
  refine ⟨{ nsUri := y₁, nsPrefix := y₂, localName := (t₂.intern q.localName).1 },
    (t₂.intern q.localName).2, ?_, (hg₁.trans hg₂).trans hg₃, ⟨?_, ?_, ?_⟩, rfl⟩
  · unfold createElementNs
    simp only [Operation.run_bind, Operation.run_ofExcept, h, hr₁, hr₂]
    rfl
  · exact map_lookup_of_grown (SymbolTable.Grown.trans hg₂ hg₃) hy₁
  · exact map_lookup_of_grown hg₃ hy₂
  · exact SymbolTable.lookup_intern_self _ _

theorem run_createElementNs_of_error {nsUri : Option String} {name : String} {e : DomError}
    (h : QualifiedName.extract nsUri name = .error e) (d : Document) :
    (createElementNs nsUri name).run d = (.error e, d) := by
  unfold createElementNs
  simp only [Operation.run_bind, Operation.run_ofExcept, h]

theorem gives_createElementNs (nsUri : Option String) (name : String) (d : Document) :
    Gives (createElementNs nsUri name) d (QualifiedName.extract nsUri name) := by
  cases hq : QualifiedName.extract nsUri name with
  | error e => exact run_createElementNs_of_error hq d
  | ok q => exact createElementNs_creates hq d

theorem edits_createElementNs (nsUri : Option String) (name : String) :
    Operation.Respects (Edits raw) (createElementNs nsUri name) :=
  fun d => (gives_createElementNs nsUri name d).edits fun _ => .extracted

theorem edits_createText (s : String) : Operation.Respects (Edits raw) (createText s) :=
  fun _ => .single (.text s)

theorem edits_append (p c : NodeId) : Operation.Respects (Edits raw) (append p c) := by
  intro d
  by_cases h : d.MayAppend p c
  · rw [run_append_of_mayAppend h]
    exact .single (.moved h)
  · rw [snd_run_append h]

theorem edits_detach (c : NodeId) : Operation.Respects (Edits raw) (detach c) := by
  intro d
  rw [snd_run_detach]
  exact .single (.detached c)

/-- A checked write by qualified name: the name is checked first, then the node. -/
theorem run_setAttribute (id : NodeId) (name value : String) (d : Document) :
    (setAttribute id name value).run d =
      match Name.check name, d.elementOf id with
      | .error e, _ => (.error e, d)
      | .ok (), .error e => (.error e, d)
      | .ok (), .ok e => (.ok (), d.putAttributes id e
          (e.attributes.set (d.attributeName e name) value).2) := by
  unfold setAttribute
  simp only [Operation.run_bind, Operation.run_read, Operation.run_ofExcept]
  cases Name.check name with
  | error e => rfl
  | ok u => cases he : d.elementOf id <;> simp only [he, Operation.run_modify]

theorem edits_setAttribute (id : NodeId) (name value : String) :
    Operation.Respects (Edits raw) (setAttribute id name value) := by
  intro d
  rw [run_setAttribute]
  cases hn : Name.check name with
  | error e => exact .refl
  | ok u =>
    cases he : d.elementOf id with
    | error e => exact .refl
    | ok e =>
      exact .single (.set (elementOf_eq_ok_iff.mp he) ((Name.check_eq_ok_iff name).mp hn) value)

/-- A checked write by identity. -/
theorem run_setAttributeNs (id : NodeId) (nsUri : Option String) (name value : String)
    (d : Document) : (setAttributeNs id nsUri name value).run d =
      match QualifiedName.extract nsUri name, d.elementOf id with
      | .error e, _ => (.error e, d)
      | .ok _, .error e => (.error e, d)
      | .ok q, .ok e => (.ok (), d.putAttributes id e (e.attributes.setNs
          { nsUri := q.nsUri, nsPrefix := q.nsPrefix, localName := q.localName, value }).2) := by
  unfold setAttributeNs
  simp only [Operation.run_bind, Operation.run_read, Operation.run_ofExcept]
  cases QualifiedName.extract nsUri name with
  | error e => rfl
  | ok q => cases he : d.elementOf id <;> simp only [he, Operation.run_modify]

theorem edits_setAttributeNs (id : NodeId) (nsUri : Option String) (name value : String) :
    Operation.Respects (Edits raw) (setAttributeNs id nsUri name value) := by
  intro d
  rw [run_setAttributeNs]
  cases hq : QualifiedName.extract nsUri name with
  | error e => exact .refl
  | ok q =>
    cases he : d.elementOf id with
    | error e => exact .refl
    | ok e => exact .single (.setNs (elementOf_eq_ok_iff.mp he) hq value)

end Document

end DomBuilder
