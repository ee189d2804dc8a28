import DomBuilder.Proofs.Build.Effect

/-!
# When a build succeeds

A build stops at the first item that does not go into its element. This file fixes which items these are,
told without the document but for the number of its nodes:

* `AttributeKey.fault?`, `Leaf.nodeFault?`: what is wrong with a key and with a node; nothing is ever wrong
  with a text;
* `Leaf.firstFault?`: the first fault among leaves, where each text makes one node more.
  `firstFault?_eq_none_iff` and `exists_of_firstFault?` read it item by item;
* `Loose d e`: `e` is an element that hangs nowhere. Whatever goes into it leaves it so (`Loose.place`), and
  so an append to it can only meet the element itself on the way up (`Loose.checkAppend_eq`);
* `fst_run_forM`: leaves that are placed in turn end at their first fault, by induction on the leaves;
* `result_build`: the result of a build.
-/

namespace DomBuilder

/-! ## 1. Faults -/

namespace AttributeKey

/-- What is wrong with a key: its local name is no name, or that name and the namespace do not go
    together. -/
def fault? (c : Config) (key : String) : Option DomError :=
  if Name.isValid (ofKey key).localName then
    match (ofKey key).nsUri c with
    | none => none
    | some uri =>
      if (ofKey key).localName = "xmlns" ↔ uri = Namespace.xmlns then none
      else some (.namespaceFault .xmlnsName)
  else some (.invalidCharacter (ofKey key).localName)

/-- The local name of the key is a name, and in a namespace it is `xmlns` exactly if the namespace is that
    of `xmlns`. -/
structure Fits (c : Config) (key : String) : Prop where
  name : Name.isValid (ofKey key).localName = true
  xmlns : ∀ uri, (ofKey key).nsUri c = some uri →
    ((ofKey key).localName = "xmlns" ↔ uri = Namespace.xmlns)

theorem fault?_eq_none_iff {c : Config} {key : String} : fault? c key = none ↔ Fits c key := by
  unfold fault?
  by_cases hn : Name.isValid (ofKey key).localName = true
  · rw [if_pos hn]
    cases hu : (ofKey key).nsUri c with
    | none =>
      refine ⟨fun _ => ⟨hn, fun uri h => ?_⟩, fun _ => rfl⟩
      rw [hu] at h
      cases h
    | some uri =>
      by_cases hx : (ofKey key).localName = "xmlns" ↔ uri = Namespace.xmlns
      · refine ⟨fun _ => ⟨hn, fun uri' h => ?_⟩, fun _ => if_pos hx⟩
        rw [hu] at h
        cases h
        exact hx
      · simp only [if_neg hx, reduceCtorEq, false_iff]
        exact fun h => hx (h.xmlns uri hu)
  · rw [if_neg hn]
    exact ⟨fun h => (by cases h), fun h => absurd h.name hn⟩

end AttributeKey

namespace Leaf

variable {c : Config} {n size : Nat} {id : NodeId} {leaves : List Leaf} {err : DomError}

/-- What is wrong with a node that is to come under the element at place `n`, in a document of `size`
    nodes. -/
def nodeFault? (n size : Nat) (id : NodeId) : Option DomError :=
  if size ≤ id.index then some (.notFound id)
  else if id = .root then some (.hierarchyFault .documentChild)
  else if id.index = n then some (.hierarchyFault .containment)
  else none

/-- What is wrong with a leaf. -/
def fault? (c : Config) (n size : Nat) : Leaf → Option DomError
  | text _ => none
  | node id => nodeFault? n size id
  | keys entries => entries.findSome? fun entry => AttributeKey.fault? c entry.1

/-- The first thing that is wrong with leaves, in a document of `size` nodes before them. -/
def firstFault? (c : Config) (n : Nat) : Nat → List Leaf → Option DomError
  | _, [] => none
  | size, l :: rest => (l.fault? c n size).or (firstFault? c n (size + l.newNodes) rest)

theorem nodeFault?_eq_none_iff :
    nodeFault? n size id = none ↔ id ≠ .root ∧ id.index ≠ n ∧ id.index < size := by
  unfold nodeFault?
  by_cases hs : size ≤ id.index
  · rw [if_pos hs]
    exact ⟨fun h => (by cases h), fun h => absurd h.2.2 (Nat.not_lt.mpr hs)⟩
  by_cases hr : id = .root
  · rw [if_neg hs, if_pos hr]
    exact ⟨fun h => (by cases h), fun h => absurd hr h.1⟩
  by_cases hn : id.index = n
  · rw [if_neg hs, if_neg hr, if_pos hn]
    exact ⟨fun h => (by cases h), fun h => absurd hn h.2.1⟩
  · rw [if_neg hs, if_neg hr, if_neg hn]
    exact ⟨fun _ => ⟨hr, hn, Nat.not_le.mp hs⟩, fun _ => rfl⟩

/-- The nodes that something is wrong with. -/
theorem of_nodeFault?_eq_some (hn : n < size) (h : nodeFault? n size id = some err) :
    id = .root ∨ n ≤ id.index := by
  unfold nodeFault? at h
  split_ifs at h with h1 h2 h3
  · exact .inr (by omega)
  · exact .inl h2
  · exact .inr (by omega)

/-- Nothing is wrong with leaves if nothing is wrong with each where it stands. -/
theorem firstFault?_eq_none_iff : firstFault? c n size leaves = none ↔
    ∀ before l after, leaves = before ++ l :: after →
      l.fault? c n (size + newNodesAll before) = none := by
  induction leaves generalizing size with
  | nil => simp [firstFault?]
  | cons a leaves ih =>
    rw [firstFault?, Option.or_eq_none_iff, ih]
    constructor
    · rintro ⟨ha, hrest⟩ before l after hsplit
      cases before with
      | nil =>
        cases hsplit
        exact ha
      | cons b before =>
        cases hsplit
        rw [newNodesAll, ← Nat.add_assoc]
        exact hrest before l after rfl
    · intro h
      refine ⟨h [] a leaves rfl, fun before l after hsplit => ?_⟩
      have hl := h (a :: before) l after (by rw [hsplit]; rfl)
      rw [newNodesAll, ← Nat.add_assoc] at hl
      exact hl

/-- **The first fault is that of a leaf before which nothing is wrong.** -/
theorem exists_of_firstFault? (h : firstFault? c n size leaves = some err) :
    ∃ before l after, leaves = before ++ l :: after ∧ firstFault? c n size before = none ∧
      l.fault? c n (size + newNodesAll before) = some err := by
  induction leaves generalizing size with
  | nil => cases h
  | cons a leaves ih =>
    rw [firstFault?] at h
    cases ha : a.fault? c n size with
    | some e =>
      rw [ha] at h
      cases h
      exact ⟨[], a, leaves, rfl, rfl, ha⟩
    | none =>
      rw [ha, Option.none_or] at h
      obtain ⟨before, l, after, rfl, hb, hl⟩ := ih h
      refine ⟨a :: before, l, after, rfl, ?_, ?_⟩
      · rw [firstFault?, ha, Option.none_or, hb]
      · rw [newNodesAll, ← Nat.add_assoc]
        exact hl

/-- The same by the kinds of leaves. -/
theorem firstFault?_eq_none_iff_kinds : firstFault? c n size leaves = none ↔
    (∀ before id after, leaves = before ++ node id :: after →
      id ≠ .root ∧ id.index ≠ n ∧ id.index < size + newNodesAll before) ∧
    ∀ entries, keys entries ∈ leaves → ∀ kv ∈ entries, AttributeKey.Fits c kv.1 := by
  rw [firstFault?_eq_none_iff]
  constructor
  · refine fun h => ⟨fun before id after hsplit => ?_, fun entries hm kv hkv => ?_⟩
    · exact nodeFault?_eq_none_iff.mp (h before _ after hsplit)
    · obtain ⟨before, after, hsplit⟩ := List.append_of_mem hm
      have hf := List.findSome?_eq_none_iff.mp (h before _ after hsplit) kv hkv
      exact AttributeKey.fault?_eq_none_iff.mp hf
  · rintro ⟨hnodes, hkeys⟩ before l after hsplit
    cases l with
    | text s => rfl
    | node id => exact nodeFault?_eq_none_iff.mpr (hnodes before id after hsplit)
    | keys entries =>
      have hm : keys entries ∈ leaves := by
        rw [hsplit]
        exact List.mem_append_right _ List.mem_cons_self
      refine List.findSome?_eq_none_iff.mpr fun kv hkv => ?_
      exact AttributeKey.fault?_eq_none_iff.mpr (hkeys entries hm kv hkv)

end Leaf

/-- The outcome of a step that gives nothing back. -/
def settle : Option DomError → Except DomError Unit
  | none => .ok ()
  | some err => .error err

/-- Of two steps in turn, the first fault counts. -/
theorem Operation.fst_run_bind {σ : Type} {x y : Operation σ Unit} {s : σ} {o o' : Option DomError}
    (hx : (x.run s).1 = settle o) (hy : ∀ s', x.run s = (.ok (), s') → (y.run s').1 = settle o') :
    ((x >>= fun _ => y).run s).1 = settle (o.or o') := by
  rw [run_bind]
  rcases hr : x.run s with ⟨err | u, s'⟩
  · rw [hr] at hx
    cases o with
    | none => cases hx
    | some e => exact hx
  · rw [hr] at hx
    cases o with
    | none => exact hy s' hr
    | some e => cases hx

namespace Document

variable {c : Config} {e id : NodeId} {d d' : Document} {el : Element} {l : Leaf} {leaves : List Leaf}

/-! ## 2. Keys -/

/-- What a namespace and a local name without a colon come to. -/
theorem extract_of_not_mem {uri name : String} (hname : ':' ∉ name.toList) (huri : uri ≠ "") :
    QualifiedName.extract (some uri) name =
      if Name.isValid name then
        if name = "xmlns" ↔ uri = Namespace.xmlns then .ok ⟨some uri, none, name⟩
        else .error (.namespaceFault .xmlnsName)
      else .error (.invalidCharacter name) := by
  have hf : (some uri).filter (fun s : String => s ≠ "") = some uri := by simp [huri]
  have hfault : Name.namespaceFault? (some uri) name none =
      if name = "xmlns" ↔ uri = Namespace.xmlns then none else some .xmlnsName := by
    simp [Name.namespaceFault?]
  unfold QualifiedName.extract
  rw [hf, Name.splitName_of_not_mem hname]
  by_cases hn : Name.isValid name = true
  · rw [(Name.check_eq_ok_iff name).mpr hn, if_pos hn]
    by_cases hx : name = "xmlns" ↔ uri = Namespace.xmlns
    · simp only [bind, Except.bind, hfault, if_pos hx]
      rfl
    · simp only [bind, Except.bind, hfault, if_neg hx]
      rfl
  · rw [Name.check, if_neg hn, if_neg hn]
    rfl

/-- **A key fails by its own fault**, and by nothing that the element has already. -/
theorem fst_run_setKey (hel : d.element? e = some el) (key value : String) :
    ((setKey c e key value).run d).1 = settle (AttributeKey.fault? c key) := by
  have he := elementOf_eq_ok_iff.mpr hel
  unfold setKey AttributeKey.fault?
  cases hu : (AttributeKey.ofKey key).nsUri c with
  | none =>
    simp only
    rw [run_setAttribute, he]
    by_cases hn : Name.isValid (AttributeKey.ofKey key).localName = true
    · rw [(Name.check_eq_ok_iff _).mpr hn, if_pos hn]
      rfl
    · rw [Name.check, if_neg hn, if_neg hn]
      rfl
  | some uri =>
    simp only
    rw [run_setAttributeNs, he, extract_of_not_mem (AttributeKey.colon_not_mem_ofKey key)
      (AttributeKey.nsUri_ne_empty hu)]
    by_cases hn : Name.isValid (AttributeKey.ofKey key).localName = true
    · rw [if_pos hn, if_pos hn]
      by_cases hx : (AttributeKey.ofKey key).localName = "xmlns" ↔ uri = Namespace.xmlns
      · rw [if_pos hx, if_pos hx]
        rfl
      · rw [if_neg hx, if_neg hx]
        rfl
    · rw [if_neg hn, if_neg hn]
      rfl

theorem fst_run_setKeys {entries : List (String × String)} (hel : d.element? e = some el) :
    ((entries.forM fun (key, value) => setKey c e key value).run d).1 =
      settle (entries.findSome? fun entry => AttributeKey.fault? c entry.1) := by
  induction entries generalizing d el with
  | nil => rfl
  | cons kv entries ih =>
    have h := Operation.fst_run_bind (fst_run_setKey (c := c) hel kv.1 kv.2) fun d' hr =>
      ih ((rewrites_setKey hel hr).element el hel)
    have hor : (kv :: entries).findSome? (fun entry => AttributeKey.fault? c entry.1) =
        (AttributeKey.fault? c kv.1).or (entries.findSome? fun entry => AttributeKey.fault? c entry.1) := by
      rw [List.findSome?_cons]
      cases AttributeKey.fault? c kv.1 <;> rfl
    rw [hor]
    exact h

/-! ## 3. Nodes -/

/-- `e` is an element that hangs nowhere. -/
structure Loose (d : Document) (e : NodeId) : Prop where
  wellFormed : WellFormed d
  element : ∃ el, d.element? e = some el
  parent : d.parent? e = none

theorem Loose.contains (h : Loose d e) : d.contains e = true := by
  obtain ⟨el, hel⟩ := h.element
  exact contains_of_element? hel

/-- An element takes whatever is no document and not above it. -/
theorem hierarchyFault?_element (d : Document) (p child : NodeId) (el : Element) (k : NodeContent) :
    d.hierarchyFault? p child (.element el) k =
      if k.isDocument then some .documentChild
      else if d.isInclusiveAncestor child p then some .containment
      else none := by
  have ht : (NodeContent.element el).isText = false := rfl
  have hd : (NodeContent.element el).isDocument = false := rfl
  unfold hierarchyFault?
  simp only [ht, hd, Bool.false_eq_true, if_false, false_and]

/-- **On the way up from the element there is only the element.** So an append to it depends on the number
    of nodes, and not on where the node hangs. -/
theorem Loose.checkAppend_eq (h : Loose d e) (id : NodeId) :
    d.checkAppend e id = settle (Leaf.nodeFault? e.index d.size id) := by
  obtain ⟨el, hel⟩ := h.element
  obtain ⟨ne, hne, hce⟩ := Option.map_eq_some_iff.mp (element?_eq_some_iff.mp hel)
  have hpath := h.wellFormed.path_of_no_parent h.contains h.parent
  have hanc : d.isInclusiveAncestor id e = true ↔ id.index = e.index := by
    rw [isInclusiveAncestor_iff, hpath, List.mem_singleton, NodeId.index_inj]
  unfold checkAppend Leaf.nodeFault?
  rw [hne]
  cases hid : d.get? id with
  | none =>
    have hc : ¬ d.contains id = true := fun hc => by
      obtain ⟨node, hnode⟩ := contains_iff.mp hc
      rw [hid] at hnode
      cases hnode
    rw [if_pos (Nat.not_lt.mp fun hlt => hc (contains_iff_lt.mpr hlt))]
    rfl
  | some nc =>
    have hlt : id.index < d.size := contains_iff_lt.mp (contains_iff.mpr ⟨nc, hid⟩)
    have hcontent : d.content? id = some nc.content := by rw [content?, hid, Option.map_some]
    rw [if_neg (Nat.not_le.mpr hlt)]
    simp only [hce, hierarchyFault?_element]
    by_cases hr : id = .root
    · have hk : nc.content = .document := by
        rw [hr, h.wellFormed.rootContent] at hcontent
        exact (Option.some.inj hcontent).symm
      rw [if_pos hr, if_pos (by rw [hk]; rfl)]
      rfl
    · have hk : ¬ nc.content.isDocument = true := fun hk => hr (h.wellFormed.rootOnly id (by
        rw [hcontent, eq_document_of_isDocument hk]))
      rw [if_neg hr, if_neg hk]
      by_cases ha : id.index = e.index
      · rw [if_pos (hanc.mpr ha), if_pos ha]
        rfl
      · rw [if_neg (mt hanc.mp ha), if_neg ha]
        rfl

theorem fst_run_discard_append (d : Document) (p k : NodeId) :
    ((discard (append p k)).run d).1 = d.checkAppend p k := by
  rw [Operation.run_discard, fst_run_append]
  cases d.checkAppend p k <;> rfl

theorem Loose.added (h : Loose d e) {k : NodeContent} (hk : k.isDocument = false) (t : SymbolTable) :
    Loose (d.added k t) e := by
  obtain ⟨el, hel⟩ := h.element
  exact ⟨h.wellFormed.added hk t, ⟨el, element?_eq_some_iff.mpr
    (content?_added_of_some (element?_eq_some_iff.mp hel))⟩,
    ((sameLinks_added d k t).parent e).trans h.parent⟩

theorem Loose.moved (h : Loose d e) (hm : d.MayAppend e id) : Loose (d.moved e id) e := by
  obtain ⟨el, hel⟩ := h.element
  -- the element is on its own way up, so it was not what came under it
  have hne : e ≠ id := by
    rintro rfl
    have ha := isInclusiveAncestor_iff.mpr (h.wellFormed.self_mem_path h.contains)
    rw [hm.apart] at ha
    cases ha
  refine ⟨h.wellFormed.moved hm, ⟨el, ?_⟩, ?_⟩
  · rw [element?_eq_some_iff, content?_moved, ← element?_eq_some_iff, hel]
  · rw [parent?_moved hm.contains_child, if_neg hne, h.parent]

/-- **What goes into a loose element leaves it loose.** -/
theorem Loose.place (h : Loose d e) (hrun : (l.place c e).run d = (.ok (), d')) : Loose d' e := by
  obtain ⟨el, hel⟩ := h.element
  have hl := run_place_eq_ok hrun
  cases l with
  | text s =>
    obtain ⟨hm, rfl⟩ := hl
    exact (h.added rfl _).moved hm
  | node id =>
    obtain ⟨hm, rfl⟩ := hl
    exact h.moved hm
  | keys entries =>
    exact ⟨wellFormed_place h.wellFormed hrun, ⟨_, (rewrites_place hel hrun).element el hel⟩,
      ((links_setKeys hel hl).parent e).trans h.parent⟩

/-! ## 4. Leaves -/

/-- Nothing is wrong with a new text: it is there, it is not the document, and it is not the element. -/
theorem Loose.nodeFault?_new (h : Loose d e) (hsize : d.size < UInt32.size) :
    Leaf.nodeFault? e.index (d.size + 1) (.ofNat d.size) = none := by
  have he : e.index < d.size := contains_iff_lt.mp h.contains
  have hi := NodeId.index_ofNat hsize
  refine Leaf.nodeFault?_eq_none_iff.mpr ⟨fun hr => ?_, by omega, by omega⟩
  rw [hr] at hi
  have h0 : NodeId.root.index = 0 := rfl
  omega

/-- **A leaf fails by its own fault.** -/
theorem Loose.fst_run_place (h : Loose d e) (hsize : ((l.place c e).run d).2.size ≤ UInt32.size) :
    ((l.place c e).run d).1 = settle (l.fault? c e.index d.size) := by
  cases l with
  | text s =>
    have hlt := size_lt_of_place_text hsize
    rw [run_place_text, fst_run_discard_append, (h.added rfl _).checkAppend_eq, size_added,
      h.nodeFault?_new hlt]
    rfl
  | node id =>
    rw [run_place_node, fst_run_discard_append, h.checkAppend_eq]
    rfl
  | keys entries =>
    obtain ⟨el, hel⟩ := h.element
    exact fst_run_setKeys hel

/-- **Leaves that are placed in turn end at their first fault.** -/
theorem Loose.fst_run_forM (h : Loose d e)
    (hsize : ((leaves.forM (Leaf.place c e)).run d).2.size ≤ UInt32.size) :
    ((leaves.forM (Leaf.place c e)).run d).1 = settle (Leaf.firstFault? c e.index d.size leaves) := by
  induction leaves generalizing d with
  | nil => rfl
  | cons l leaves ih =>
    have hfirst := h.fst_run_place (Nat.le_trans (size_le_forM_cons l leaves) hsize)
    refine Operation.fst_run_bind hfirst fun d₁ hr => ?_
    obtain ⟨el, hel⟩ := h.element
    rw [run_forM_cons_of_ok hr] at hsize
    rw [ih (h.place hr) hsize, size_place hr]

/-- Leaves without a fault all go in. -/
theorem Loose.run_forM_of_no_fault (h : Loose d e) (hsize : d.size + Leaf.newNodesAll leaves ≤ UInt32.size)
    (hf : Leaf.firstFault? c e.index d.size leaves = none) :
    ∃ d', (leaves.forM (Leaf.place c e)).run d = (.ok (), d') := by
  have hfirst := h.fst_run_forM (Nat.le_trans (size_run_forM_le (c := c) (e := e) leaves d) hsize)
  rw [hf] at hfirst
  exact ⟨_, Prod.ext hfirst rfl⟩

/-! ## 5. A whole build -/

theorem loose_added (h : WellFormed d) (hsize : d.size < UInt32.size) (el : Element) (t : SymbolTable) :
    Loose (d.added (.element el) t) (.ofNat d.size) := by
  refine ⟨h.added rfl t, ⟨el, element?_added_self hsize el t⟩, ?_⟩
  rw [(sameLinks_added d _ t).parent]
  exact Option.eq_none_iff_forall_ne_some.mpr fun p hp =>
    not_contains_new hsize (contains_of_parent? hp)

/-- The result of a build is the fault of its tag, or else the first fault of its leaves, or else the new
    element. -/
theorem fst_run_createWith (h : WellFormed d) {tag : String}
    (hsize : ((createWith c tag leaves).run d).2.size < UInt32.size) :
    ((createWith c tag leaves).run d).1 =
      match QualifiedName.ofTag c tag, Leaf.firstFault? c d.size (d.size + 1) leaves with
      | .error err, _ => .error err
      | .ok _, some err => .error err
      | .ok _, none => .ok (.ofNat d.size) := by
  have hg := gives_creation c tag d
  cases hq : QualifiedName.ofTag c tag with
  | error err =>
    rw [hq] at hg
    rw [run_createWith_of_error hg.run_error]
  | ok q =>
    rw [hq] at hg
    obtain ⟨el, t, hrun, _⟩ := hg
    rw [run_createWith_of_created hrun] at hsize ⊢
    have hlt : d.size < UInt32.size :=
      size_lt_of_forM (size_added d (.element el) t) (Nat.le_of_lt hsize)
    have hl := (loose_added h hlt el t).fst_run_forM (Nat.le_of_lt hsize)
    rw [NodeId.index_ofNat hlt, size_added] at hl
    simp only [hl]
    cases Leaf.firstFault? c d.size (d.size + 1) leaves <;> rfl

/-- The tag is a name, or, for an element of a namespace, a name for it. -/
def TagFits (c : Config) (tag : String) : Prop :=
  match c.elementNamespace with
  | none => Name.isValid tag = true
  | some ns => ∃ q, QualifiedName.extract (some (c.prefixes.resolve ns)) tag = .ok q

theorem tagFits_iff {tag : String} : TagFits c tag ↔ ∃ q, QualifiedName.ofTag c tag = .ok q := by
  unfold TagFits QualifiedName.ofTag
  cases c.elementNamespace with
  | none =>
    simp only
    rw [← Name.check_eq_ok_iff, QualifiedName.forHtml]
    constructor
    · intro hn
      rw [hn]
      exact ⟨_, rfl⟩
    · rintro ⟨q, hq⟩
      exact (Name.check_eq_ok_iff tag).mpr (QualifiedName.forHtml_eq_ok hq).1
  | some ns => exact Iff.rfl

/-- **A build in a reachable document that is not lent succeeds exactly if its tag fits, every node among
    its leaves is there at its turn and neither the document nor the element itself, and every key fits.
    Otherwise its error is that of the tag, or else of the first leaf at fault**, which is no text, and no
    node that was there before but the document. -/
theorem result_build {b : Builder} {calls : List Action} {tag : String} {content : Argument}
    (hd : b.document = fresh.after calls) (hb : b.lent = false)
    (hsize : (b.build tag content).builder.document.size < UInt32.size) :
    let n := b.document.size
    let result := (b.build tag content).result
    (result = .ok (.ofNat n) ↔ TagFits b.config tag ∧
      (∀ before id after, content.leaves = before ++ .node id :: after →
        id ≠ .root ∧ id.index ≠ n ∧ id.index < n + 1 + Leaf.newNodesAll before) ∧
      ∀ entries, .keys entries ∈ content.leaves → ∀ kv ∈ entries, AttributeKey.Fits b.config kv.1) ∧
    (∀ e, result = .ok e → e = .ofNat n) ∧
    ∀ err, result = .error err → QualifiedName.ofTag b.config tag = .error err ∨
      TagFits b.config tag ∧ ∃ before l after, content.leaves = before ++ l :: after ∧
        Leaf.firstFault? b.config n (n + 1) before = none ∧
        l.fault? b.config n (n + 1 + Leaf.newNodesAll before) = some err ∧
        ((∃ id, l = .node id ∧ (id = .root ∨ n ≤ id.index)) ∨ ∃ entries, l = .keys entries) := by
  intro n result
  have hw : WellFormed b.document := hd ▸ wellFormed_after calls
  have hrun := Builder.run_createWith_of_not_lent hb tag content
  have hres := fst_run_createWith hw (by rw [hrun]; exact hsize)
  rw [hrun] at hres
  change result = _ at hres
  rw [← Leaf.firstFault?_eq_none_iff_kinds, tagFits_iff]
  cases hq : QualifiedName.ofTag b.config tag with
  | error err =>
    rw [hq] at hres
    rw [hres]
    exact ⟨by simp, by simp, fun err' he => .inl (by cases he; rfl)⟩
  | ok q =>
    rw [hq] at hres
    cases hf : Leaf.firstFault? b.config n (n + 1) content.leaves with
    | none =>
      rw [hf] at hres
      rw [hres]
      exact ⟨⟨fun _ => ⟨⟨q, rfl⟩, rfl⟩, fun _ => rfl⟩, fun e he => (by cases he; rfl),
        fun err he => (by cases he)⟩
    | some err =>
      rw [hf] at hres
      rw [hres]
      refine ⟨by simp, by simp, fun err' he => .inr ⟨⟨q, rfl⟩, ?_⟩⟩
      cases he
      obtain ⟨before, l, after, hsplit, hbefore, hl⟩ := Leaf.exists_of_firstFault? hf
      refine ⟨before, l, after, hsplit, hbefore, hl, ?_⟩
      cases l with
      | text s => cases hl
      | node id => exact .inl ⟨id, rfl, Leaf.of_nodeFault?_eq_some (by omega) hl⟩
      | keys entries => exact .inr ⟨entries, rfl⟩

/-- A parent, then its child, a text, and that text again by its id: none of it goes wrong. One more id, and
    the build stops there, though a text that comes later would have it. -/
theorem result_build_moved :
    let calls : List Action := [.createElement "div", .createElement "p", .append ⟨1⟩ ⟨2⟩,
      .append ⟨0⟩ ⟨1⟩]
    let b : Builder := { document := fresh.after calls }
    let content := Argument.list [.node ⟨1⟩, .list [.node ⟨2⟩, .text "x"],
      .attributes ⟨[("klass", "c"), ("xlink:href", "#")], none⟩, .node ⟨4⟩]
    let content' := Argument.list [content, .node ⟨5⟩, .text "y", .attributes ⟨[("1", "")], none⟩]
    (b.build "ul" content).result = .ok ⟨3⟩ ∧
      (b.build "ul" content').result = .error (.notFound ⟨5⟩) ∧
      ∃ before l after, content'.leaves = before ++ l :: after ∧
        Leaf.firstFault? b.config 3 4 before = none ∧
        l.fault? b.config 3 (4 + Leaf.newNodesAll before) = some (.notFound ⟨5⟩) := by
  intro calls b content content'
  have hsize : (b.build "ul" content).builder.document.size < UInt32.size := by decide +kernel
  have hsize' : (b.build "ul" content').builder.document.size < UInt32.size := by decide +kernel
  have hfits : TagFits b.config "ul" := by
    show Name.isValid "ul" = true
    decide
  have herr : (b.build "ul" content').result = .error (.notFound ⟨5⟩) := by decide +kernel
  obtain ⟨hok, _⟩ := result_build rfl rfl hsize
  obtain ⟨_, _, hfirst⟩ := result_build rfl rfl hsize'
  refine ⟨hok.mpr ⟨hfits, Leaf.firstFault?_eq_none_iff_kinds.mp (by decide +kernel)⟩, herr, ?_⟩
  rcases hfirst _ herr with htag | ⟨_, before, l, after, hsplit, hbefore, hl, _⟩
  · obtain ⟨q, hq⟩ := tagFits_iff.mp hfits
    rw [hq] at htag
    cases htag
  · exact ⟨before, l, after, hsplit, hbefore, hl⟩

end Document

end DomBuilder
