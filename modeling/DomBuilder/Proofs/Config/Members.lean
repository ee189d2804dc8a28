import DomBuilder.Config.Json
import DomBuilder.Proofs.Bindings
import DomBuilder.Proofs.Json.Values
import DomBuilder.Proofs.Json.Written

/-!
# What the text of a configuration says

The members of a configuration may come in any order, with any blanks and escapes, among members that
are none of a configuration's. This file fixes what is read then:

* `Member`, `MembersText`: the members of an object by what they say, and the texts of such an object;
* `Draft.take?`: one member more, refused if there was one for the same field before. A field is read that
  way (`readField_of_text`), and so, by induction along the text, are all (`readFields_of_text`);
* `foldlM_take?`: no member is refused exactly if no field has two, and then the draft holds the one that
  each field has;
* `ofJson_of_text`: which configuration a text is read as, and when it is refused.
-/

namespace DomBuilder.Config

open Json

/-! ## 1. Members -/

/-- A member of an object, by what it says of a configuration. -/
inductive Member where
  | elementNamespace (x : Option String)
  | prefixes (pairs : List (String × String))
  | other (key : String) (hn : key ≠ "namespace") (hp : key ≠ "namespaces")

namespace Member

def key : Member → String
  | elementNamespace _ => "namespace"
  | prefixes _ => "namespaces"
  | other key _ _ => key

/-- The texts of the value. -/
def ValueText : Member → List Char → Prop
  | elementNamespace x => OptionText x
  | prefixes pairs => ObjectText PairText pairs
  | other _ _ _ => ValueForm

def Text (m : Member) : List Char → Prop := MemberText m.key m.ValueText

def elementNamespace? : Member → Option (Option String)
  | elementNamespace x => some x
  | _ => none

def prefixes? : Member → Option (List (String × String))
  | prefixes pairs => some pairs
  | _ => none

end Member

/-- The texts of an object with these members, with blanks before and after it. -/
def MembersText (members : List Member) (w : List Char) : Prop :=
  ∃ s v t, Blanks s ∧ ObjectText Member.Text members v ∧ Blanks t ∧ w = s ++ (v ++ t)

/-- One member more, unless its field was there before. -/
def Draft.take? (d : Draft) : Member → Option Draft
  | .elementNamespace x =>
    if d.elementNamespace.isSome then none else some { d with elementNamespace := some x }
  | .prefixes pairs =>
    if d.prefixes.isSome then none else some { d with prefixes := some (.ofOverrides pairs) }
  | .other _ _ _ => some d

/-- The draft with `r` behind it, or the fault of a field that comes twice. -/
def drafted (r : List Char) : Option Draft → Reading Draft
  | none => .error .mistyped
  | some d => .ok (d, r)

/-! ## 2. Reading members -/

variable {s t u w r : List Char} {d : Draft}

theorem readPrefixes_of_text (hs : Blanks s) {pairs : List (String × String)}
    (h : ObjectText PairText pairs w) (r : List Char) :
    readPrefixes (s ++ (w ++ r)) = .ok (.ofOverrides pairs, r) := by
  rw [readPrefixes, readObject_of_text hs h]

/-- **Behind its key, a member is taken or refused.** -/
theorem readField_of_text (d : Draft) (m : Member) (hs : Blanks s) (ht : Blanks t)
    (h : m.ValueText w) (hr : Closed r) :
    readField d m.key (s ++ ':' :: (t ++ (w ++ r))) = drafted r (d.take? m) := by
  have hc := expectColon_append hs (t ++ (w ++ r))
  cases m with
  | elementNamespace x =>
    have hx := readOption_of_text ht h r
    by_cases hd : d.elementNamespace.isSome
    · simp [readField, Member.key, Draft.take?, drafted, hd]
    · simp [readField, Member.key, Draft.take?, drafted, hd, hc, hx]
  | prefixes pairs =>
    have hx := readPrefixes_of_text ht h r
    by_cases hd : d.prefixes.isSome
    · simp [readField, Member.key, Draft.take?, drafted, hd]
    · simp [readField, Member.key, Draft.take?, drafted, hd, hc, hx]
  | other key hn hp =>
    have hx := skipValue_of_form ht h hr
    simp [readField, Member.key, Draft.take?, drafted, hn, hp, hc, hx]

theorem readFields_end (ht : Blanks t) (first : Bool) (d : Draft) (r : List Char) :
    readFields first d (t ++ '\x7d' :: r) = .ok (d, r) := by
  have hk := readKey_end ht first r
  rw [readFields]
  grind

/-- After a key comes its field, and after that the others, unless the field is refused. -/
theorem readFields_of_readKey {first : Bool} {k : String} {v : List Char} {o : Option Draft}
    (hk : readKey first u = .ok (some k, v)) (hf : readField d k v = drafted r o) :
    readFields first d u = o.elim (.error .mistyped) fun d' => readFields false d' r := by
  rw [readFields]
  cases o <;> grind [drafted]

/-- **All members are taken in turn, up to the first that is refused.** -/
theorem readFields_of_text {members : List Member} (h : ItemsText Member.Text members w)
    {first : Bool} (hb : Before first u) (d : Draft) (r : List Char) :
    readFields first d (u ++ (w ++ '\x7d' :: r)) = drafted r (members.foldlM Draft.take? d) := by
  induction h generalizing first u d with
  | @last m s _ t hs hv ht =>
    obtain ⟨k, a, b, v, hk, ha, hb', hv, rfl⟩ := hv
    have hf := readField_of_text d m ha hb' hv (closed_append (c := '\x7d') ht (by decide) r)
    simp only [List.append_assoc, List.cons_append, List.foldlM_cons, List.foldlM_nil, bind_pure]
    rw [readFields_of_readKey (readKey_of_text hb hs hk _) hf]
    cases d.take? m with
    | none => rfl
    | some d' => exact readFields_end ht false d' r
  | @more m members s _ t w hs hv ht _ ih =>
    obtain ⟨k, a, b, v, hk, ha, hb', hv, rfl⟩ := hv
    have hf := readField_of_text d m ha hb' hv (closed_append (c := ',') ht (by decide)
      (w ++ '\x7d' :: r))
    have hrest := fun d' => ih (.next ht) d'
    simp only [List.append_assoc, List.cons_append, List.nil_append, List.foldlM_cons] at hrest ⊢
    rw [readFields_of_readKey (readKey_of_text hb hs hk _) hf]
    cases d.take? m with
    | none => rfl
    | some d' => exact hrest d'

theorem readDraft_of_text (hs : Blanks s) {members : List Member}
    (h : ObjectText Member.Text members w) (r : List Char) :
    readDraft (s ++ (w ++ r)) = drafted r (members.foldlM Draft.take? {}) := by
  cases h with
  | empty ht =>
    rw [readDraft, List.cons_append, skipBlanks_append_cons hs (by decide), List.append_assoc]
    exact readFields_end ht true {} r
  | filled h =>
    rw [readDraft, List.cons_append, skipBlanks_append_cons hs (by decide), List.append_assoc]
    exact readFields_of_text h .first {} r

/-- **A text is read as its members in turn.** -/
theorem read_of_text {members : List Member} (h : MembersText members w) :
    read w =
      match members.foldlM Draft.take? {} with
      | none => .error .mistyped
      | some d => .ok d.config := by
  obtain ⟨s, v, t, hs, hv, ht, rfl⟩ := h
  have hend : skipBlanks t = [] := by
    have h := skipBlanks_append ht []
    rwa [List.append_nil] at h
  rw [read, readDraft_of_text hs hv]
  cases members.foldlM Draft.take? ({} : Draft) with
  | none => rfl
  | some d => exact if_pos hend

/-! ## 3. Each field once -/

/-- What a draft has for a field, and what members give it after that. -/
theorem foldlM_take? (d : Draft) (members : List Member) :
    members.foldlM Draft.take? d =
      let names := d.elementNamespace.toList ++ members.filterMap Member.elementNamespace?
      let tables := d.prefixes.toList ++ (members.filterMap Member.prefixes?).map .ofOverrides
      if names.length ≤ 1 ∧ tables.length ≤ 1 then some ⟨names.head?, tables.head?⟩ else none := by
  induction members generalizing d with
  | nil =>
    obtain ⟨n, p⟩ := d
    cases n <;> cases p <;> rfl
  | cons m members ih =>
    obtain ⟨n, p⟩ := d
    rw [List.foldlM_cons]
    cases m with
    | elementNamespace x =>
      cases n with
      | none => exact ih _
      | some y => simp [Draft.take?, Member.elementNamespace?]
    | prefixes pairs =>
      cases p with
      | none => exact ih _
      | some t => simp [Draft.take?, Member.prefixes?]
    | other key hn hp => exact ih _

/-- **What a text says.** A field that comes at most once is read as it stands, one that is missing keeps
    its default, and of the URIs for one prefix the last one counts. A field that comes twice is refused. -/
theorem ofJson_of_text {members : List Member} {text : String}
    (h : MembersText members text.toList) :
    let names := members.filterMap Member.elementNamespace?
    let tables := members.filterMap Member.prefixes?
    (names.length ≤ 1 ∧ tables.length ≤ 1 → ∃ c, ofJson text = .ok c ∧
      c.elementNamespace = names.head?.getD none ∧
      ∀ p, c.prefixes.get? p = (lastValue tables.flatten p).or (PrefixTable.defaultUri? p)) ∧
    (1 < names.length ∨ 1 < tables.length → ofJson text = .error .mistyped) := by
  intro names tables
  have hread : ofJson text = if names.length ≤ 1 ∧ tables.length ≤ 1 then
      .ok (Draft.config ⟨names.head?, (tables.map .ofOverrides).head?⟩) else .error .mistyped := by
    rw [ofJson, read_of_text h, foldlM_take?]
    simp only [Option.toList_none, List.nil_append, List.length_map]
    split_ifs <;> rfl
  refine ⟨fun hone => ⟨_, hread.trans (if_pos hone), rfl, fun p => ?_⟩, fun htwo => ?_⟩
  · have htables : tables.length ≤ 1 := hone.2
    match tables, htables with
    | [], _ => exact PrefixTable.get?_default p
    | [pairs], _ =>
      rw [List.flatten_cons, List.flatten_nil, List.append_nil]
      exact PrefixTable.get?_ofOverrides pairs p
  · exact hread.trans (if_neg (by omega))

/-- A field behind an escape, a prefix that is bound twice, and a member that is none of a configuration's;
    and a field that comes twice. -/
theorem ofJson_of_text_members :
    (∃ c, ofJson " \x7b\"\\u006eamespaces\":\x7b\"a\":\"1\",\"a\":\"2\"\x7d ,\"x\":[0,\x7b\x7d]\x7d" = .ok c ∧
      c.elementNamespace = none ∧ c.prefixes.get? "a" = some "2" ∧
      c.prefixes.get? "svg" = some Namespace.svg) ∧
    ofJson "\x7b\"namespace\":null,\"namespace\":\"x\"\x7d" = .error .mistyped := by
  have hkey : StringText "namespaces" "\"\\u006eamespaces\"".toList :=
    ⟨"\\u006e".toList :: "amespaces".toList.map escape,
      .cons (.code (.four (i := 0) (j := 0) (k := 6) (l := 14) (.inl rfl) (.inl rfl) (.inl rfl)
        (.inl rfl))) (forall₂_escape _), rfl⟩
  have hpair : ∀ m, PairText m (writeMember m) := fun m => memberText_write m.1 (stringText_write m.2)
  have hprefixes : (Member.prefixes [("a", "1"), ("a", "2")]).Text
      "\"\\u006eamespaces\":\x7b\"a\":\"1\",\"a\":\"2\"\x7d".toList :=
    ⟨_, [], [], _, hkey, blanks_nil, blanks_nil, objectText_intercalate hpair _, rfl⟩
  have hzero : Phrase.value.Text ['0'] :=
    .number (@NumberForm.mk [] ['0'] [] [] (by decide) (.inl rfl) (.inl rfl) (.inl rfl))
  have hempty : Phrase.value.Text ['\x7b', '\x7d'] := .empty .object blanks_nil
  have hother : (Member.other "x" (by decide) (by decide)).Text "\"x\":[0,\x7b\x7d]".toList :=
    memberText_write "x" (.filled (b := .array) (.more (l := []) rfl blanks_nil hzero blanks_nil
      (.last (l := []) rfl blanks_nil hempty blanks_nil)))
  have h : MembersText [.prefixes [("a", "1"), ("a", "2")], .other "x" (by decide) (by decide)]
      " \x7b\"\\u006eamespaces\":\x7b\"a\":\"1\",\"a\":\"2\"\x7d ,\"x\":[0,\x7b\x7d]\x7d".toList :=
    ⟨[' '], _, [], by decide, .filled (.more blanks_nil hprefixes (by decide : Blanks [' '])
      (.last blanks_nil hother blanks_nil)), blanks_nil, rfl⟩
  have h' : MembersText [.elementNamespace none, .elementNamespace (some "x")]
      "\x7b\"namespace\":null,\"namespace\":\"x\"\x7d".toList :=
    ⟨[], _, [], blanks_nil, .filled (.more blanks_nil
      (memberText_write "namespace" (optionText_write none)) blanks_nil
      (.last blanks_nil (memberText_write "namespace" (optionText_write (some "x"))) blanks_nil)),
      blanks_nil, rfl⟩
  refine ⟨?_, (ofJson_of_text h').2 (by decide)⟩
  obtain ⟨c, hc, hn, hp⟩ := (ofJson_of_text h).1 (by decide)
  exact ⟨c, hc, hn, (hp "a").trans rfl, (hp "svg").trans rfl⟩

end DomBuilder.Config
