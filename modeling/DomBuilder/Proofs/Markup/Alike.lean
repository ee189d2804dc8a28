import DomBuilder.Proofs.Markup.Legible

/-!
# Nodes that look alike

A name can be stored with a prefix or with a colon in its local part, and be written in the same way.
This file fixes when that makes a difference to markup:

* `Label.alike`, `Tree.alike`: two elements have the same namespace, the same name in their tags and the
  same attributes; two trees have such elements and the same texts at the same places;
* `Label.isVoid_congr`: elements that look alike are both void or both not;
* `Tree.sameTexts`: wherever a text is written, the two elements over it are both raw-text elements or both
  not, or the text has nothing to escape. Raw-text elements are told by the local name, so this is more
  than looking alike;
* `AlikeRows`: rows of trees that look alike, as a relation to do induction on. Texts may stand side by side,
  so the induction carries the text in front along (`AlikeRows.sameTexts_of_write`);
* `outerHtml_eq_iff`: nodes that look alike have the same markup exactly if their texts are written alike,
  which need not be so (`outerHtml_ne_script`).
-/

namespace DomBuilder

open Markup

/-! ## 1. Looking alike -/

/-- Namespace, name in the tags and attributes are the same. -/
def Label.alike (l l' : Label) : Bool :=
  l.nsUri = l'.nsUri && l.tagName = l'.tagName && l.attributes = l'.attributes

theorem Label.alike_iff {l l' : Label} : l.alike l' = true ↔
    l.nsUri = l'.nsUri ∧ l.tagName = l'.tagName ∧ l.attributes = l'.attributes := by
  simp only [alike, Bool.and_eq_true, decide_eq_true_eq, and_assoc]

/-- **Elements that look alike are both void or both not.** -/
theorem Label.isVoid_congr {l l' : Label} (h : l.alike l' = true) : l.isVoid = l'.isVoid := by
  obtain ⟨hu, hn, _⟩ := alike_iff.mp h
  rw [isVoid, isVoid, isHtml, isHtml, hu, hn]

/-- The text `s` is written alike under both: both take raw text or both do not, or there is nothing to
    escape. -/
def Label.sameText (p p' : Option Label) (s : String) : Bool :=
  p.any isRawText = p'.any isRawText || escapeText s = s

namespace Tree

mutual

/-- The trees have elements that look alike and the same texts at the same places. -/
def alike : Tree → Tree → Bool
  | text s, text s' => s = s'
  | element l ts, element l' ts' => l.alike l' && alikeAll ts ts'
  | _, _ => false

def alikeAll : List Tree → List Tree → Bool
  | [], [] => true
  | t :: ts, t' :: ts' => t.alike t' && alikeAll ts ts'
  | _, _ => false

end

mutual

/-- Every text that is written, so none in a void element, is written alike in both trees. -/
def sameTexts (p p' : Option Label) : Tree → Tree → Bool
  | text s, _ => Label.sameText p p' s
  | element l ts, element l' ts' => l.isVoid || sameTextsAll (some l) (some l') ts ts'
  | _, _ => true

def sameTextsAll (p p' : Option Label) : List Tree → List Tree → Bool
  | t :: ts, t' :: ts' => t.sameTexts p p' t' && sameTextsAll p p' ts ts'
  | _, _ => true

end

end Tree

/-! ## 2. Texts, raw and escaped -/

namespace Markup

/-- The characters of a text, raw or escaped. -/
def textChars (raw : Bool) (l : List Char) : List Char := if raw then l else l.flatMap textEntity

theorem textChars_append (raw : Bool) (a b : List Char) :
    textChars raw (a ++ b) = textChars raw a ++ textChars raw b := by
  cases raw with
  | true => rfl
  | false => exact List.flatMap_append

/-- The empty text changes nothing, raw or escaped. -/
theorem textChars_nil_append {r r' : Bool} {u u' : List Char} (h : u = u') :
    textChars r [] ++ u = textChars r' [] ++ u' := by
  have hnil : ∀ b : Bool, textChars b [] = [] := by decide
  rw [hnil, hnil, h]

/-- Escaping makes no text shorter. -/
theorem length_le_flatMap_textEntity (l : List Char) : l.length ≤ (l.flatMap textEntity).length := by
  induction l with
  | nil => exact Nat.le_refl _
  | cons c l ih =>
    have hc := List.length_pos_iff.mpr (separates_textEntity.ne_nil c)
    rw [List.flatMap_cons, List.length_append, List.length_cons]
    omega

/-- If a text reads the same raw and escaped up to some tag, there is nothing to escape in it: at an angle
    bracket of its own the raw text would end too early. -/
theorem eq_escaped_of_append {l u v : List Char}
    (h : l ++ '<' :: u = l.flatMap textEntity ++ '<' :: v) : l = l.flatMap textEntity ∧ u = v := by
  have hne : ∀ {k : List Char}, '<' ∉ k → ∀ c ∈ k, decide (c = '<') = false := by
    rintro k hk c hc
    refine decide_eq_false ?_
    rintro rfl
    exact hk hc
  have he := hne (not_mem_flatMap_textEntity l)
  by_cases hl : '<' ∈ l
  · obtain ⟨a, b, hab, ha⟩ := List.eq_append_cons_of_mem hl
    have hsplit : a ++ '<' :: (b ++ '<' :: u) = l.flatMap textEntity ++ '<' :: v := by
      rw [← h, hab, List.append_assoc, List.cons_append]
    obtain ⟨hae, _⟩ := Fragment.span_unique (p := fun c => decide (c = '<')) (hne ha) he rfl rfl hsplit
    have hlen := length_le_flatMap_textEntity l
    rw [← hae, hab, List.length_append, List.length_cons] at hlen
    omega
  · obtain ⟨hle, hv⟩ := Fragment.span_unique (p := fun c => decide (c = '<')) (hne hl) he rfl rfl h
    exact ⟨hle, (List.cons.inj hv).2⟩

/-- **A text in front of a tag is written alike, or the markup differs.** -/
theorem textChars_unique {r r' : Bool} {l u v : List Char}
    (h : textChars r l ++ '<' :: u = textChars r' l ++ '<' :: v) :
    textChars r l = textChars r' l ∧ u = v := by
  cases r <;> cases r'
  case true.true => exact ⟨rfl, (List.cons.inj (List.append_cancel_left h)).2⟩
  case false.false => exact ⟨rfl, (List.cons.inj (List.append_cancel_left h)).2⟩
  case true.false => exact eq_escaped_of_append h
  case false.true =>
    obtain ⟨hl, hu⟩ := eq_escaped_of_append h.symm
    exact ⟨hl.symm, hu.symm⟩

theorem eq_escaped_append_iff {a b : List Char} :
    a ++ b = (a ++ b).flatMap textEntity ↔
      a = a.flatMap textEntity ∧ b = b.flatMap textEntity := by
  rw [List.flatMap_append]
  constructor
  · intro h
    have ha := length_le_flatMap_textEntity a
    have hb := length_le_flatMap_textEntity b
    have hl := congrArg List.length h
    rw [List.length_append, List.length_append] at hl
    exact List.append_inj h (by omega)
  · rintro ⟨ha, hb⟩
    rw [← ha, ← hb]

/-- A text in two parts is written alike if both parts are. -/
theorem textChars_append_iff {r r' : Bool} {a b : List Char} :
    textChars r (a ++ b) = textChars r' (a ++ b) ↔
      textChars r a = textChars r' a ∧ textChars r b = textChars r' b := by
  cases r <;> cases r'
  case true.true => exact ⟨fun _ => ⟨rfl, rfl⟩, fun _ => rfl⟩
  case false.false => exact ⟨fun _ => ⟨rfl, rfl⟩, fun _ => rfl⟩
  case true.false => exact eq_escaped_append_iff
  case false.true =>
    rw [eq_comm, eq_comm (a := textChars false a), eq_comm (a := textChars false b)]
    exact eq_escaped_append_iff

theorem toList_writeText (p : Option Label) (s : String) :
    (Label.writeText p s).toList = textChars (p.any Label.isRawText) s.toList := by
  rw [Label.writeText, textChars]
  cases p.any Label.isRawText with
  | true => rfl
  | false => exact toList_escapeText s

theorem sameText_iff {p p' : Option Label} {s : String} : Label.sameText p p' s = true ↔
    textChars (p.any Label.isRawText) s.toList = textChars (p'.any Label.isRawText) s.toList := by
  have he : escapeText s = s ↔ s.toList.flatMap textEntity = s.toList := by
    rw [← String.toList_inj, toList_escapeText]
  unfold Label.sameText
  cases p.any Label.isRawText <;> cases p'.any Label.isRawText <;>
    simp [textChars, he, eq_comm]

end Markup

/-! ## 3. Trees that look alike -/

namespace Tree

theorem toList_write_element (p : Option Label) (l : Label) (ts : List Tree) (u : List Char) :
    ((element l ts).write p).toList ++ u = (startTag l.tagName l.attributes).toList ++
      if l.isVoid then u
      else (writeAll (some l) ts).toList ++ '<' :: ('/' :: l.tagName.toList ++ '>' :: u) := by
  rw [write]
  by_cases hv : l.isVoid = true
  · rw [if_pos hv, if_pos hv]
  · rw [if_neg hv, if_neg hv, String.toList_append, String.toList_append, toList_endTag]
    simp only [List.append_assoc, List.cons_append, List.nil_append]

/-- Rows of trees that look alike, tree by tree. -/
inductive AlikeRows : List Tree → List Tree → Prop where
  | nil : AlikeRows [] []
  | text {s : String} {ts ts' : List Tree} (hts : AlikeRows ts ts') :
      AlikeRows (text s :: ts) (text s :: ts')
  | element {l l' : Label} {cs cs' ts ts' : List Tree} (hl : l.alike l' = true)
      (hcs : AlikeRows cs cs') (hts : AlikeRows ts ts') :
      AlikeRows (element l cs :: ts) (element l' cs' :: ts')

theorem alikeRows_of_alikeAll : ∀ {ts ts' : List Tree}, alikeAll ts ts' = true → AlikeRows ts ts'
  | [], [], _ => .nil
  | text s :: ts, text s' :: ts', h => by
    simp only [alikeAll, alike, Bool.and_eq_true, decide_eq_true_eq] at h
    rw [h.1]
    exact .text (alikeRows_of_alikeAll h.2)
  | element l cs :: ts, element l' cs' :: ts', h => by
    simp only [alikeAll, alike, Bool.and_eq_true] at h
    exact .element h.1.1 (alikeRows_of_alikeAll h.1.2) (alikeRows_of_alikeAll h.2)
  | [], _ :: _, h => by simp [alikeAll] at h
  | _ :: _, [], h => by simp [alikeAll] at h
  | document _ :: _, _ :: _, h => by simp [alikeAll, alike] at h
  | text _ :: _, document _ :: _, h => by simp [alikeAll, alike] at h
  | text _ :: _, element _ _ :: _, h => by simp [alikeAll, alike] at h
  | element _ _ :: _, document _ :: _, h => by simp [alikeAll, alike] at h
  | element _ _ :: _, text _ :: _, h => by simp [alikeAll, alike] at h

/-- **Rows that look alike, behind a text and up to a tag: with the same markup every text is written
    alike.** -/
theorem AlikeRows.sameTexts_of_write {ts ts' : List Tree} (h : AlikeRows ts ts')
    {p p' : Option Label} {a u u' : List Char}
    (hw : textChars (p.any Label.isRawText) a ++ ((writeAll p ts).toList ++ '<' :: u) =
      textChars (p'.any Label.isRawText) a ++ ((writeAll p' ts').toList ++ '<' :: u')) :
    textChars (p.any Label.isRawText) a = textChars (p'.any Label.isRawText) a ∧
      sameTextsAll p p' ts ts' = true ∧ u = u' := by
  induction h generalizing p p' a u u' with
  | nil =>
    obtain ⟨ha, hu⟩ := textChars_unique hw
    exact ⟨ha, rfl, hu⟩
  | @text s ts ts' _ ih =>
    -- the text joins the one in front
    have hjoin : ∀ (q : Option Label) (rs : List Tree) (v : List Char),
        textChars (q.any Label.isRawText) a ++ ((writeAll q (Tree.text s :: rs)).toList ++ v) =
          textChars (q.any Label.isRawText) (a ++ s.toList) ++ ((writeAll q rs).toList ++ v) := by
      intro q rs v
      rw [writeAll, write, String.toList_append, toList_writeText, textChars_append]
      simp only [List.append_assoc]
    rw [hjoin, hjoin] at hw
    obtain ⟨has, hrest, hu⟩ := ih hw
    obtain ⟨ha, hs⟩ := textChars_append_iff.mp has
    refine ⟨ha, ?_, hu⟩
    rw [sameTextsAll, sameTexts, sameText_iff.mpr hs, hrest]
    rfl
  | @element l l' cs cs' ts ts' hl _ _ ihcs ihts =>
    obtain ⟨_, hn, has⟩ := Label.alike_iff.mp hl
    have hv := Label.isVoid_congr hl
    rw [writeAll, writeAll, String.toList_append, String.toList_append, List.append_assoc,
      List.append_assoc, toList_write_element, toList_write_element, toList_startTag, toList_startTag]
      at hw
    simp only [List.cons_append] at hw
    -- the start tag ends the text in front, and is the same on both sides
    obtain ⟨ha, hw⟩ := textChars_unique hw
    rw [hn, has, ← hv] at hw
    have hw := List.append_cancel_left hw
    rw [sameTextsAll, sameTexts]
    by_cases hvoid : l.isVoid = true
    · rw [if_pos hvoid, if_pos hvoid] at hw
      obtain ⟨_, hrest, hu⟩ := ihts (textChars_nil_append hw)
      refine ⟨ha, ?_, hu⟩
      rw [hvoid, hrest]
      rfl
    · rw [if_neg hvoid, if_neg hvoid] at hw
      -- the end tag ends what is inside
      obtain ⟨_, hin, hw⟩ := ihcs (textChars_nil_append hw)
      have hw := (List.cons.inj (List.append_cancel_left (List.cons.inj hw).2)).2
      obtain ⟨_, hrest, hu⟩ := ihts (textChars_nil_append hw)
      refine ⟨ha, ?_, hu⟩
      rw [hin, hrest, Bool.or_true]
      rfl

/-- **Rows that look alike have the same markup if every text is written alike.** -/
theorem AlikeRows.write_of_sameTexts {ts ts' : List Tree} (h : AlikeRows ts ts')
    {p p' : Option Label} (hs : sameTextsAll p p' ts ts' = true) :
    writeAll p ts = writeAll p' ts' := by
  induction h generalizing p p' with
  | nil => rfl
  | @text s ts ts' _ ih =>
    rw [sameTextsAll, sameTexts, Bool.and_eq_true] at hs
    have ht : Label.writeText p s = Label.writeText p' s := by
      rw [← String.toList_inj, toList_writeText, toList_writeText]
      exact sameText_iff.mp hs.1
    rw [writeAll, writeAll, write, write, ht, ih hs.2]
  | @element l l' cs cs' ts ts' hl _ _ ihcs ihts =>
    obtain ⟨_, hn, has⟩ := Label.alike_iff.mp hl
    rw [sameTextsAll, sameTexts, Bool.and_eq_true, Bool.or_eq_true] at hs
    rw [writeAll, writeAll, write, write, hn, has, ← Label.isVoid_congr hl, ihts hs.2]
    by_cases hvoid : l.isVoid = true
    · rw [if_pos hvoid, if_pos hvoid]
    · rw [if_neg hvoid, if_neg hvoid, ihcs (hs.1.resolve_left hvoid)]

/-- **Trees that look alike have the same markup exactly if every text is written alike.** -/
theorem write_eq_iff {t t' : Tree} (h : t.alike t' = true) (p p' : Option Label) :
    t.write p = t'.write p' ↔ t.sameTexts p p' t' = true := by
  have hrow : AlikeRows [t] [t'] := alikeRows_of_alikeAll (by rw [alikeAll, h]; rfl)
  have hone : ∀ (q : Option Label) (r : Tree), writeAll q [r] = r.write q := fun q r => by
    rw [writeAll, writeAll, String.append_empty]
  have hsame : sameTextsAll p p' [t] [t'] = t.sameTexts p p' t' := by
    rw [sameTextsAll]
    exact Bool.and_true _
  rw [← hone, ← hone, ← hsame]
  refine ⟨fun hw => ?_, hrow.write_of_sameTexts⟩
  have hw' := congrArg (fun s : String => s.toList ++ ['<']) hw
  exact (hrow.sameTexts_of_write (textChars_nil_append hw')).2.1

end Tree

namespace Document

/-! ## 4. Nodes that look alike -/

/-- Elements at the top of trees that look alike are both void or both not. -/
theorem isVoid_congr {d d' : Document} (h : WellFormed d) (h' : WellFormed d') (ht : Tabled d)
    (ht' : Tabled d') {e e' : NodeId} {el el' : Element} (he : d.element? e = some el)
    (he' : d'.element? e' = some el') (ha : (d.tree e).alike (d'.tree e') = true) :
    d.isVoid el = d'.isVoid el' := by
  rw [tree_of_element h ht he, tree_of_element h' ht' he', Tree.alike, Bool.and_eq_true] at ha
  rw [← ht.isVoid_label, ← ht'.isVoid_label]
  exact Label.isVoid_congr ha.1

/-- **Two nodes that look alike, in whichever reachable documents, have the same markup exactly if every text
    in them is written alike.** Else there is a text with something to escape under a raw-text element, by
    its local name, in one of them and not in the other. Whether they are void is the same. -/
theorem outerHtml_eq_iff (calls calls' : List Action) (e e' : NodeId) :
    let d := fresh.after calls
    let d' := fresh.after calls'
    (d.tree e).alike (d'.tree e') = true →
    (d.outerHtml e = d'.outerHtml e' ↔
      (d.tree e).sameTexts (d.parentLabel? e) (d'.parentLabel? e') (d'.tree e') = true) ∧
    ∀ el el', d.element? e = some el → d'.element? e' = some el' → d.isVoid el = d'.isVoid el' := by
  intro d d' ha
  have h : WellFormed d := wellFormed_after calls
  have h' : WellFormed d' := wellFormed_after calls'
  have ht : Tabled d := tabled_after calls
  have ht' : Tabled d' := tabled_after calls'
  refine ⟨?_, fun el el' he he' => isVoid_congr h h' ht ht' he he' ha⟩
  rw [outerHtml_eq h ht, outerHtml_eq h' ht']
  exact Tree.write_eq_iff ha _ _

/-- A name with a colon and one with a prefix, around an element that has a name of raw text under a prefix
    in both documents. -/
theorem outerHtml_eq_iff_colon :
    let d := fresh.after [.createElement "x:p", .createText "<", .append ⟨1⟩ ⟨2⟩,
      .createElementNs (some Namespace.html) "x:script", .createText "&", .append ⟨3⟩ ⟨4⟩,
      .append ⟨1⟩ ⟨3⟩]
    let d' := fresh.after [.createElementNs (some Namespace.html) "x:script", .createText "&",
      .append ⟨1⟩ ⟨2⟩, .createElementNs (some Namespace.html) "x:p", .createText "<",
      .append ⟨3⟩ ⟨4⟩, .append ⟨3⟩ ⟨1⟩]
    (d.tree ⟨1⟩).alike (d'.tree ⟨3⟩) = true ∧ d.outerHtml ⟨1⟩ = d'.outerHtml ⟨3⟩ ∧
      d.outerHtml ⟨1⟩ = "<x:p>&lt;<x:script>&</x:script></x:p>" := by
  intro d d'
  have ha : (d.tree ⟨1⟩).alike (d'.tree ⟨3⟩) = true := by decide +kernel
  exact ⟨ha, (outerHtml_eq_iff _ _ ⟨1⟩ ⟨3⟩ ha).1.mpr (by decide +kernel), by decide +kernel⟩

/-- **A name that is stored with a colon or with a prefix decides whether text is escaped**: the two elements
    look alike, and only the second is a raw-text element. -/
theorem outerHtml_ne_script :
    let d := fresh.after [.createElement "x:script", .createText "<", .append ⟨1⟩ ⟨2⟩,
      .createElementNs (some Namespace.html) "x:script", .createText "<", .append ⟨3⟩ ⟨4⟩]
    (d.element? ⟨1⟩).isSome = true ∧ (d.element? ⟨3⟩).isSome = true ∧
      (d.tree ⟨1⟩).alike (d.tree ⟨3⟩) = true ∧ d.outerHtml ⟨1⟩ ≠ d.outerHtml ⟨3⟩ ∧
      d.outerHtml ⟨1⟩ = "<x:script>&lt;</x:script>" ∧
      d.outerHtml ⟨3⟩ = "<x:script><</x:script>" := by
  decide +kernel

end Document

end DomBuilder
