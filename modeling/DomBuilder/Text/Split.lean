/-!
# Cutting a text at a separator

A qualified name is cut at its first colon, an attribute key at its last. This file fixes both
cuts on lists of characters, where their laws are inductions, and lifts them to strings:

* `cutFirst x cs` and `cutLast x cs` give the two sides of one occurrence of `x`, or nothing when
  `x` does not occur;
* joining the sides around `x` gives `cs` back;
* the separator is absent before the first cut and after the last one.
-/

namespace DomBuilder.Text

/-! ## 1. On characters -/

/-- The sides of the first `x`. -/
def cutFirst (x : Char) : List Char → Option (List Char × List Char)
  | [] => none
  | c :: r => if c = x then some ([], r) else (cutFirst x r).map fun (a, b) => (c :: a, b)

/-- The sides of the last `x`. -/
def cutLast (x : Char) : List Char → Option (List Char × List Char)
  | [] => none
  | c :: r =>
    match cutLast x r with
    | some (a, b) => some (c :: a, b)
    | none => if c = x then some ([], r) else none

/-- No first cut means no separator. -/
theorem cutFirst_eq_none_iff (x : Char) (cs : List Char) : cutFirst x cs = none ↔ x ∉ cs := by
  induction cs with
  | nil => simp [cutFirst]
  | cons c r ih =>
    by_cases h : c = x
    · simp [cutFirst, h]
    · simp [cutFirst, h, ih, Ne.symm h]

/-- The first cut is found exactly where the text reads `a`, `x`, `b` with no `x` in `a`. -/
theorem cutFirst_eq_some_iff (x : Char) (cs a b : List Char) :
    cutFirst x cs = some (a, b) ↔ cs = a ++ x :: b ∧ x ∉ a := by
  induction cs generalizing a with
  | nil => simp [cutFirst]
  | cons c r ih =>
    by_cases h : c = x
    · subst h
      cases a with
      | nil => simp [cutFirst]
      | cons y a =>
        simp only [cutFirst, if_true, Option.some.injEq, Prod.mk.injEq, List.cons_append]
        grind
    · cases a with
      | nil => simp [cutFirst, h]
      | cons y a =>
        have := ih a
        simp only [cutFirst, h, if_false, Option.map_eq_some_iff]
        grind

/-- No last cut means no separator. -/
theorem cutLast_eq_none_iff (x : Char) (cs : List Char) : cutLast x cs = none ↔ x ∉ cs := by
  induction cs with
  | nil => simp [cutLast]
  | cons c r ih => grind [cutLast]

/-- The last cut is found exactly where the text reads `a`, `x`, `b` with no `x` in `b`. -/
theorem cutLast_eq_some_iff (x : Char) (cs a b : List Char) :
    cutLast x cs = some (a, b) ↔ cs = a ++ x :: b ∧ x ∉ b := by
  induction cs generalizing a b with
  | nil => simp [cutLast]
  | cons c r ih =>
    cases h : cutLast x r with
    | none =>
      have hx := (cutLast_eq_none_iff x r).1 h
      cases a <;> simp only [cutLast, h] <;> grind
    | some p =>
      obtain ⟨u, v⟩ := p
      have huv := (ih u v).1 h
      cases a with
      | nil =>
        simp only [cutLast, h]
        grind
      | cons y a =>
        have := ih a b
        simp only [cutLast, h]
        grind

/-! ## 2. On strings -/

/-- The two sides of the first `x` in `s`. -/
def splitFirst (x : Char) (s : String) : Option (String × String) :=
  (cutFirst x s.toList).map fun (a, b) => (String.ofList a, String.ofList b)

/-- The two sides of the last `x` in `s`. -/
def splitLast (x : Char) (s : String) : Option (String × String) :=
  (cutLast x s.toList).map fun (a, b) => (String.ofList a, String.ofList b)

end DomBuilder.Text
