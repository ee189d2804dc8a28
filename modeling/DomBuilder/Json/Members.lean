import DomBuilder.Json.Skipped

/-!
# Strings, and objects of strings

This file fixes how the values that a configuration holds are read, each after any blanks:

* `readString`: a string;
* `readOption`: a string or null;
* `readKey`: the next key of an object, or its end;
* `readObject`: an object whose values are strings, as its members in order.

A value of another type is refused with the fault of `wrongType`.
-/

namespace DomBuilder.Json

/-! ## 1. Strings -/

/-- A string that has to start at once. -/
def readQuoted (s : List Char) : Reading String :=
  match expect '"' s with
  | .error e => .error e
  | .ok r =>
    match readBody r with
    | .error e => .error e
    | .ok (cs, r') => .ok (String.ofList cs, r')

/-- A string. -/
def readString (s : List Char) : Reading String :=
  match skipBlanks s with
  | '"' :: r => readQuoted ('"' :: r)
  | t => .error (wrongType t)

/-- A string or null. -/
def readOption (s : List Char) : Reading (Option String) :=
  match skipBlanks s with
  | 'n' :: r =>
    match expectWord ['u', 'l', 'l'] r with
    | .error e => .error e
    | .ok r' => .ok (none, r')
  | t =>
    match readString t with
    | .error e => .error e
    | .ok (x, r) => .ok (some x, r)

theorem length_of_readQuoted {s r : List Char} {x : String} (h : readQuoted s = .ok (x, r)) :
    r.length < s.length := by
  unfold readQuoted at h
  split at h
  · simp at h
  · rename_i h₁
    split at h
    · simp at h
    · rename_i h₂
      have h1 := congrArg List.length (eq_cons_of_expect h₁)
      have h2 := length_of_readBody h₂
      simp only [Except.ok.injEq, Prod.mk.injEq] at h
      rw [← h.2]
      simp only [List.length_cons] at h1
      omega

theorem length_of_readString {s r : List Char} {x : String} (h : readString s = .ok (x, r)) :
    r.length < s.length := by
  unfold readString at h
  split at h
  · rename_i hs
    have h1 := length_of_readQuoted h
    have h2 := length_of_skipBlanks hs
    simp only [List.length_cons] at h1
    omega
  · simp at h

theorem length_of_readOption {s r : List Char} {x : Option String}
    (h : readOption s = .ok (x, r)) : r.length < s.length := by
  unfold readOption at h
  split at h
  · rename_i hs
    split at h
    · simp at h
    · rename_i hw
      have h1 := length_of_skipBlanks hs
      have h2 := congrArg List.length (eq_append_of_expectWord hw)
      simp only [Except.ok.injEq, Prod.mk.injEq] at h
      rw [← h.2]
      simp only [List.length_append] at h2
      omega
  · split at h
    · simp at h
    · rename_i hr
      have h1 := length_skipBlanks_le s
      have h2 := length_of_readString hr
      simp only [Except.ok.injEq, Prod.mk.injEq] at h
      rw [← h.2]
      omega

/-! ## 2. Members -/

/-- The next key of an object, or nothing at its closing bracket. A key other than the first follows
    a comma, and a comma is followed by a key. -/
def readKey (first : Bool) (s : List Char) : Reading (Option String) :=
  match skipBlanks s with
  | [] => .error .truncated
  | c :: r =>
    if c = '\x7d' then .ok (none, r)
    else if !first && c ≠ ',' then .error .malformed
    else
      match readQuoted (if first then c :: r else skipBlanks r) with
      | .error e => .error e
      | .ok (k, r') => .ok (some k, r')

theorem length_of_readKey {first : Bool} {s r : List Char} {k : Option String}
    (h : readKey first s = .ok (k, r)) : r.length < s.length := by
  unfold readKey at h
  split at h
  · simp at h
  · rename_i c t hs
    have h1 := length_of_skipBlanks hs
    split at h
    · simp_all
    · split at h
      · simp at h
      · split at h
        · simp at h
        · rename_i hq
          have h2 := length_of_readQuoted hq
          have h3 := length_skipBlanks_le t
          simp only [Except.ok.injEq, Prod.mk.injEq] at h
          rw [← h.2]
          cases first
          · simp only [Bool.false_eq_true, if_false] at h2
            omega
          · simp only [if_true, List.length_cons] at h2
            omega

/-- The members of an object of strings, after its opening bracket. -/
def readMembers (first : Bool) (s : List Char) : Reading (List (String × String)) :=
  match hk : readKey first s with
  | .error e => .error e
  | .ok (none, r) => .ok ([], r)
  | .ok (some k, r) =>
    have := length_of_readKey hk
    match hc : expectColon r with
    | .error e => .error e
    | .ok r₁ =>
      have := length_of_expectColon hc
      match hv : readString r₁ with
      | .error e => .error e
      | .ok (v, r₂) =>
        have := length_of_readString hv
        match readMembers false r₂ with
        | .error e => .error e
        | .ok (ms, rest) => .ok ((k, v) :: ms, rest)
termination_by s.length

/-- An object of strings. -/
def readObject (s : List Char) : Reading (List (String × String)) :=
  match skipBlanks s with
  | '\x7b' :: r => readMembers true r
  | t => .error (wrongType t)

theorem length_of_readMembers {first : Bool} {s r : List Char} {ms : List (String × String)}
    (h : readMembers first s = .ok (ms, r)) : r.length < s.length := by
  fun_induction readMembers first s generalizing ms r with
  | case1 | case3 | case4 | case5 => simp at h
  | case2 first s t hk =>
    have := length_of_readKey hk
    simp_all
  | case6 first s k t hk _ t₁ hc _ v t₂ hv _ ms' rest hm ih =>
    obtain ⟨-, rfl⟩ : (k, v) :: ms' = ms ∧ rest = r := by simpa using h
    have := ih hm
    omega

theorem length_of_readObject {s r : List Char} {ms : List (String × String)}
    (h : readObject s = .ok (ms, r)) : r.length < s.length := by
  unfold readObject at h
  split at h
  · rename_i hs
    have h1 := length_of_skipBlanks hs
    have h2 := length_of_readMembers h
    omega
  · simp at h

end DomBuilder.Json
