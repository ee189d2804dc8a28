import DomBuilder.Json.Reading

/-!
# JSON strings

This file fixes how a string is written, and how its text is read after the opening quotation mark:

* writing escapes the quotation mark, the backslash and the controls below the space, with a letter
  where there is one and with four lowercase hexadecimal digits otherwise;
* reading accepts every escape of the standard. A character beyond the basic plane may be written as
  a pair of surrogate escapes; a surrogate without its partner is malformed;
* skipping checks the form of the escapes alone, so there a lone surrogate passes.

An escape of four digits is cut short if fewer than four bytes of the text are left, and malformed
if there are four bytes that are not all hexadecimal digits.
-/

namespace DomBuilder.Json

/-! ## 1. Writing -/

/-- The written form of one character. -/
def escape (c : Char) : List Char :=
  if c = '"' then ['\\', '"']
  else if c = '\\' then ['\\', '\\']
  else if c = '\x08' then ['\\', 'b']
  else if c = '\t' then ['\\', 't']
  else if c = '\n' then ['\\', 'n']
  else if c = '\x0c' then ['\\', 'f']
  else if c = '\r' then ['\\', 'r']
  else if c.toNat < 0x20 then
    ['\\', 'u', '0', '0', Nat.digitChar (c.toNat / 16), Nat.digitChar (c.toNat % 16)]
  else [c]

/-- A string with its quotation marks. -/
def writeString (s : String) : List Char := '"' :: s.toList.flatMap escape ++ ['"']

/-! ## 2. Escapes -/

def hexDigit? (c : Char) : Option Nat :=
  if '0' ≤ c ∧ c ≤ '9' then some (c.toNat - '0'.toNat)
  else if 'a' ≤ c ∧ c ≤ 'f' then some (c.toNat - 'a'.toNat + 10)
  else if 'A' ≤ c ∧ c ≤ 'F' then some (c.toNat - 'A'.toNat + 10)
  else none

/-- The number that hexadecimal digits write. -/
def hexValue? (cs : List Char) : Option Nat :=
  cs.foldl (fun acc c => return 16 * (← acc) + (← hexDigit? c)) (some 0)

/-- Four hexadecimal digits. Four characters are at least four bytes, so no more are counted. -/
def readHex4 (s : List Char) : Reading Nat :=
  if (String.ofList (s.take 4)).utf8ByteSize < 4 then .error .truncated
  else
    match s with
    | a :: b :: c :: d :: r =>
      match hexValue? [a, b, c, d] with
      | some n => .ok (n, r)
      | none => .error .malformed
    | _ => .error .malformed

/-- The character of an escape of one letter. -/
def letterEscape? (c : Char) : Option Char :=
  if c = '"' ∨ c = '\\' ∨ c = '/' then some c
  else if c = 'b' then some '\x08'
  else if c = 'f' then some '\x0c'
  else if c = 'n' then some '\n'
  else if c = 'r' then some '\r'
  else if c = 't' then some '\t'
  else none

def isLeadSurrogate (n : Nat) : Bool := 0xD800 ≤ n && n ≤ 0xDBFF

def isTrailSurrogate (n : Nat) : Bool := 0xDC00 ≤ n && n ≤ 0xDFFF

/-- The character that a pair of surrogates stands for. -/
def joinSurrogates (lead trail : Nat) : Char :=
  Char.ofNat (0x10000 + (lead - 0xD800) * 0x400 + (trail - 0xDC00))

/-- The character after `\u`: four digits, or two times four for a pair of surrogates. -/
def readUnicodeEscape (s : List Char) : Reading Char :=
  match readHex4 s with
  | .error e => .error e
  | .ok (n, r) =>
    if isTrailSurrogate n then .error .malformed
    else if !isLeadSurrogate n then .ok (Char.ofNat n, r)
    else
      match expectWord ['\\', 'u'] r with
      | .error e => .error e
      | .ok r' =>
        match readHex4 r' with
        | .error e => .error e
        | .ok (n', r'') =>
          if isTrailSurrogate n' then .ok (joinSurrogates n n', r'') else .error .malformed

/-- The character after a backslash. -/
def readEscape : List Char → Reading Char
  | [] => .error .truncated
  | c :: r =>
    if c = 'u' then readUnicodeEscape r
    else
      match letterEscape? c with
      | some x => .ok (x, r)
      | none => .error .malformed

/-- Passes over what follows a backslash. -/
def skipEscape : List Char → Except Fault (List Char)
  | [] => .error .truncated
  | c :: r =>
    if c = 'u' then
      match readHex4 r with
      | .error e => .error e
      | .ok (_, r') => .ok r'
    else
      match letterEscape? c with
      | some _ => .ok r
      | none => .error .malformed

/-! ## 3. Escapes shorten the text -/

theorem length_of_readHex4 {s r : List Char} {n : Nat} (h : readHex4 s = .ok (n, r)) :
    r.length < s.length := by
  unfold readHex4 at h
  grind

theorem length_of_readUnicodeEscape {s r : List Char} {c : Char}
    (h : readUnicodeEscape s = .ok (c, r)) : r.length < s.length := by
  unfold readUnicodeEscape at h
  split at h
  · simp at h
  · rename_i n r₁ h₁
    have := length_of_readHex4 h₁
    split at h
    · simp at h
    · split at h
      · simp_all
      · split at h
        · simp at h
        · rename_i r₂ h₂
          have := congrArg List.length (eq_append_of_expectWord h₂)
          split at h
          · simp at h
          · rename_i n' r₃ h₃
            have := length_of_readHex4 h₃
            split at h
            · simp at h
              simp at *
              grind
            · simp at h

theorem length_of_readEscape {s r : List Char} {c : Char} (h : readEscape s = .ok (c, r)) :
    r.length < s.length := by
  cases s with
  | nil => simp [readEscape] at h
  | cons x s =>
    simp only [readEscape] at h
    split at h
    · have := length_of_readUnicodeEscape h
      simp only [List.length_cons]
      omega
    · split at h <;> simp_all

theorem length_of_skipEscape {s r : List Char} (h : skipEscape s = .ok r) :
    r.length < s.length := by
  cases s with
  | nil => simp [skipEscape] at h
  | cons x s =>
    simp only [skipEscape] at h
    split at h
    · split at h
      · simp at h
      · rename_i hr
        have := length_of_readHex4 hr
        simp_all
        omega
    · split at h <;> simp_all

/-! ## 4. The text of a string -/

/-- Reads up to the closing quotation mark. -/
def readBody (s : List Char) : Reading (List Char) :=
  match s with
  | [] => .error .truncated
  | c :: r =>
    if c = '"' then .ok ([], r)
    else if c = '\\' then
      match h : readEscape r with
      | .error e => .error e
      | .ok (x, r') =>
        have := length_of_readEscape h
        match readBody r' with
        | .error e => .error e
        | .ok (xs, rest) => .ok (x :: xs, rest)
    else if c.toNat < 0x20 then .error .malformed
    else
      match readBody r with
      | .error e => .error e
      | .ok (xs, rest) => .ok (c :: xs, rest)
termination_by s.length

/-- Passes over everything up to the closing quotation mark. -/
def skipBody (s : List Char) : Except Fault (List Char) :=
  match s with
  | [] => .error .truncated
  | c :: r =>
    if c = '"' then .ok r
    else if c = '\\' then
      match h : skipEscape r with
      | .error e => .error e
      | .ok r' =>
        have := length_of_skipEscape h
        skipBody r'
    else if c.toNat < 0x20 then .error .malformed
    else skipBody r
termination_by s.length

theorem length_of_readBody {s r cs : List Char} (h : readBody s = .ok (cs, r)) :
    r.length < s.length := by
  fun_induction readBody s generalizing cs r with
  | case1 => simp at h
  | case2 => simp_all
  | case3 => simp at h
  | case4 => simp at h
  | case5 t x t' hx hlt xs rest hr _ ih =>
    obtain ⟨-, rfl⟩ : x :: xs = cs ∧ rest = r := by simpa using h
    have := ih hr
    simp only [List.length_cons]
    omega
  | case6 => simp at h
  | case7 => simp at h
  | case8 c t _ _ _ xs rest hr ih =>
    obtain ⟨-, rfl⟩ : c :: xs = cs ∧ rest = r := by simpa using h
    have := ih hr
    simp only [List.length_cons]
    omega

theorem length_of_skipBody {s r : List Char} (h : skipBody s = .ok r) : r.length < s.length := by
  fun_induction skipBody s with
  | case1 => simp at h
  | case2 => simp_all
  | case3 => simp at h
  | case4 t t' hr hlt _ ih =>
    have := ih h
    simp only [List.length_cons]
    omega
  | case5 => simp at h
  | case6 c t _ _ _ ih =>
    have := ih h
    simp only [List.length_cons]
    omega

end DomBuilder.Json
