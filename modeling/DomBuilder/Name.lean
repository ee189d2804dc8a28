import DomBuilder.DomError

/-!
# Names

Tags and attributes are named by XML names. This file fixes the production `Name`:

* `isStart`, `isChar`: the characters that may begin a name, and those that may go on;
* `isValid`: a name begins with one of the former and goes on with the latter, so it is not empty;
* `check`: the same as a test that names its cause.

A colon is an ordinary name character here; what it separates is the subject of
`Name/Qualified.lean`.
-/

namespace DomBuilder.Name

/-! ## 1. Characters -/

/-- Code points that begin a name, ends included. -/
def startRanges : List (Nat × Nat) := [
  (0x3a, 0x3a), (0x41, 0x5a), (0x5f, 0x5f), (0x61, 0x7a), (0xc0, 0xd6), (0xd8, 0xf6),
  (0xf8, 0x2ff), (0x370, 0x37d), (0x37f, 0x1fff), (0x200c, 0x200d), (0x2070, 0x218f),
  (0x2c00, 0x2fef), (0x3001, 0xd7ff), (0xf900, 0xfdcf), (0xfdf0, 0xfffd), (0x10000, 0xeffff)]

/-- Code points that may stand in a name, but not at its beginning. -/
def innerRanges : List (Nat × Nat) := [
  (0x2d, 0x2e), (0x30, 0x39), (0xb7, 0xb7), (0x300, 0x36f), (0x203f, 0x2040)]

/-- The code point of `c` lies in one of the ranges. -/
def within (ranges : List (Nat × Nat)) (c : Char) : Bool :=
  ranges.any fun (lo, hi) => lo ≤ c.toNat && c.toNat ≤ hi

def isStart (c : Char) : Bool := within startRanges c

def isChar (c : Char) : Bool := isStart c || within innerRanges c

/-! ## 2. Names -/

/-- The production `Name` on characters. -/
def isName : List Char → Bool
  | [] => false
  | c :: r => isStart c && r.all isChar

/-- The production `Name`. -/
def isValid (s : String) : Bool := isName s.toList

/-- Accepts exactly the valid names. -/
def check (s : String) : Except DomError Unit :=
  if isValid s then .ok () else .error (.invalidCharacter s)

@[simp] theorem isName_nil : isName [] = false := rfl

@[simp] theorem isName_cons (c : Char) (r : List Char) :
    isName (c :: r) = (isStart c && r.all isChar) := rfl

@[simp] theorem check_eq_ok_iff (s : String) : check s = .ok () ↔ isValid s = true := by
  simp [check]

end DomBuilder.Name
