import DomBuilder.Text.Printable

/-!
# Quoted text

Messages show a text between quotation marks, so that its ends and every odd character in it can be
seen. This file fixes the form:

* a quotation mark and a backslash follow a backslash;
* tab, carriage return, line feed and NUL have a letter of their own;
* any other character that is not shown as itself is written as its code point in lowercase
  hexadecimal, between braces and without leading zeros;
* all else, the apostrophe included, stands for itself.
-/

namespace DomBuilder.Text

/-- The quoted form of one character. -/
def quoteChar (c : Char) : List Char :=
  if c = '"' then ['\\', '"']
  else if c = '\\' then ['\\', '\\']
  else if c = '\t' then ['\\', 't']
  else if c = '\r' then ['\\', 'r']
  else if c = '\n' then ['\\', 'n']
  else if c = '\x00' then ['\\', '0']
  else if isVisible c then [c]
  else ['\\', 'u', '\x7b'] ++ Nat.toDigits 16 c.toNat ++ ['\x7d']

/-- A text in quotation marks. -/
def quote (s : String) : String :=
  String.ofList ('"' :: s.toList.flatMap quoteChar ++ ['"'])

/-- A text that may be missing: messages name the absence. -/
def quoteOption : Option String → String
  | none => "None"
  | some s => "Some(" ++ quote s ++ ")"

end DomBuilder.Text
