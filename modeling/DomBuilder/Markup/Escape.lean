/-!
# Escaping

In markup some characters would be read as something else. This file fixes what is written for
them:

* in text, the ampersand, both angle brackets and the no-break space;
* in an attribute value, which stands between quotation marks, the ampersand, the quotation mark and
  the no-break space.
-/

namespace DomBuilder.Markup

/-- The no-break space, U+00A0. -/
def noBreakSpace : Char := '\u00a0'

def textEntity (c : Char) : List Char :=
  if c = '&' then ['&', 'a', 'm', 'p', ';']
  else if c = '<' then ['&', 'l', 't', ';']
  else if c = '>' then ['&', 'g', 't', ';']
  else if c = noBreakSpace then ['&', 'n', 'b', 's', 'p', ';']
  else [c]

def valueEntity (c : Char) : List Char :=
  if c = '&' then ['&', 'a', 'm', 'p', ';']
  else if c = '"' then ['&', 'q', 'u', 'o', 't', ';']
  else if c = noBreakSpace then ['&', 'n', 'b', 's', 'p', ';']
  else [c]

/-- Text between tags. -/
def escapeText (s : String) : String := String.ofList (s.toList.flatMap textEntity)

/-- The value of an attribute. -/
def escapeValue (s : String) : String := String.ofList (s.toList.flatMap valueEntity)

@[simp] theorem toList_escapeText (s : String) :
    (escapeText s).toList = s.toList.flatMap textEntity := by
  simp [escapeText]

@[simp] theorem toList_escapeValue (s : String) :
    (escapeValue s).toList = s.toList.flatMap valueEntity := by
  simp [escapeValue]

end DomBuilder.Markup
