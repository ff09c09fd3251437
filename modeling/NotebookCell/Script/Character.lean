/-!
# Character classes of script text

The lexical grammar tells apart blanks, line breaks and the characters of names. Three sets of
"white space" meet here and differ: `isBlank` separates tokens, `isLineBreak` can end a statement
without a semicolon, and `isSpacing` is what the search for that line break passes over.
-/

namespace NotebookCell.Script

/-- The code point of `c` lies between `low` and `high`, both included. -/
def inRange (low high : Nat) (c : Char) : Bool :=
  decide (low ≤ c.toNat) && decide (c.toNat ≤ high)

/-- The line breaks that end a statement: line feed, line separator, paragraph separator. -/
def isLineBreak (c : Char) : Bool :=
  c == '\n' || c == '\u2028' || c == '\u2029'

/-- The space separators. -/
def isSpaceSeparator (c : Char) : Bool :=
  c == ' ' || c == '\u00a0' || c == '\u1680' || inRange 0x2000 0x200a c || c == '\u202f' ||
    c == '\u205f' || c == '\u3000'

/-- The characters between tokens: controls from tab to carriage return, space separators, line
breaks, and the zero-width marks U+200B, U+2060 and U+FEFF. -/
def isBlank (c : Char) : Bool :=
  inRange 0x09 0x0d c || isSpaceSeparator c || isLineBreak c || c == '\u200b' ||
    c == '\u2060' || c == '\ufeff'

/-- The characters skipped while looking for a line break: those blanks that allow a break, so no
no-break space and no zero-width mark. -/
def isSpacing (c : Char) : Bool :=
  inRange 0x09 0x0d c || isLineBreak c ||
    (isSpaceSeparator c && c != '\u00a0' && c != '\u2007' && c != '\u202f')

/-- The ASCII characters that are no part of a name: controls and punctuation other than `$`
and `_`. -/
def isPunctuation (c : Char) : Bool :=
  inRange 0x00 0x20 c || inRange 0x21 0x23 c || inRange 0x25 0x2f c || inRange 0x3a 0x40 c ||
    inRange 0x5b 0x5e c || c == '\x60' || inRange 0x7b 0x7e c

/-- A character that can continue a name. Everything beyond ASCII that is no blank can. -/
def isNamePart (c : Char) : Bool :=
  !isPunctuation c && !isBlank c

/-- A character that can begin a name. -/
def isNameStart (c : Char) : Bool :=
  isNamePart c && !c.isDigit

/-- A letter, for telling the words `in` and `instanceof` from longer ones. -/
def isLetter (c : Char) : Bool :=
  c.isAlpha || (decide (0x80 ≤ c.toNat) && isNamePart c)

/-- A hexadecimal digit. -/
def isHexDigit (c : Char) : Bool :=
  c.isDigit || inRange 0x41 0x46 c || inRange 0x61 0x66 c

/-- An octal digit. -/
def isOctalDigit (c : Char) : Bool :=
  inRange 0x30 0x37 c

end NotebookCell.Script
