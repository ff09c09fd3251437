/-!
# White space around a text

The white space that is taken off the ends of a cell: every Unicode separator and the control
characters that end lines or separate records. Zero-width characters are not white space here.
-/

namespace NotebookCell.Text

/-- Whether a character is white space at the end of a text. -/
def isWhite (c : Char) : Bool :=
  ('\t' ≤ c && c ≤ '\r') || ('\x1c' ≤ c && c ≤ ' ') || c == '\x85' || c == '\xa0' ||
    c == '\u1680' || ('\u2000' ≤ c && c ≤ '\u200a') || c == '\u2028' || c == '\u2029' ||
    c == '\u202f' || c == '\u205f' || c == '\u3000'

/-- The text without white space at its start. -/
def trimStart (text : List Char) : List Char :=
  text.dropWhile isWhite

/-- The text without white space at its end. -/
def trimEnd (text : List Char) : List Char :=
  (text.reverse.dropWhile isWhite).reverse

/-- The text without white space at either end. -/
def trim (text : List Char) : List Char :=
  trimEnd (trimStart text)

end NotebookCell.Text
