import NotebookCell.Script.Semicolon

/-!
# Names and reserved words

A word is the longest run of name characters and Unicode escapes. The grammar keeps it as written,
so an escaped spelling is a different name. Reserved words name nothing except properties; all
other keywords are words whose meaning depends on their place.
-/

namespace NotebookCell.Script

open NotebookCell.Tree

/-- The number of characters of the Unicode escape at the start of the text, `\uXXXX` or
`\u` with braces; zero where there is none. -/
def escapeLength : List Char → Nat
  | '\\' :: 'u' :: '\x7b' :: text =>
    let digits := (text.takeWhile isHexDigit).length
    if digits > 0 && (text.drop digits).head? == some '\x7d' then digits + 4 else 0
  | '\\' :: 'u' :: a :: b :: c :: d :: _ => if [a, b, c, d].all isHexDigit then 6 else 0
  | _ => 0

/-- The number of characters of the longest run of characters in `part` and Unicode escapes. The
first argument bounds the number of steps. -/
def nameLength (part : Char → Bool) : List Char → List Char → Nat
  | _ :: bound, c :: text =>
    if part c then 1 + nameLength part bound text
    else
      let escape := escapeLength (c :: text)
      if escape == 0 then 0 else escape + nameLength part bound ((c :: text).drop escape)
  | _, _ => 0

/-- The number of characters of the word at the start of the text; zero where there is none. -/
def wordLength (text : List Char) : Nat :=
  match text with
  | [] => 0
  | c :: _ => if c.isDigit then 0 else nameLength isNamePart text text

/-- The words that can name nothing but a property. -/
def reservedWords : List String :=
  ["break", "case", "catch", "class", "const", "continue", "debugger", "default", "delete", "do",
    "else", "export", "extends", "false", "finally", "for", "function", "if", "import", "in",
    "instanceof", "new", "null", "return", "super", "switch", "this", "throw", "true", "try",
    "typeof", "var", "void", "while", "with"]

namespace Cursor

/-- The word at the cursor; empty where there is none. -/
def word (c : Cursor) : String :=
  String.ofList (c.rest.take (wordLength c.rest))

/-- Whether the given word, and no longer one, is at the cursor. -/
def seesWord (c : Cursor) (text : String) : Bool := c.word == text

end Cursor

namespace Parser

/-- Reads a word of any meaning as a node of the given kind. -/
def word (kind : Kind) : Parser Node := do
  let c ← get
  let length := wordLength c.rest
  require (length != 0)
  let after := c.skip length
  set after
  return { kind, start := c.pos, stop := after.pos }

/-- Reads a word that is not reserved as a node of the given kind. -/
def name (kind : Kind) : Parser Node := do
  require (!reservedWords.contains (← get).word)
  word kind

/-- Reads exactly the given word. -/
def keyword (text : String) : Parser Unit := do
  require ((← get).seesWord text)
  literal text

/-- Reads a private name such as `#x`. -/
def privateName : Parser Node := do
  let c ← get
  literal "#"
  let node ← word .privatePropertyIdentifier
  return { node with start := c.pos }

end Parser

end NotebookCell.Script
