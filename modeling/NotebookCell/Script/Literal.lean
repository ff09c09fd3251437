import NotebookCell.Script.Word

/-!
# Literals

Numbers, strings and regular expressions. Each is a leaf of the tree: what stands inside them
binds no names.
-/

namespace NotebookCell.Script

open NotebookCell.Tree

/-! ## Numbers -/

/-- The length of a run of digits of the class `digit` that may be separated by single
underscores; it starts and ends in a digit. -/
def digitsLength (digit : Char → Bool) : List Char → Nat
  | [] => 0
  | c :: text =>
    if digit c then 1 + digitsLength digit text
    else if c == '_' && text.head?.any digit then
      -- an underscore in front of the first digit is excluded by the callers
      1 + digitsLength digit text
    else 0

/-- The length of a run of digits that starts in a digit. -/
def digitRun (digit : Char → Bool) (text : List Char) : Nat :=
  if text.head?.any digit then digitsLength digit text else 0

/-- The length of an exponent part such as `e-7`; zero where there is none. -/
def exponentLength : List Char → Nat
  | c :: text =>
    if c == 'e' || c == 'E' then
      let sign := if text.head? == some '+' || text.head? == some '-' then 1 else 0
      let digits := digitRun Char.isDigit (text.drop sign)
      if digits == 0 then 0 else 1 + sign + digits
    else 0
  | [] => 0

/-- The length of a decimal integer part: a single zero, or digits with at most one leading
zero. -/
def integerPartLength (text : List Char) : Nat :=
  let nonzero (c : Char) : Bool := c.isDigit && c != '0'
  let lead := if text.head? == some '0' && (text.drop 1).head?.any nonzero then 1 else 0
  let rest := text.drop lead
  if rest.head?.any nonzero then
    lead + digitsLength Char.isDigit rest
  else if text.head? == some '0' then 1
  else 0

/-- The length of an integer with a base mark, such as `0xff`, with its big-integer suffix. -/
def basedLength (mark : Char) (digit : Char → Bool) : List Char → Nat
  | '0' :: m :: text =>
    if m.toLower == mark then
      let digits := digitRun digit text
      let suffix := if (text.drop digits).head? == some 'n' then 1 else 0
      if digits == 0 then 0 else 2 + digits + suffix
    else 0
  | _ => 0

/-- The length of a decimal number that has a point or an exponent, or zero. -/
def fractionLength (text : List Char) : Nat :=
  let whole := integerPartLength text
  let rest := text.drop whole
  if rest.head? == some '.' then
    let digits := digitRun Char.isDigit (rest.drop 1)
    if whole == 0 && digits == 0 then 0
    else whole + 1 + digits + exponentLength (rest.drop (1 + digits))
  else
    let exponent := exponentLength rest
    if whole == 0 || exponent == 0 then 0 else whole + exponent

/-- The length of a plain run of digits with its big-integer suffix, or zero. -/
def plainLength (text : List Char) : Nat :=
  let digits := digitRun Char.isDigit text
  let suffix := if digits != 0 && (text.drop digits).head? == some 'n' then 1 else 0
  digits + suffix

/-- The length of the longest number at the start of the text; zero where there is none. -/
def numberLength (text : List Char) : Nat :=
  [basedLength 'x' isHexDigit text, basedLength 'b' (inRange 0x30 0x31) text,
    basedLength 'o' isOctalDigit text, fractionLength text, plainLength text].foldl max 0

/-! ## Strings -/

/-- The length of an escape in a string or template, the backslash included; zero where the text
is no escape the grammar knows. -/
def stringEscapeLength (text : List Char) : Nat :=
  match text with
  | '\\' :: 'x' :: a :: b :: _ => if isHexDigit a && isHexDigit b then 4 else 0
  | '\\' :: 'x' :: _ => 0
  | '\\' :: 'u' :: _ => escapeLength text
  | '\\' :: c :: rest =>
    if isOctalDigit c then
      1 + min 3 ((c :: rest).takeWhile isOctalDigit).length
    else if (c == '\r' || c == '?') && rest.head?.any isLineBreak then 3
    else 2
  | _ => 0

/-- Moves behind the closing quote of a string. A raw line break may only be followed by blanks
and comments before the string goes on or ends. The first argument bounds the number of steps. -/
def stringEnd? (quote : Char) : List Char → Cursor → Option Cursor
  | [], _ => none
  | _ :: bound, c =>
    match c.rest with
    | [] => none
    | ch :: _ =>
      if ch == quote then some (c.skip 1)
      else if ch == '\\' then
        match stringEscapeLength c.rest with
        | 0 => none
        | length => stringEnd? quote bound (c.skip length)
      else if ch == '\n' || ch == '\r' then
        let after := c.skipWhile isBlank
        match after.comment? with
        | some (_, after) => stringEnd? quote bound after
        | none => if after.rest.head? == some quote then some (after.skip 1) else none
      else stringEnd? quote bound (c.skip 1)

/-! ## Regular expressions -/

/-- The number of characters of a bracketed class from behind its opening bracket on, the closing
one included; nothing where the class is not closed on its line. -/
def regexClassLength : List Char → Option Nat
  | ']' :: _ => some 1
  | '\\' :: c :: text => if c == '\n' then none else (regexClassLength text).map (· + 2)
  | c :: text => if c == '\n' || c == '\\' then none else (regexClassLength text).map (· + 1)
  | [] => none

/-- The number of characters of the body of a regular expression: bracketed classes, escaped
characters, and others than a slash or a line feed. The first argument bounds their number. -/
def regexBodyLength : List Char → List Char → Nat
  | _ :: bound, c :: text =>
    let unit :=
      if c == '[' then ((regexClassLength text).map (· + 1)).getD 0
      else if c == '\\' then
        match text with
        | d :: _ => if d == '\n' then 0 else 2
        | [] => 0
      else if c == '/' || c == '\n' then 0
      else 1
    if unit == 0 then 0 else unit + regexBodyLength bound ((c :: text).drop unit)
  | _, _ => 0

namespace Parser

/-- Reads a number. -/
def number : Parser Node := do
  let c ← get
  let length := numberLength c.rest
  require (length != 0)
  let after := c.skip length
  set after
  return { kind := .number, start := c.pos, stop := after.pos }

/-- Reads a string in single or double quotes. -/
def string : Parser Node := do
  let c ← get
  match c.rest with
  | quote :: text =>
    require (quote == '\x22' || quote == '\x27')
    match stringEnd? quote text (c.skip 1) with
    | some after =>
      set after
      return { kind := .string, start := c.pos, stop := after.pos }
    | none => failure
  | [] => failure

/-- Reads a regular expression and its flags. -/
def regex : Parser Node := do
  let c ← get
  literal "/"
  let body ← get
  let length := regexBodyLength body.rest body.rest
  require (length != 0)
  set (body.skip length)
  literal "/"
  let after := (← get).skipWhile (inRange 0x61 0x7a)
  set after
  return { kind := .regex, start := c.pos, stop := after.pos }

end Parser

end NotebookCell.Script
