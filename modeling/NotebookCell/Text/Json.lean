/-!
# JSON text

Values are written over several lines with two blanks for each level, and only with ASCII
characters: all others are written as escapes of UTF-16 units.
-/

namespace NotebookCell.Text

/-- A JSON value without numbers. -/
inductive Json where
  | string (value : String)
  | bool (value : Bool)
  | list (values : List Json)
  | object (members : List (String × Json))
deriving Repr

namespace Json

/-- Four hexadecimal digits. -/
def hexQuad (code : Nat) : List Char :=
  [0x1000, 0x100, 0x10, 1].map fun unit => Nat.digitChar (code / unit % 16)

/-- The escape of a UTF-16 unit. -/
def unitEscape (code : Nat) : List Char := '\\' :: 'u' :: hexQuad code

/-- A character inside a string. -/
def escapeChar (c : Char) : List Char :=
  if c == '\x22' || c == '\\' then ['\\', c]
  else if c == '\n' then ['\\', 'n']
  else if c == '\r' then ['\\', 'r']
  else if c == '\t' then ['\\', 't']
  else if c == '\x0c' then ['\\', 'f']
  else if c == '\x08' then ['\\', 'b']
  else if ' ' ≤ c && c ≤ '~' then [c]
  else if c.toNat < 0x10000 then unitEscape c.toNat
  else
    let code := c.toNat - 0x10000
    unitEscape (0xd800 + code / 0x400) ++ unitEscape (0xdc00 + code % 0x400)

/-- A quoted string. -/
def quote (text : String) : List Char :=
  '\x22' :: text.toList.flatMap escapeChar ++ ['\x22']

/-- A line break and the indentation of a level. -/
def breakLine (level : Nat) : List Char := '\n' :: List.replicate (2 * level) ' '

/-- Items between brackets, each on a line of its own. -/
def bracket (level : Nat) (opening close : Char) (items : List (List Char)) : List Char :=
  if items.isEmpty then [opening, close]
  else
    let lines := items.map fun item => breakLine (level + 1) ++ item
    opening :: (lines.intersperse [',']).flatten ++ breakLine level ++ [close]

mutual

/-- A value at a level of indentation. -/
def render (level : Nat) (value : Json) : List Char :=
  match value with
  | .string text => quote text
  | .bool true => "true".toList
  | .bool false => "false".toList
  | .list values => bracket level '[' ']' (renderAll (level + 1) values)
  | .object members => bracket level '\x7b' '\x7d' (renderMembers (level + 1) members)

/-- The values of a list. -/
def renderAll (level : Nat) (values : List Json) : List (List Char) :=
  match values with
  | [] => []
  | value :: values => render level value :: renderAll level values

/-- The members of an object. -/
def renderMembers (level : Nat) (members : List (String × Json)) : List (List Char) :=
  match members with
  | [] => []
  | (key, value) :: members =>
    (quote key ++ ':' :: ' ' :: render level value) :: renderMembers level members

end

end Json

end NotebookCell.Text
