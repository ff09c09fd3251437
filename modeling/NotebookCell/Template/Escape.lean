import NotebookCell.Editing.Buffer
import NotebookCell.Template.Literal

/-!
# Template cells as template literals

The content of a template cell becomes a tagged template literal. Authors write backticks and
backslashes as they are, so those in literal text are escaped. A renderer that sees the cooked
strings gets every backslash doubled, except where it already keeps a hole from opening. A renderer
that sees the raw strings gets them unchanged, but a backslash at the very end has to move into a
hole.
-/

namespace NotebookCell.Template

open NotebookCell.Editing

/-- How literal text reaches its renderer. -/
inductive Embedding where
  | cooked | raw
deriving DecidableEq, Repr

/-- The offsets from `pos` on of the backticks among the first `count` characters. -/
def backticks : (count pos : Nat) → List Char → List Nat
  | count + 1, pos, c :: rest =>
    (if c == '\x60' then [pos] else []) ++ backticks count (pos + 1) rest
  | _, _, _ => []

/-- The offsets from `pos` on of the backslashes to double among the first `count` characters.
A backslash that separates a dollar sign from a brace stays, and so does the last of an odd run
before `${`. `dollar` tells that only backslashes came since a dollar sign, `odd` that the run of
backslashes before `pos` is odd. -/
def backslashes : (count pos : Nat) → (dollar odd : Bool) → List Char → List Nat
  | count + 1, pos, dollar, odd, c :: rest =>
    if c == '$' then backslashes count (pos + 1) true false rest
    else if c == '\\' then
      let kept := (dollar && rest.head? == some '\x7b') ||
        (!odd && "$\x7b".toList.isPrefixOf rest)
      (if kept then [] else [pos]) ++ backslashes count (pos + 1) dollar (!odd) rest
    else backslashes count (pos + 1) false false rest
  | _, _, _, _, _ => []

/-- Puts a backslash in front of each of the offsets. -/
def escapeAt (offsets : List Nat) : List Operation :=
  offsets.map fun (offset : Nat) => .insertRight offset ['\\']

/-- Escapes the backticks of a stretch of text. -/
def escapeBackticks (source : List Char) (quasi : Quasi) : List Operation :=
  escapeAt (backticks (quasi.stop - quasi.start) quasi.start (source.drop quasi.start))

/-- Escapes the backslashes of a stretch of text. -/
def escapeBackslashes (source : List Char) (quasi : Quasi) : List Operation :=
  escapeAt
    (backslashes (quasi.stop - quasi.start) quasi.start false false (source.drop quasi.start))

/-- A hole that holds a backslash. -/
def backslashHole : List Char := "$\x7b'\\\\'\x7d".toList

/-- Moves a backslash at the end of the source into a hole, if it would escape the closing
backtick. -/
def interpolateTerminalBackslash (source : List Char) : List Operation :=
  let run := (source.reverse.takeWhile (· == '\\')).length
  if run % 2 == 1 then
    [.replace .right ((source.length : Int) - 1) source.length backslashHole]
  else []

/-- The edits that escape literal text. -/
def escape (embedding : Embedding) (source : List Char) (quasis : List Quasi) : List Operation :=
  match embedding with
  | .cooked => quasis.flatMap fun quasi =>
    escapeBackticks source quasi ++ escapeBackslashes source quasi
  | .raw => quasis.flatMap (escapeBackticks source) ++ interpolateTerminalBackslash source

/-! ## Single escapers -/

/-- What is escaped in a text. -/
inductive Escaper where
  | backticks
  | backslashes
  | terminalBackslash
  | literals (embedding : Embedding)
deriving DecidableEq, Repr

/-- The edits of an escaper for stretches of a text. -/
def Escaper.operations (source : List Char) (quasis : List Quasi) : Escaper → List Operation
  | .backticks => quasis.flatMap (escapeBackticks source)
  | .backslashes => quasis.flatMap (escapeBackslashes source)
  | .terminalBackslash => interpolateTerminalBackslash source
  | .literals embedding => escape embedding source quasis

/-- Whether a stretch has all its characters in a text. -/
def Quasi.isInside (source : List Char) (quasi : Quasi) : Bool :=
  quasi.stop ≤ quasi.start || quasi.stop ≤ source.length

/-- Why stretches of a text cannot be escaped. -/
inductive EscapeFailure where
  | outside
  | refusal (refusal : Refusal)
deriving DecidableEq, Repr

/-- The text with stretches of it escaped. -/
def Escaper.run (escaper : Escaper) (source : List Char) (quasis : List Quasi) :
    Except EscapeFailure (List Char) :=
  if escaper != .terminalBackslash && !quasis.all (·.isInside source) then .error .outside
  else
    match (Buffer.ofSource source).runAll (escaper.operations source quasis) with
    | .ok buffer => .ok buffer.text
    | .error refusal => .error (.refusal refusal)

/-! ## Whole cells -/

/-- The edits that make a template literal of the content of a cell. -/
def embed (source : List Char) (tag : List Char) (embedding : Embedding) (content : Content) :
    List Operation :=
  escape embedding source content.quasis ++
    [.insertLeft 0 tag, .insertLeft 0 ['\x60'], .insertRight source.length ['\x60']]

/-- Why content cannot be made a template literal. -/
inductive EmbedFailure where
  | problem (problem : Problem)
  | refusal (refusal : Refusal)
deriving Repr

/-- The tagged template literal for the content of a cell. Nothing stays nothing. -/
def transpile (source : List Char) (tag : List Char) (embedding : Embedding) :
    Except EmbedFailure (List Char) :=
  if source.isEmpty then .ok []
  else
    match parse source with
    | .error problem => .error (.problem problem)
    | .ok content =>
      match (Buffer.ofSource source).runAll (embed source tag embedding content) with
      | .ok buffer => .ok buffer.text
      | .error refusal => .error (.refusal refusal)

end NotebookCell.Template
