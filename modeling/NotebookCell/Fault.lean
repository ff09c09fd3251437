import NotebookCell.Text.Position

/-!
# What can be wrong with a cell

A `Fault` is what the author of a cell is told: its category, a message and the offending place. The
`Cause`s are the faults this library finds itself, with their wording in one function.
-/

namespace NotebookCell

open NotebookCell.Text

/-- The category of a fault. -/
inductive Category where
  /-- no particular one -/
  | general
  /-- the source is malformed -/
  | parse
  /-- the cell changes a binding that it does not own -/
  | assignment
  /-- the cell asks for something that its mode cannot express -/
  | structural
deriving DecidableEq, Repr

/-- A fault in a cell. `pos` is a character offset into its source. -/
structure Fault where
  category : Category
  message : String
  pos : Option Int := none
  line : Option Int := none
  column : Option Int := none
deriving DecidableEq, Repr

namespace Fault

/-- The message, with line and column if both are known. -/
def text (fault : Fault) : String :=
  match fault.line, fault.column with
  | some line, some column =>
    fault.message ++ " (" ++ toString line ++ ":" ++ toString column ++ ")"
  | _, _ => fault.message

/-- A fault about the fragment of `source` that starts at `pos`. -/
def located (category : Category) (message : String) (source : List Char) (pos : Int) : Fault :=
  let place := placeOf source pos
  { category, message, pos := pos, line := some place.line, column := some place.column }

end Fault

/-- What a fault is about. -/
inductive Cause where
  | unexpected (token : String)
  | expected (kind : String)
  | endOfInput
  | severalExpressions
  | unterminatedTemplate
  | assignsExternal (name : String)
  | assignsGlobal (name : String)
  | redefinesGlobal (name : String)
  | yields
  | noDelegate
  | unknownMode (mode : String)
deriving DecidableEq, Repr

namespace Cause

/-- The category of a cause. -/
def category : Cause → Category
  | unexpected _ | expected _ | endOfInput | severalExpressions | unterminatedTemplate => .parse
  | assignsExternal _ | assignsGlobal _ | redefinesGlobal _ => .assignment
  | yields | noDelegate | unknownMode _ => .structural

/-- The wording of a cause. -/
def message : Cause → String
  | unexpected token => "Unexpected token '" ++ token ++ "'"
  | expected kind => "Expected '" ++ kind ++ "'"
  | endOfInput => "Unexpected end of input"
  | severalExpressions => "Expected a single expression"
  | unterminatedTemplate => "Unterminated template"
  | assignsExternal name => "Assignment to external variable '" ++ name ++ "'"
  | assignsGlobal name => "Assignment to global '" ++ name ++ "'"
  | redefinesGlobal name => "Global '" ++ name ++ "' cannot be redefined"
  | yields => "Cannot yield from a cell body"
  | noDelegate => "No transpiler configured for ojs cells"
  | unknownMode mode => "Unknown cell mode '" ++ mode ++ "'"

/-- The fault at an offset of a source. -/
def fault (cause : Cause) (source : List Char) (pos : Int) : Fault :=
  .located cause.category cause.message source pos

/-- The fault without a place. -/
def anywhere (cause : Cause) : Fault :=
  { category := cause.category, message := cause.message }

end Cause

/-- Why a text is not accepted. -/
inductive Problem where
  /-- The grammar of scripts does not accept it. -/
  | ungrammatical
  /-- It has a fault. -/
  | fault (fault : Fault)
deriving DecidableEq, Repr

end NotebookCell
