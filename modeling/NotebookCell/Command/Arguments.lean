/-!
# Command line arguments

Options may stand anywhere among the files of a command; a double dash ends them. An option with
a value takes it from behind an equals sign or from the next argument, and its short form also from
the rest of its own argument. The last of several values counts.
-/

namespace NotebookCell.Command

/-- What is given to a command: options with their values, in order, and files. A flag has an empty
value. -/
structure Arguments where
  options : List (String × String) := []
  files : List String := []
deriving DecidableEq, Repr

namespace Arguments

/-- The arguments with an option in front. -/
def withOption (arguments : Arguments) (name value : String) : Arguments :=
  { arguments with options := (name, value) :: arguments.options }

/-- The arguments with a file in front. -/
def withFile (arguments : Arguments) (file : String) : Arguments :=
  { arguments with files := file :: arguments.files }

/-- The value of an option. -/
def value? (arguments : Arguments) (name : String) : Option String :=
  arguments.options.reverse.lookup name

/-- Whether a flag is given. -/
def has (arguments : Arguments) (name : String) : Bool :=
  (arguments.value? name).isSome

/-- Which of a pair of opposite flags is given last. -/
def choice? (arguments : Arguments) (on off : String) : Option Bool :=
  arguments.options.reverse.findSome? fun (name, _) =>
    if name == on then some true else if name == off then some false else none

end Arguments

/-- The options that a command knows. -/
structure OptionSet where
  flags : List String
  /-- The options with values. -/
  valued : List String
  /-- Short forms of options with values. -/
  short : List (Char × String) := []

/-- What a single argument is. -/
inductive Token where
  | file
  | flag (name : String)
  | valued (name value : String)
  /-- An option whose value is the next argument. -/
  | awaiting (name : String)
  | unknown
deriving DecidableEq, Repr

/-- What an argument that starts with two dashes is. -/
def longToken (known : OptionSet) (argument : List Char) : Token :=
  let name := String.ofList (argument.takeWhile (· != '='))
  match argument.dropWhile (· != '=') with
  | [] =>
    if known.flags.contains name then .flag name
    else if known.valued.contains name then .awaiting name
    else .unknown
  | _ :: value =>
    if known.valued.contains name then .valued name (String.ofList value) else .unknown

/-- What an argument is before a double dash. -/
def token (known : OptionSet) (argument : String) : Token :=
  match argument.toList with
  | '-' :: '-' :: rest => longToken known ('-' :: '-' :: rest)
  | '-' :: c :: rest =>
    match known.short.lookup c with
    | none => .unknown
    | some name => if rest.isEmpty then .awaiting name else .valued name (String.ofList rest)
  | _ => .file

/-- Reads the arguments of a command; nothing where an option is unknown or has no value. -/
def readArguments (known : OptionSet) : List String → Option Arguments
  | [] => some {}
  | argument :: rest =>
    if argument == "--" then some { files := rest }
    else
      match token known argument with
      | .file => (readArguments known rest).map (·.withFile argument)
      | .flag name => (readArguments known rest).map (·.withOption name "")
      | .valued name value => (readArguments known rest).map (·.withOption name value)
      | .awaiting name =>
        match rest with
        | [] => none
        | value :: rest => (readArguments known rest).map (·.withOption name value)
      | .unknown => none

/-! ## Commands -/

/-- A command with its arguments. -/
inductive Request where
  /-- Prints the functions of cells. -/
  | transpile (arguments : Arguments)
  /-- Reports the inputs and outputs of cells. -/
  | check (arguments : Arguments)
  /-- Lists the modes of cells. -/
  | modes
  /-- Explains the usage. -/
  | help
  /-- The arguments make no sense. -/
  | misuse
deriving DecidableEq, Repr

/-- The options of `transpile`. -/
def transpileOptions : OptionSet where
  flags := ["--help", "--keep-going", "--resolve-files", "--no-resolve-files",
    "--resolve-local-imports", "--no-resolve-local-imports"]
  valued := ["--mode", "--log-level"]
  short := [('m', "--mode")]

/-- The options of `check`. -/
def checkOptions : OptionSet where
  flags := ["--help"]
  valued := ["--mode", "--log-level"]
  short := [('m', "--mode")]

/-- The options of `modes`. -/
def modesOptions : OptionSet where
  flags := ["--help"]
  valued := []

/-- Reads a command and its arguments. -/
def readCommand (name : String) (rest : List String) : Request :=
  let request (known : OptionSet) (make : Arguments → Request) : Request :=
    match readArguments known rest with
    | none => .misuse
    | some arguments => if arguments.has "--help" then .help else make arguments
  let withFiles (make : Arguments → Request) (arguments : Arguments) : Request :=
    if arguments.files.isEmpty then .misuse else make arguments
  match name with
  | "transpile" => request transpileOptions (withFiles .transpile)
  | "check" => request checkOptions (withFiles .check)
  | "modes" => request modesOptions fun arguments =>
    if arguments.files.isEmpty then .modes else .misuse
  | _ => .misuse

/-- Reads a command line. -/
def Request.read : List String → Request
  | [] => .misuse
  | "--help" :: _ => .help
  | "--" :: name :: rest => readCommand name rest
  | name :: rest => readCommand name rest

/-- The files that a request names. -/
def Request.files : Request → List String
  | .transpile arguments | .check arguments => arguments.files
  | _ => []

end NotebookCell.Command
