/-!
# What a command line asks for

The arguments are read from left to right. Options of the program come before the name of the
command, options and operands of the command after it; `-q` and `-v` may stand on either side. The
first argument that is out of place, or the first call for help or for the version, settles the
matter.
-/
namespace TemplateCompiler.CommandLine

/-- The form of an argument. -/
inductive Word where
  /-- `--`: all that follows is an operand. -/
  | escape
  /-- `--name` or `--name=value` -/
  | long (name : String) (value : Option String)
  /-- One or more letters after a dash. -/
  | short (letters : List Char)
  | operand (text : String)
  deriving DecidableEq, Repr

/-- The form of an argument; a lone dash is an operand. -/
def Word.ofArgument (argument : String) : Word :=
  match argument.toList with
  | ['-', '-'] => .escape
  | '-' :: '-' :: rest =>
    let name := String.ofList (rest.takeWhile (· != '='))
    match rest.dropWhile (· != '=') with
    | '=' :: value => .long name (some (String.ofList value))
    | _ => .long name none
  | '-' :: c :: rest => .short (c :: rest)
  | _ => .operand argument

/-- What settles a command line before it is read to its end. -/
inductive Stop where
  | badUsage
  | help
  | version
  deriving DecidableEq, Repr

/-- The options without a value. -/
inductive Switch where
  | quiet
  | verbose
  | help
  | version
  | all
  | strict
  deriving DecidableEq, Repr

/-- The side of the command's name on which an option stands. -/
inductive Side where
  | program
  | command
  deriving DecidableEq, Repr

/-- The switch with a long name, on a side. -/
def Switch.ofName? (side : Side) (name : String) : Option Switch :=
  match side, name with
  | _, "quiet" => some .quiet
  | _, "verbose" => some .verbose
  | _, "help" => some .help
  | .program, "version" => some .version
  | .command, "all" => some .all
  | .command, "strict" => some .strict
  | _, _ => none

/-- The switch with a short name, on a side. -/
def Switch.ofLetter? (side : Side) (letter : Char) : Option Switch :=
  match side, letter with
  | _, 'q' => some .quiet
  | _, 'v' => some .verbose
  | _, 'h' => some .help
  | .program, 'V' => some .version
  | _, _ => none

/-- What stands on one side of the command's name. -/
structure Selection where
  quiet : Bool := false
  /-- How often `-v` was given. -/
  verbosity : Nat := 0
  all : Bool := false
  strict : Bool := false
  project : Option String := none
  templates : List String := []
  deriving DecidableEq, Repr

namespace Selection

/-- Sets a switch. Only `-v` may be repeated. -/
def turnOn (selection : Selection) : Switch → Except Stop Selection
  | .quiet => if selection.quiet then .error .badUsage else .ok { selection with quiet := true }
  | .verbose => .ok { selection with verbosity := selection.verbosity + 1 }
  | .help => .error .help
  | .version => .error .version
  | .all => if selection.all then .error .badUsage else .ok { selection with all := true }
  | .strict =>
    if selection.strict then .error .badUsage else .ok { selection with strict := true }

/-- Sets the switch found for an argument, if one was found. -/
def turnOnFound (selection : Selection) (found : Option Switch) : Except Stop Selection :=
  match found with
  | some switch => selection.turnOn switch
  | none => .error .badUsage

/-- Sets the project, which may be given once. -/
def setProject (selection : Selection) (dir : String) : Except Stop Selection :=
  if selection.project.isSome then .error .badUsage
  else .ok { selection with project := some dir }

/-- Adds a template after the earlier ones. -/
def addTemplate (selection : Selection) (template : String) : Selection :=
  { selection with templates := selection.templates ++ [template] }

/-- Sets the switches of letters that share a dash. -/
def turnOnLetters (selection : Selection) (side : Side) (letters : List Char) :
    Except Stop Selection :=
  letters.foldlM (fun selection c => selection.turnOnFound (Switch.ofLetter? side c)) selection

/-- Whether the options of one side go together. -/
def isConsistent (selection : Selection) : Bool :=
  !(selection.quiet && 0 < selection.verbosity)

/-- Reads the arguments after the command's name. -/
def readCommand (selection : Selection) : List String → Except Stop Selection
  | [] => .ok selection
  | argument :: rest =>
    match Word.ofArgument argument with
    | .escape => .ok (rest.foldl addTemplate selection)
    | .operand text => readCommand (selection.addTemplate text) rest
    | .short letters => do readCommand (← selection.turnOnLetters .command letters) rest
    | .long "project" (some dir) => do readCommand (← selection.setProject dir) rest
    | .long "project" none =>
      match rest with
      | [] => .error .badUsage
      | value :: rest =>
        match Word.ofArgument value with
        | .operand dir => do readCommand (← selection.setProject dir) rest
        | _ => .error .badUsage
    | .long name none => do
      readCommand (← selection.turnOnFound (Switch.ofName? .command name)) rest
    | .long _ (some _) => .error .badUsage

end Selection

/-- What a command line asks for. -/
structure Request where
  quiet : Bool
  verbosity : Nat
  strict : Bool
  /-- The project's directory as it was given. -/
  project : String
  /-- The templates to compile; none means every template of the project itself. -/
  templates : Option (List String)
  deriving DecidableEq, Repr

namespace Request

/-- The request of the options on both sides. Templates are named, or `--all` stands for them. -/
def ofSelections (program command : Selection) : Except Stop Request :=
  if command.isConsistent && program.isConsistent && command.all == command.templates.isEmpty then
    .ok {
      quiet := program.quiet || command.quiet
      verbosity := if 0 < command.verbosity then command.verbosity else program.verbosity
      strict := command.strict
      project := command.project.getD "."
      templates := if command.all then none else some command.templates }
  else .error .badUsage

/-- Reads the name of the command and what follows it. -/
def readNamed (program : Selection) (command : String) (rest : List String) :
    Except Stop Request :=
  if command = "compile" then do
    ofSelections program (← Selection.readCommand {} rest)
  else if command = "help" then
    .error (if rest ∈ [[], ["compile"], ["help"]] then .help else .badUsage)
  else .error .badUsage

/-- Reads the arguments from the front, given the options before them. -/
def readFrom (program : Selection) : List String → Except Stop Request
  | [] => .error .badUsage
  | argument :: rest =>
    match Word.ofArgument argument with
    | .escape => .error .badUsage
    | .operand command => readNamed program command rest
    | .short letters => do readFrom (← program.turnOnLetters .program letters) rest
    | .long name none => do readFrom (← program.turnOnFound (Switch.ofName? .program name)) rest
    | .long _ (some _) => .error .badUsage

/-- What the arguments ask for. -/
def read (arguments : List String) : Except Stop Request :=
  readFrom {} arguments

end Request

end TemplateCompiler.CommandLine
