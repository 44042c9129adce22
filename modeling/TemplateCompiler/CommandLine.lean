import TemplateCompiler.CommandLine.Request
import TemplateCompiler.Compiler
import TemplateCompiler.Settings.Layers
import TemplateCompiler.Standard

/-!
# The command line

One run of the program, from its arguments to its exit status. Reports go to the output, and only
if every template was compiled; an error goes to the error output.
-/
namespace TemplateCompiler.CommandLine

/-- What a run finds around it. -/
structure Environment where
  /-- The working directory. -/
  directory : Path
  /-- Where the user's settings are. -/
  userDirectory : Path
  /-- The identities of the sessions, in order. -/
  session : Nat → String

/-- What a run leaves behind. -/
structure Outcome where
  exit : Nat
  output : String
  errors : String
  disk : Disk

/-- The name and version of the program. -/
def versionText : String :=
  "tplc 0.1.0\n"

/-- How the program is used. -/
def helpText : String :=
  "Compile templates into cached artifacts\n\n"
    ++ "Usage: tplc [-q | -v] compile [--project <PROJECT>] [--strict] <--all | TEMPLATES>...\n"

/-- The outcome of a run that ended before anything was done. -/
def stopped (disk : Disk) : Stop → Outcome
  | .badUsage => ⟨2, "", helpText, disk⟩
  | .help => ⟨0, helpText, "", disk⟩
  | .version => ⟨0, versionText, "", disk⟩

/-- The outcome of a run that failed before anything was compiled. -/
def failed (disk : Disk) (message : String) : Outcome :=
  ⟨1, "", "Error: " ++ message ++ "\n", disk⟩

/-- The one spelling of the place that a directory given on the command line leads to, if something
is there. -/
def canonical? (disk : Disk) (directory : Path) (given : String) : Option Path :=
  if given = "" then none
  else
    match disk.locate? (directory.join given) with
    | none => none
    | some place =>
      if (disk.get? place).isSome then some ⟨"/" ++ String.intercalate "/" place⟩ else none

/-- The lines that report one template. -/
def reportLines (report : Report) : String :=
  report.template ++ " -> " ++ report.artifact.text ++ "\n"
    ++ String.join (report.warnings.map fun w => "  warning: " ++ w.render ++ "\n")

/-- The settings of a run: the options of the command line count more than the files. -/
def adjust (request : Request) (settings : Settings) : Settings :=
  { settings with
    debug := settings.debug || request.strict
    verbose := settings.verbose || 1 < request.verbosity }

/-- Compiles what was asked for. -/
def compile (environment : Environment) (disk : Disk) (request : Request) (project : Path)
    (settings : Settings) : Outcome :=
  let compiler : Compiler PUnit :=
    { workspace := .ofSettings (adjust request settings) project .onDisk, library := .standard }
  let build : Compiler.Build PUnit (List Report) :=
    match request.templates with
    | none => compiler.compileAll environment.session
    | some templates => compiler.compileEach environment.session 0 templates
  match build.run ⟨disk, ⟨⟩⟩ with
  | .ok reports world =>
    ⟨0, if request.quiet then "" else String.join (reports.map reportLines), "", world.disk⟩
  | .error error world =>
    ⟨1, "", "error[" ++ error.code ++ "]: " ++ error.message ++ "\n", world.disk⟩

/-- Runs the program. -/
def run (environment : Environment) (disk : Disk) (arguments : List String) : Outcome :=
  match Request.read arguments with
  | .error stop => stopped disk stop
  | .ok request =>
    match canonical? disk environment.directory request.project with
    | none => failed disk ("project root " ++ request.project ++ " not found")
    | some project =>
      match Settings.load disk environment.userDirectory project with
      | .error _ => failed disk ("failed to load settings for " ++ project.text)
      | .ok settings => compile environment disk request project settings

end TemplateCompiler.CommandLine
