import TemplateCompiler.Drain

/-!
# Compilers

A compiler runs sessions: the waiting sources of a session take their turns in the order in which
they were queued, and the session succeeds when every source has been read to its end. Turns are
limited, since handlers may queue sources for ever.
-/
namespace TemplateCompiler

variable {σ : Type}

/-- The outcome of a compile that succeeded. -/
structure Report where
  /-- The session's identity. -/
  session : String
  template : String
  artifact : Path
  warnings : List Warning
  /-- How many sources were read to their end, the template itself included. -/
  sources : Nat
  deriving Repr

namespace Session

/-- Puts a source away after its turn. If there is nothing left to read, it is done, with a warning
if a tag is still open; otherwise it stopped for good, since only its own handlers could let it go
on. -/
def settle (session : Session) (source : Source) (feed : Feed) : Session :=
  if feed.atEnd then
    let session :=
      match source.hierarchy.top? with
      | some tag => session.warn ⟨tag ++ " tag was never closed", source.location⟩
      | none => session
    { session with drained := session.drained + 1 }
  else { session with halted := session.halted ++ [source] }

/-- What a session and the handlers' memory go through. -/
abbrev Course (σ : Type) := EStateM CompileError (Session × σ)

/-- Drains a source whose turn it is. The main artifact is written again from here on, whatever the
source before did to it. -/
def takeTurn (dispatch : Dispatch σ) (source : Source) : Course σ PUnit := fun (session, memory) =>
  let feed := Feed.ofText (session.textOf source)
  match (drain dispatch feed).run ⟨session.setMainPaused false, source, memory⟩ with
  | .ok feed run => .ok ⟨⟩ (run.session.settle run.source feed, run.memory)
  | .error error run => .error error (run.session, run.memory)

/-- Lets the waiting sources take their turns, at most as many as given. -/
def takeTurns (dispatch : Dispatch σ) : Nat → Course σ PUnit
  | 0 => throw .unfinished
  | turns + 1 => do
    let (session, memory) ← get
    match session.waiting with
    | [] => if session.halted.isEmpty then pure ⟨⟩ else throw (.stalled session.halted.length)
    | source :: waiting =>
      set ({ session with waiting }, memory)
      takeTurn dispatch source
      takeTurns dispatch turns

/-- What is reported of a session that succeeded. -/
def report (session : Session) : Report where
  session := session.id
  template := session.template
  artifact := session.main.path
  warnings := session.warnings
  sources := session.drained

end Session

/-- How far a compile may go. -/
structure Limits where
  /-- How many sources may take their turns in a session. -/
  turns : Nat := 1000000
  /-- How deep handlers may nest. -/
  depth : Nat := 1000

/-- Everything that outlives a session, but for the disk. -/
structure Compiler (σ : Type) where
  workspace : Workspace
  library : Library σ
  limits : Limits := {}

namespace Compiler

/-- What compiles change: the disk, and the handlers' memory. -/
structure World (σ : Type) where
  disk : Disk
  memory : σ

/-- A sequence of compiles. -/
abbrev Build (σ : Type) := EStateM CompileError (World σ)

/-- Compiles `template` into the artifact `destination`, in a session of the given identity. -/
def compileTo (compiler : Compiler σ) (id template destination : String) : Build σ Report :=
  fun ⟨disk, memory⟩ =>
    match (Session.start compiler.workspace id template destination).run disk with
    | .error error disk => .error error ⟨disk, memory⟩
    | .ok session _ =>
      let dispatch := compiler.library.dispatch compiler.limits.depth
      match (Session.takeTurns dispatch compiler.limits.turns).run (session, memory) with
      | .error error (session, memory) => .error error ⟨session.abandon, memory⟩
      | .ok _ (session, memory) => .ok session.report ⟨session.finish, memory⟩

/-- Compiles `template` into the artifact of the same name. -/
def compile (compiler : Compiler σ) (id template : String) : Build σ Report :=
  compiler.compileTo id template template

/-- The names of all templates of the project itself, in the order of a walk. -/
def localTemplates (compiler : Compiler σ) (disk : Disk) : List String :=
  match compiler.workspace.searchPath.root? "local" with
  | none => []
  | some root =>
    match disk.locate? root.dir with
    | none => []
    | some place =>
      if disk.isDirectoryAt place then
        (disk.filesBelow place).map fun (names, _) => String.intercalate "/" names
      else []

/-- Compiles the templates in order, up to the first that fails; `id n` is the identity of the
session of the `n`th, and `n` is the first of them. -/
def compileEach (compiler : Compiler σ) (id : Nat → String) :
    Nat → List String → Build σ (List Report)
  | _, [] => pure []
  | n, template :: rest => do
    let report ← compiler.compile (id n) template
    let more ← compiler.compileEach id (n + 1) rest
    pure (report :: more)

/-- Compiles every template of the project itself, `id n` being the identity of the `n`th
session. -/
def compileAll (compiler : Compiler σ) (id : Nat → String) : Build σ (List Report) := do
  compiler.compileEach id 0 (compiler.localTemplates (← get).disk)

end Compiler

end TemplateCompiler
