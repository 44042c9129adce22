import TemplateCompiler.Proofs.Transcript.Passage

/-!
# Control flow of artifacts

The segments of an artifact are the statements of a structured program: conditions with their
branches, and loops (`Flow`). A run goes through it with every condition true or false and every
loop run any number of times, and assigns and reads parameter slots on its way (`Flow.Runs`).
-/
namespace TemplateCompiler

/-! ## Segments -/

/-- The template variables that an expression reads. -/
def Code.Expr.vars : Code.Expr → List String
  | .member .variables name => [name]
  | .member base _ => base.vars
  | .escaped value .. => value.vars
  | _ => []

/-- The template variables that a statement reads. What it assigns it does not read. -/
def Code.Statement.vars : Code.Statement → List String
  | .echo value => value.vars
  | .ifThen condition | .elseIf condition =>
    condition.flatMap fun
      | .value expr => expr.vars
      | _ => []
  | .forEach list _ => list.vars
  | .assign _ value => value.vars
  | .load path => path.vars
  | .print _ | .otherwise | .endIf | .forNone | .endFor _ => []

/-- The template variables that a filter reads. -/
def Code.Filtering.vars : Code.Filtering → List String
  | .fallback value | .join value | .truncate value | .date value | .add value => value.vars
  | _ => []

/-- The template variables that are read to fill a slot. -/
def Fill.vars (fill : Fill) : List String :=
  fill.value.vars ++ fill.filterings.flatMap (·.vars)

/-- One step of an artifact. -/
inductive Segment where
  /-- Text, or a value that is shown. -/
  | neutral
  /-- A slot is filled with what becomes of template variables. -/
  | fill (slot : Nat) (vars : List String)
  /-- What a tag does itself, and the slots that were filled for it. -/
  | tag (statement : Option Code.Statement) (own : List Nat)
  deriving DecidableEq, Repr

/-- The steps of a passage. -/
def Passage.segments : Passage → List Segment
  | .tagged fills statement =>
    fills.map (fun fill => .fill fill.slot fill.vars) ++ [.tag statement (fills.map (·.slot))]
  | _ => [.neutral]

/-- What a step does to template variables. -/
inductive Access where
  | assign (slot : Nat)
  /-- A tag reads a slot that was filled for it. -/
  | read (slot : Nat)
  /-- A tag reads a variable that the template names itself. -/
  | stray (name : String)
  deriving DecidableEq, Repr

namespace Segment

/-- What a step does to template variables, in order. -/
def accesses : Segment → List Access
  | neutral => []
  | fill slot vars => vars.map .stray ++ [.assign slot]
  | tag none _ => []
  | tag (some statement) own =>
    (own.filter fun slot => Code.slotName slot ∈ statement.vars).map .read ++
      (statement.vars.filter fun name => name ∉ own.map Code.slotName).map .stray

/-- Whether a step leads on to the next one and nowhere else. -/
def isStraight : Segment → Bool
  | neutral => true
  | fill .. => true
  | tag none _ => true
  | tag (some (.echo _)) _ => true
  | tag (some (.print _)) _ => true
  | tag (some (.assign ..)) _ => true
  | tag (some (.load _)) _ => true
  | tag (some _) _ => false

end Segment

/-! ## Programs -/

/-- What a part of a program is. -/
inductive Flow.Role where
  /-- Code of its own. -/
  | code
  /-- What follows the first branch of a condition. -/
  | branch
  deriving DecidableEq, Repr

/-- A structured program. -/
inductive Flow : Flow.Role → Type where
  | done : Flow .code
  | straight (segment : Segment) (h : segment.isStraight = true) (rest : Flow .code) : Flow .code
  /-- A condition with its branches. -/
  | choice (condition : Code.Condition) (own : List Nat) (body : Flow .code) (other : Flow .branch)
    (rest : Flow .code) : Flow .code
  /-- A loop. -/
  | loop (list item : Code.Expr) (own : List Nat) (body : Flow .code) (close : List Nat)
    (rest : Flow .code) : Flow .code
  /-- A loop with code for the empty list. -/
  | loopOr (list item : Code.Expr) (own : List Nat) (body : Flow .code) (between : List Nat)
    (other : Flow .code) (close : List Nat) (rest : Flow .code) : Flow .code
  /-- No more branches. -/
  | endIf (close : List Nat) : Flow .branch
  /-- A branch under a condition of its own. -/
  | elseIf (condition : Code.Condition) (own : List Nat) (body : Flow .code)
    (other : Flow .branch) : Flow .branch
  /-- The last branch. -/
  | otherwise (own : List Nat) (body : Flow .code) (close : List Nat) : Flow .branch

namespace Flow

/-- The segments of a program, in the order in which they stand in the artifact. -/
def segments {role : Role} : Flow role → List Segment
  | done => []
  | straight segment _ rest => segment :: rest.segments
  | choice condition own body other rest =>
    .tag (some (.ifThen condition)) own :: (body.segments ++ other.segments ++ rest.segments)
  | loop list item own body close rest =>
    .tag (some (.forEach list item)) own ::
      (body.segments ++ .tag (some (.endFor false)) close :: rest.segments)
  | loopOr list item own body between other close rest =>
    .tag (some (.forEach list item)) own :: (body.segments ++ .tag (some .forNone) between ::
      (other.segments ++ .tag (some (.endFor true)) close :: rest.segments))
  | endIf close => [.tag (some .endIf) close]
  | elseIf condition own body other =>
    .tag (some (.elseIf condition)) own :: (body.segments ++ other.segments)
  | otherwise own body close =>
    .tag (some .otherwise) own :: (body.segments ++ [.tag (some .endIf) close])

/-- What a program is made of. -/
inductive IsPart : {role role' : Role} → Flow role → Flow role' → Prop
  | straight {segment : Segment} {h : segment.isStraight = true} {rest : Flow .code} :
    IsPart rest (.straight segment h rest)
  | choiceBody {condition : Code.Condition} {own : List Nat} {body : Flow .code}
    {other : Flow .branch} {rest : Flow .code} :
    IsPart body (.choice condition own body other rest)
  | choiceOther {condition : Code.Condition} {own : List Nat} {body : Flow .code}
    {other : Flow .branch} {rest : Flow .code} :
    IsPart other (.choice condition own body other rest)
  | choiceRest {condition : Code.Condition} {own : List Nat} {body : Flow .code}
    {other : Flow .branch} {rest : Flow .code} :
    IsPart rest (.choice condition own body other rest)
  | loopBody {list item : Code.Expr} {own : List Nat} {body : Flow .code} {close : List Nat}
    {rest : Flow .code} : IsPart body (.loop list item own body close rest)
  | loopRest {list item : Code.Expr} {own : List Nat} {body : Flow .code} {close : List Nat}
    {rest : Flow .code} : IsPart rest (.loop list item own body close rest)
  | loopOrBody {list item : Code.Expr} {own : List Nat} {body : Flow .code} {between : List Nat}
    {other : Flow .code} {close : List Nat} {rest : Flow .code} :
    IsPart body (.loopOr list item own body between other close rest)
  | loopOrOther {list item : Code.Expr} {own : List Nat} {body : Flow .code} {between : List Nat}
    {other : Flow .code} {close : List Nat} {rest : Flow .code} :
    IsPart other (.loopOr list item own body between other close rest)
  | loopOrRest {list item : Code.Expr} {own : List Nat} {body : Flow .code} {between : List Nat}
    {other : Flow .code} {close : List Nat} {rest : Flow .code} :
    IsPart rest (.loopOr list item own body between other close rest)
  | elseIfBody {condition : Code.Condition} {own : List Nat} {body : Flow .code}
    {other : Flow .branch} : IsPart body (.elseIf condition own body other)
  | elseIfOther {condition : Code.Condition} {own : List Nat} {body : Flow .code}
    {other : Flow .branch} : IsPart other (.elseIf condition own body other)
  | otherwise {own : List Nat} {body : Flow .code} {close : List Nat} :
    IsPart body (.otherwise own body close)

theorem IsPart.subset {role role' : Role} {part : Flow role} {flow : Flow role'}
    (h : IsPart part flow) : part.segments ⊆ flow.segments := by
  intro segment hmem
  cases h <;> simp [segments, hmem]

/-- What a run through a program does to template variables, in order. -/
def Runs {role : Role} : Flow role → List Access → Prop
  | done, trace => trace = []
  | straight segment _ rest, trace =>
    ∃ after, rest.Runs after ∧ trace = segment.accesses ++ after
  | choice condition own body other rest, trace =>
    ∃ inner after, (body.Runs inner ∨ other.Runs inner) ∧ rest.Runs after ∧
      trace = Segment.accesses (.tag (some (.ifThen condition)) own) ++ (inner ++ after)
  | loop list item own body _ rest, trace =>
    ∃ (rounds : List (List Access)) (after : List Access),
      (∀ round ∈ rounds, body.Runs round) ∧ rest.Runs after ∧
      trace = Segment.accesses (.tag (some (.forEach list item)) own) ++ (rounds.flatten ++ after)
  | loopOr list item own body _ other _ rest, trace =>
    ∃ inner after, ((∃ rounds : List (List Access), rounds ≠ [] ∧
        (∀ round ∈ rounds, body.Runs round) ∧ inner = rounds.flatten) ∨ other.Runs inner) ∧
      rest.Runs after ∧
      trace = Segment.accesses (.tag (some (.forEach list item)) own) ++ (inner ++ after)
  | endIf _, trace => trace = []
  | elseIf condition own body other, trace =>
    ∃ inner, (body.Runs inner ∨ other.Runs inner) ∧
      trace = Segment.accesses (.tag (some (.elseIf condition)) own) ++ inner
  | otherwise _ body _, trace => body.Runs trace

/-- Every program can be run. -/
theorem exists_runs {role : Role} (flow : Flow role) : ∃ trace, flow.Runs trace := by
  induction flow with
  | done => exact ⟨[], rfl⟩
  | endIf close => exact ⟨[], rfl⟩
  | straight segment h rest ih =>
    obtain ⟨after, hafter⟩ := ih
    exact ⟨_, after, hafter, rfl⟩
  | choice condition own body other rest ihBody _ ihRest =>
    obtain ⟨inner, hinner⟩ := ihBody
    obtain ⟨after, hafter⟩ := ihRest
    exact ⟨_, inner, after, .inl hinner, hafter, rfl⟩
  | loop list item own body close rest _ ihRest =>
    obtain ⟨after, hafter⟩ := ihRest
    exact ⟨_, [], after, (fun round hround => nomatch hround), hafter, rfl⟩
  | loopOr list item own body between other close rest _ ihOther ihRest =>
    obtain ⟨inner, hinner⟩ := ihOther
    obtain ⟨after, hafter⟩ := ihRest
    exact ⟨_, inner, after, .inr hinner, hafter, rfl⟩
  | elseIf condition own body other ihBody _ =>
    obtain ⟨inner, hinner⟩ := ihBody
    exact ⟨_, inner, .inl hinner, rfl⟩
  | otherwise own body close ihBody => exact ihBody

end Flow

end TemplateCompiler
