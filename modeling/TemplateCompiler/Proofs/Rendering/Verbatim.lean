import TemplateCompiler.Proofs.Moment.Basic
import TemplateCompiler.Proofs.Rendering.Artifact
import TemplateCompiler.Proofs.Scanning.Marker

/-!
# Text that is not read

What stands between `literal` or `comment` and its closing tag is copied or dropped as it is, on
however many lines, and reading goes on behind it as if nothing had been there. The line of the opening
tag is the exception: it has been checked for raw code before its tags were looked at.
-/
namespace TemplateCompiler

open Markup

variable {σ : Type}

/-! ## Lines -/

namespace Bytes

/-- The first line of a text, with its line break. -/
def firstLine (text : Bytes) : Bytes :=
  (lines text).head?.getD []

/-- How many line breaks a text has. -/
def breaks (text : Bytes) : Nat :=
  text.count 0x0a

theorem lines_append_break {x : Bytes} (hx : 0x0a ∉ x) (y : Bytes) :
    lines (x ++ 0x0a :: y) = (x ++ [0x0a]) :: lines y := by
  induction x with
  | nil => rw [List.nil_append, lines, if_pos rfl, List.nil_append]
  | cons b rest ih =>
    obtain ⟨hb, hrest⟩ := not_or.1 (List.mem_cons.not.1 hx)
    rw [List.cons_append, lines, if_neg (Ne.symm hb), ih hrest]
    rfl

theorem lines_append {x : Bytes} (hx : 0x0a ∉ x) (hne : x ≠ []) (y : Bytes) :
    lines (x ++ y) = (x ++ firstLine y) :: (lines y).tail := by
  induction x with
  | nil => exact absurd rfl hne
  | cons b rest ih =>
    obtain ⟨hb, hrest⟩ := not_or.1 (List.mem_cons.not.1 hx)
    rw [List.cons_append, lines, if_neg (Ne.symm hb)]
    cases rest with
    | nil =>
      unfold firstLine
      rw [List.nil_append]
      cases lines y <;> rfl
    | cons b' rest =>
      rw [ih hrest (List.cons_ne_nil _ _)]
      rfl

/-- A text has no line break, or one after its first line. -/
theorem firstLine_cases (text : Bytes) :
    0x0a ∉ text ∧ firstLine text = text ∨
      ∃ x y, 0x0a ∉ x ∧ text = x ++ 0x0a :: y ∧ firstLine text = x ++ [0x0a] := by
  by_cases hmem : 0x0a ∈ text
  · obtain ⟨x, y, htext, hx⟩ := List.eq_append_cons_of_mem hmem
    refine .inr ⟨x, y, hx, htext, ?_⟩
    rw [htext, firstLine, lines_append_break hx]
    rfl
  · refine .inl ⟨hmem, ?_⟩
    cases text with
    | nil => rfl
    | cons b rest =>
      have hlines := lines_append hmem (List.cons_ne_nil b rest) []
      rw [List.append_nil] at hlines
      rw [firstLine, hlines]
      exact List.append_nil _

/-- A text is its first line and what comes after it. -/
theorem firstLine_append_drop (text : Bytes) :
    firstLine text ++ text.drop (firstLine text).length = text := by
  rcases firstLine_cases text with ⟨-, hline⟩ | ⟨x, y, -, rfl, hline⟩
  · rw [hline, List.drop_length, List.append_nil]
  · rw [hline]
    show x ++ [0x0a] ++ (x ++ ([0x0a] ++ y)).drop _ = x ++ ([0x0a] ++ y)
    rw [← List.append_assoc, List.drop_left]

end Bytes

/-! ## Regions -/

/-- Ways of not reading a text: it is copied, or dropped. -/
inductive Verbatim where
  | literal
  | comment

namespace Verbatim

variable (kind : Verbatim)

/-- The tag before the text. -/
def opener : Verbatim → String
  | literal => "literal"
  | comment => "comment"

/-- The tag after the text. -/
def closer : Verbatim → String
  | literal => "endliteral"
  | comment => "endcomment"

/-- The text between its tags, and then the rest. -/
def around (text rest : Bytes) : Bytes :=
  Directive.tag kind.opener ++ (text ++ (Directive.tag kind.closer ++ rest))

/-- What an artifact has of the text. -/
def shown : Verbatim → Bytes → Bytes
  | literal, text => text
  | comment, _ => []

/-- The check for raw code leaves the first line as it is, or it is dropped anyway and not refused. -/
def Keeps : Verbatim → Bytes → Prop
  | literal, text => RawCode.check (Bytes.firstLine text) = .clean
  | comment, text => ∀ offset, RawCode.check (Bytes.firstLine text) ≠ .executable offset

/-- What becomes of a session while the text goes by. -/
def Writes : Verbatim → Session → Bytes → Session → Prop
  | literal, before, text, after =>
    ∃ pieces : List Bytes, pieces.flatten = text ∧ after = pieces.foldl Session.write before
  | comment, before, _, after =>
    after = (before.write []).pauseAll.2.restore (before.write []).pauseAll.1

/-- The run behind the closing tag: so many lines on, two tags have been seen, and nothing else of
the source has changed. -/
structure Leaves (run : Run σ) (text : Bytes) (breaks : Nat) (atEnd : Bool) (run' : Run σ) : Prop where
  source : run'.source = { run.source with
    line := run.source.line + 1 + breaks
    currentTag := some kind.closer
    tagsSeen := run.source.tagsSeen + 2
    atEnd }
  session : kind.Writes run.session text run'.session
  memory : run'.memory = run.memory

end Verbatim

namespace Moment

variable {dispatch : Dispatch σ} {run : Run σ} {turns : Nat} {line : Bytes} {rest : List Bytes}
  {unchecked : Bool}

/-! ## Steps -/

theorem outcome_of_leads {feed : Feed} {m : Moment σ}
    (h : Leads dispatch (draining run feed) m) :
    outcome dispatch turns (draining run feed) = outcome dispatch turns m := by
  unfold Leads at h
  rw [outcome_draining, h]
  rfl

/-- While nothing else is read, a line is searched for the closing tag. -/
theorem step_verbatim (marker : String) (b : UInt8) (bytes : Bytes) (unchecked : Bool)
    (rest : List Bytes) :
    (Feed.mk (b :: bytes) unchecked rest).step (.verbatim (some marker)) =
      match Directive.findMarker? marker (b :: bytes) with
      | none => .text (b :: bytes) ⟨[], unchecked, rest⟩
      | some d =>
        .directive ((b :: bytes).take d.start) d ⟨(b :: bytes).drop d.stop, unchecked, rest⟩ := rfl

section

variable (hrunning : run.source.paused = false)
include hrunning

theorem outcome_newLine (line : Bytes) (rest : List Bytes) :
    outcome dispatch turns (draining run ⟨[], unchecked, line :: rest⟩) =
      outcome dispatch turns (draining run.nextLine ⟨line, true, rest⟩) :=
  outcome_of_leads (next_running hrunning _)

/-- Whether nothing was checked does not matter. -/
theorem outcome_nil (rest : List Bytes) :
    outcome dispatch turns (draining run ⟨[], unchecked, rest⟩) =
      outcome dispatch turns (draining run ⟨[], false, rest⟩) := by
  cases rest with
  | nil =>
    have hdone (unchecked : Bool) : Leads dispatch (draining run ⟨[], unchecked, []⟩)
      (putAway run ⟨[], unchecked, []⟩) := next_running hrunning _
    rw [outcome_of_leads (hdone unchecked), outcome_of_leads (hdone false)]
    rfl
  | cons line rest => rw [outcome_newLine hrunning, outcome_newLine hrunning]

/-- A line is checked before its directives are looked for. -/
theorem outcome_unchecked (hreading : run.source.reading = .directives) (line : Bytes)
    (rest : List Bytes) :
    outcome dispatch turns (draining run ⟨line, true, rest⟩) =
      match RawCode.accepted? line with
      | none => .error (.forbiddenMarker run.source.location) (run.session, run.memory)
      | some accepted => outcome dispatch turns (draining run ⟨accepted, false, rest⟩) := by
  cases line with
  | nil =>
    rw [RawCode.accepted?_nil]
    exact outcome_nil hrunning rest
  | cons b bytes =>
    rw [outcome_draining, next_running hrunning, hreading, step_unchecked]
    unfold RawCode.accepted?
    cases RawCode.check (b :: bytes) <;> rfl

variable {marker : String} (hreading : run.source.reading = .verbatim (some marker))
include hreading

/-- A line without the tag that is looked for is copied. -/
theorem outcome_copied (hnone : Directive.findMarker? marker line = none) (hne : line ≠ []) :
    outcome dispatch turns (draining run ⟨line, unchecked, rest⟩) =
      outcome dispatch turns (draining { run with session := run.session.write line }
        ⟨[], unchecked, rest⟩) := by
  obtain ⟨b, bytes, rfl⟩ := List.exists_cons_of_ne_nil hne
  refine outcome_of_leads ?_
  unfold Leads
  rw [next_running hrunning, hreading, step_verbatim, hnone]

variable (dispatch turns unchecked rest) in
/-- The tag that is looked for is handled, after the text before it. -/
theorem outcome_marked (hname : Directive.IsTagName marker)
    (hnone : Directive.findMarker? marker line = none) (after : Bytes) :
    outcome dispatch turns (draining run ⟨line ++ (Directive.tag marker ++ after), unchecked, rest⟩) =
      match handle dispatch (Directive.marked marker line.length (Directive.tagText marker 1 1))
        (run.approach line (Directive.marked marker line.length (Directive.tagText marker 1 1))
          (after.isEmpty && rest.isEmpty)) with
      | .ok _ run => outcome dispatch turns (draining run ⟨after, unchecked, rest⟩)
      | .error error run => .error error (run.session, run.memory) := by
  have hfind := Directive.findMarker?_append_tag hname hnone after
  obtain ⟨b, bytes, hline⟩ := List.exists_cons_of_ne_nil (Directive.ne_nil_of_findMarkerFrom hfind)
  have hstep : (Feed.mk (line ++ (Directive.tag marker ++ after)) unchecked rest).step
      (.verbatim (some marker)) =
      .directive line (Directive.marked marker line.length (Directive.tagText marker 1 1))
        ⟨after, unchecked, rest⟩ := by
    have hstop : (Directive.marked marker line.length (Directive.tagText marker 1 1)).stop =
        (line ++ Directive.tag marker).length := by
      rw [List.length_append]
      show line.length + 2 + (Directive.tagText marker 1 1).length =
        line.length + ((Directive.tagText marker 1 1).length + 2)
      omega
    have hbefore : (line ++ (Directive.tag marker ++ after)).take
        (Directive.marked marker line.length (Directive.tagText marker 1 1)).start = line :=
      List.take_left
    have hafter : (line ++ (Directive.tag marker ++ after)).drop
        (Directive.marked marker line.length (Directive.tagText marker 1 1)).stop = after := by
      rw [hstop, ← List.append_assoc, List.drop_left]
    rw [hline] at hfind hbefore hafter ⊢
    rw [step_verbatim, hfind]
    dsimp only
    rw [hbefore, hafter]
  rw [outcome_draining, next_running hrunning, hreading, hstep, ← meet_eq]
  dsimp only [Feed.atEnd]
  cases meet dispatch line (Directive.marked marker line.length (Directive.tagText marker 1 1))
    (after.isEmpty && rest.isEmpty) run <;> rfl

end

variable (dispatch turns rest) in
/-- A tag at the beginning of a line is handled. -/
theorem outcome_tag {name : String} (hrunning : run.source.paused = false)
    (hreading : run.source.reading = .directives) (hname : Directive.IsTagName name)
    (hquote : 0x27 ∉ Utf8.encode name) (after : Bytes) :
    ∃ d : Directive, d.kind = .tag ∧ d.isTerminated = true ∧
      d.name = Utf8.decode (Utf8.encode name) ∧ d.params = "" ∧
      outcome dispatch turns (draining run ⟨Directive.tag name ++ after, false, rest⟩) =
        match handle dispatch d (run.approach [] d (after.isEmpty && rest.isEmpty)) with
        | .ok _ run => outcome dispatch turns (draining run ⟨after, false, rest⟩)
        | .error error run => .error error (run.session, run.memory) := by
  have hwritten := Directive.written_marked ⟨hname, hquote⟩ 0 1 1 after
  refine ⟨Directive.marked name 0 (Directive.tagText name 1 1), rfl, rfl, hwritten.reads_name, rfl, ?_⟩
  have hfind : Directive.first? (Directive.tag name ++ after) =
      some (Directive.marked name 0 (Directive.tagText name 1 1)) :=
    Directive.first?_of_readAt? hwritten.readAt?_eq
  have hstop : (Directive.marked name 0 (Directive.tagText name 1 1)).stop =
      (Directive.tag name).length := by
    show 0 + 2 + (Directive.tagText name 1 1).length = (Directive.tagText name 1 1).length + 2
    omega
  have hstep : (Feed.mk (Directive.tag name ++ after) false rest).step .directives =
      .directive [] (Directive.marked name 0 (Directive.tagText name 1 1)) ⟨after, false, rest⟩ := by
    have hafter : (Directive.tag name ++ after).drop
        (Directive.marked name 0 (Directive.tagText name 1 1)).stop = after := by
      rw [hstop, List.drop_left]
    have hscan := step_checked 0x7b (0x25 :: Directive.tagText name 1 1 ++ after) rest
    rw [show (0x7b :: (0x25 :: Directive.tagText name 1 1 ++ after) : Bytes) =
      Directive.tag name ++ after from rfl, hfind] at hscan
    dsimp only at hscan
    rw [hscan, hafter]
    rfl
  rw [outcome_draining, next_running hrunning, hreading, hstep, ← meet_eq]
  dsimp only [Feed.atEnd]
  cases meet dispatch [] (Directive.marked name 0 (Directive.tagText name 1 1))
    (after.isEmpty && rest.isEmpty) run <;> rfl

end Moment

namespace Verbatim

variable (kind : Verbatim) {run : Run σ}

/-! ## Tags -/

theorem isTagName_opener : Directive.IsTagName kind.opener := by
  cases kind <;> exact ⟨by decide +kernel, by decide +kernel⟩

theorem isTagName_closer : Directive.IsTagName kind.closer := by
  cases kind <;> exact ⟨by decide +kernel, by decide +kernel⟩

/-- No marker begins in the tags. -/
theorem ne_of_mem_opener : ∀ b ∈ Directive.tag kind.opener, b ≠ 0x3c := by
  cases kind <;> decide +kernel

theorem ne_of_mem_closer : ∀ b ∈ Directive.tag kind.closer, b ≠ 0x3c := by
  cases kind <;> decide +kernel

/-- What the opening tag remembers. -/
def frame (session : Session) : Verbatim → FrameData
  | literal => .nothing
  | comment => .pauses session.pauseAll.1

/-- The session behind the opening tag. -/
def entered (session : Session) : Verbatim → Session
  | literal => session
  | comment => session.pauseAll.2

/-- The run behind the opening tag. -/
def enter (run : Run σ) : Run σ :=
  { run with
    session := kind.entered run.session
    source := { run.source with
      currentTag := some kind.opener
      tagsSeen := run.source.tagsSeen + 1
      reading := .verbatim (some kind.closer)
      hierarchy := run.source.hierarchy.push kind.opener (kind.frame run.session) } }

/-- A tag without parameters is read without warnings. -/
theorem read_empty (scene : Scene) (name : String) :
    Tag.read scene name "" = pure ⟨name, "", []⟩ := by
  have hlex : Lexeme.lex "".toList = [] := by
    rw [show "".toList = [] from rfl, Lexeme.lex]
  unfold Tag.read
  rw [hlex]
  rfl

theorem handle_opener {d : Directive} (hkind : d.kind = .tag)
    (hname : d.name = Utf8.decode (Utf8.encode kind.opener)) (hparams : d.params = "") (depth : Nat)
    (run : Run σ) :
    handle ((Library.standard : Library σ).dispatch (depth + 1)) d run = .ok ⟨⟩ (kind.enter run) := by
  have hdecoded : d.name = kind.opener := by
    rw [hname]
    cases kind <;> decide
  unfold handle
  rw [hkind, hdecoded, hparams]
  simp only [read_empty]
  cases kind <;> rfl

/-- The run behind the closing tag. -/
def leave (run : Run σ) (hierarchy : Hierarchy FrameData) (session : Session) : Run σ :=
  { run with
    session
    source := { run.source with
      currentTag := some kind.closer
      tagsSeen := run.source.tagsSeen + 1
      reading := .directives
      hierarchy } }

/-- The session behind the closing tag, given the one before the opening tag. -/
def left (before session : Session) : Verbatim → Session
  | literal => session
  | comment => session.restore before.pauseAll.1

theorem pop_push {α : Type} {tag : String} {view : FrameData → Option α} {data : FrameData} {a : α}
    {hierarchy : Hierarchy FrameData} (hopen : run.source.hierarchy = hierarchy.push tag data)
    (hview : view data = some a) :
    Action.pop tag view run = .ok a { run with source := { run.source with hierarchy } } := by
  have hget {β : Type} (f : Source → Action σ β) : (Action.source >>= f) run = f run.source run := rfl
  unfold Action.pop
  rw [hget, hopen, Hierarchy.pop_push]
  dsimp only
  unfold Action.expect
  rw [hview]
  rfl

theorem handle_closer {hierarchy : Hierarchy FrameData} {before : Session}
    (hopen : run.source.hierarchy = hierarchy.push kind.opener (kind.frame before)) (length : Nat)
    (depth : Nat) :
    handle ((Library.standard : Library σ).dispatch (depth + 1))
        (Directive.marked kind.closer length (Directive.tagText kind.closer 1 1)) run =
      .ok ⟨⟩ (kind.leave run hierarchy (kind.left before run.session)) := by
  unfold handle
  simp only [Directive.marked, Directive.kind, read_empty]
  -- the run in which the handler is called
  generalize hcalled : { run with
    source := { run.source with
      currentTag := some kind.closer
      tagsSeen := run.source.tagsSeen + 1 } } = called
  have hopen' : called.source.hierarchy = hierarchy.push kind.opener (kind.frame before) := by
    rw [← hcalled]
    exact hopen
  cases kind with
  | literal =>
    have hpop : Action.pop _ Standard.asNothing called = .ok ⟨⟩ _ := pop_push hopen' rfl
    have hhandler : Standard.onEndLiteral ((Library.standard : Library σ).dispatch depth)
        ⟨"endliteral", "", []⟩ called = _ := bind_eq_ok.2 ⟨_, _, hpop, rfl⟩
    subst hcalled
    exact hhandler
  | comment =>
    have hpop : Action.pop _ Standard.asPauses called = .ok before.pauseAll.1 _ := pop_push hopen' rfl
    have hhandler : Standard.onEndComment ((Library.standard : Library σ).dispatch depth)
        ⟨"endcomment", "", []⟩ called = _ := bind_eq_ok.2 ⟨_, _, hpop, rfl⟩
    subst hcalled
    exact hhandler

end Verbatim

theorem Bytes.isEmpty_firstLine (text : Bytes) :
    ((firstLine text).isEmpty && (lines text).tail.isEmpty) = text.isEmpty := by
  have hflatten := flatten_lines text
  unfold firstLine
  cases hlines : lines text with
  | nil =>
    rw [hlines] at hflatten
    rw [← hflatten]
    rfl
  | cons line rest =>
    have hne : line ≠ [] := ne_nil_of_mem_lines (hlines ▸ List.mem_cons_self)
    obtain ⟨b, bytes, rfl⟩ := List.exists_cons_of_ne_nil hne
    rw [hlines] at hflatten
    rw [← hflatten]
    rfl

/-- Nothing is left of a text if nothing is left of what is accepted of it. -/
theorem Bytes.isEmpty_accepted {text after : Bytes}
    (h : RawCode.accepted? (firstLine text) = some after) :
    (after.isEmpty && (lines text).tail.isEmpty) = text.isEmpty := by
  rw [RawCode.isEmpty_accepted h, isEmpty_firstLine]

/-! ## Going by -/

/-- The run after text has been written to its session, on so many more lines. -/
def Run.Copied (start : Run σ) (text : Bytes) (breaks : Nat) (run : Run σ) : Prop :=
  ∃ pieces : List Bytes, pieces.flatten = text ∧ run = { start with
    session := pieces.foldl Session.write start.session
    source := { start.source with line := start.source.line + breaks } }

namespace Run.Copied

variable {start run : Run σ} {text : Bytes} {breaks : Nat}

theorem refl (start : Run σ) : start.Copied [] 0 start :=
  ⟨[], rfl, rfl⟩

theorem nextLine (h : start.Copied text breaks run) : start.Copied text (breaks + 1) run.nextLine := by
  obtain ⟨pieces, hpieces, rfl⟩ := h
  exact ⟨pieces, hpieces, rfl⟩

theorem write (h : start.Copied text breaks run) (piece : Bytes) :
    start.Copied (text ++ piece) breaks { run with session := run.session.write piece } := by
  obtain ⟨pieces, hpieces, rfl⟩ := h
  refine ⟨pieces ++ [piece], ?_, ?_⟩
  · rw [List.flatten_append, hpieces, List.flatten_singleton]
  · rw [List.foldl_append]
    rfl

theorem paused (h : start.Copied text breaks run) : run.source.paused = start.source.paused := by
  obtain ⟨pieces, -, rfl⟩ := h
  rfl

theorem reading (h : start.Copied text breaks run) : run.source.reading = start.source.reading := by
  obtain ⟨pieces, -, rfl⟩ := h
  rfl

theorem hierarchy (h : start.Copied text breaks run) :
    run.source.hierarchy = start.source.hierarchy := by
  obtain ⟨pieces, -, rfl⟩ := h
  rfl

end Run.Copied

theorem Destination.writeAll_paused (disk : Disk) (piece : Bytes) {ds : List Destination}
    (h : ∀ d ∈ ds, d.paused = true) : writeAll disk piece ds = (ds, disk) := by
  induction ds with
  | nil => rfl
  | cons d ds ih =>
    obtain ⟨hd, hds⟩ := List.forall_mem_cons.1 h
    have hwrite : d.write disk piece = (d, disk) := by
      unfold Destination.write
      rw [hd]
    rw [writeAll, hwrite]
    dsimp only
    rw [ih hds]

/-- While everything is paused, nothing is written. -/
theorem Session.foldl_write_pauseAll (session : Session) (pieces : List Bytes) :
    pieces.foldl Session.write session.pauseAll.2 = session.pauseAll.2 := by
  have hwrite (piece : Bytes) : session.pauseAll.2.write piece = session.pauseAll.2 := by
    have hothers : ∀ d ∈ session.pauseAll.2.others, d.paused = true := by
      intro d hd
      obtain ⟨d', -, rfl⟩ := List.mem_map.1 hd
      rfl
    have hmain : session.pauseAll.2.main.write session.pauseAll.2.disk piece =
        (session.pauseAll.2.main, session.pauseAll.2.disk) := rfl
    unfold Session.write
    rw [hmain]
    dsimp only
    rw [Destination.writeAll_paused _ _ hothers]
  induction pieces with
  | nil => rfl
  | cons piece pieces ih => rw [List.foldl_cons, hwrite, ih]

namespace Verbatim

open Moment

variable (kind : Verbatim) (dispatch : Dispatch σ) (turns : Nat) (unchecked : Bool) {run : Run σ}

/-- The first line of a text in its tags, and the lines after it. -/
theorem lines_around (text rest : Bytes) :
    Bytes.lines (kind.around text rest) =
      (Directive.tag kind.opener ++ Bytes.firstLine (text ++ (Directive.tag kind.closer ++ rest))) ::
        (Bytes.lines (text ++ (Directive.tag kind.closer ++ rest))).tail :=
  Bytes.lines_append (by cases kind <;> decide) (List.cons_ne_nil _ _) _

/-- The lines from the closing tag on. -/
theorem lines_closer {last : Bytes} (hlast : 0x0a ∉ last) (rest : Bytes) :
    Bytes.lines (last ++ (Directive.tag kind.closer ++ rest)) =
      (last ++ (Directive.tag kind.closer ++ Bytes.firstLine rest)) :: (Bytes.lines rest).tail := by
  have htag : 0x0a ∉ Directive.tag kind.closer := by cases kind <;> decide
  have hjoined : 0x0a ∉ last ++ Directive.tag kind.closer := by
    rw [List.mem_append, not_or]
    exact ⟨hlast, htag⟩
  have hne : last ++ Directive.tag kind.closer ≠ [] :=
    List.append_ne_nil_of_right_ne_nil _ (List.cons_ne_nil _ _)
  rw [← List.append_assoc, Bytes.lines_append hjoined hne, List.append_assoc]

/-- The run behind an opening tag at the beginning of the next line. -/
def entering (run : Run σ) (atEnd : Bool) : Run σ :=
  kind.enter { run.nextLine with
    session := run.session.write []
    source := { run.nextLine.source with atEnd } }

/-- A line break parts the search for the closing tag. -/
theorem findMarker?_break {x y : Bytes}
    (hnone : Directive.findMarker? kind.closer (x ++ 0x0a :: y) = none) :
    Directive.findMarker? kind.closer (x ++ [0x0a]) = none ∧
      Directive.findMarker? kind.closer y = none := by
  have hparts : Directive.Parts 0x0a := ⟨by decide, by decide, by decide, by decide⟩
  unfold Directive.findMarker? at hnone
  rw [Directive.findMarkerFrom_append kind.isTagName_closer hparts, Option.or_eq_none_iff] at hnone
  obtain ⟨hfirst, hsecond⟩ := hnone
  constructor
  · unfold Directive.findMarker?
    rw [Directive.findMarkerFrom_append kind.isTagName_closer hparts, hfirst, Option.none_or]
    rfl
  · exact Directive.findMarker?_right (x := [0x0a]) (Directive.findMarkerFrom_eq_none.1 hsecond)

/-- Text that is not read goes by line by line, up to the line of the closing tag. -/
theorem outcome_body {start : Run σ} (hrunning : start.source.paused = false)
    (hreading : start.source.reading = .verbatim (some kind.closer)) (rest : Bytes) {body : Bytes}
    (hnone : Directive.findMarker? kind.closer body = none) {text : Bytes} {breaks : Nat}
    (hcopied : start.Copied text breaks run) :
    ∃ before last run', body = before ++ last ∧ Directive.findMarker? kind.closer last = none ∧
      start.Copied (text ++ before) (breaks + 1 + Bytes.breaks body) run' ∧
      outcome dispatch turns (draining run
          ⟨[], unchecked, Bytes.lines (body ++ (Directive.tag kind.closer ++ rest))⟩) =
        outcome dispatch turns (draining run'
          ⟨last ++ (Directive.tag kind.closer ++ Bytes.firstLine rest), true,
            (Bytes.lines rest).tail⟩) := by
  induction hlength : body.length using Nat.strongRecOn generalizing body text breaks run unchecked with
  | ind n ih =>
    subst hlength
    have hpaused : run.source.paused = false := hcopied.paused.trans hrunning
    rcases Bytes.firstLine_cases body with ⟨hbody, -⟩ | ⟨x, y, hx, rfl, -⟩
    · refine ⟨[], body, run.nextLine, rfl, hnone, ?_, ?_⟩
      · rw [List.append_nil, Bytes.breaks, List.count_eq_zero.2 hbody]
        exact hcopied.nextLine
      · rw [kind.lines_closer hbody, outcome_newLine hpaused]
    · obtain ⟨hline, hy⟩ := kind.findMarker?_break hnone
      have hpaused' : run.nextLine.source.paused = false := hpaused
      have hread : run.nextLine.source.reading = .verbatim (some kind.closer) :=
        hcopied.reading.trans hreading
      have hlt : y.length < (x ++ 0x0a :: y).length := by
        rw [List.length_append, List.length_cons]
        omega
      obtain ⟨before, last, run', rfl, hlast, hdone, houtcome⟩ :=
        ih y.length hlt true hy (hcopied.nextLine.write (x ++ [0x0a])) rfl
      refine ⟨x ++ [0x0a] ++ before, last, run', ?_, hlast, ?_, ?_⟩
      · simp only [List.append_assoc, List.cons_append, List.nil_append]
      · rw [← List.append_assoc]
        have hbreaks : Bytes.breaks (x ++ 0x0a :: (before ++ last)) =
            Bytes.breaks (before ++ last) + 1 := by
          unfold Bytes.breaks
          rw [List.count_append, List.count_eq_zero.2 hx, List.count_cons_self, Nat.zero_add]
        have hcount : breaks + 1 + (Bytes.breaks (before ++ last) + 1) =
            breaks + 1 + 1 + Bytes.breaks (before ++ last) := by omega
        rw [hbreaks, hcount]
        exact hdone
      · rw [List.append_assoc, List.cons_append, Bytes.lines_append_break hx, outcome_newLine hpaused,
          outcome_copied hpaused' hread hline (List.append_ne_nil_of_right_ne_nil _ (List.cons_ne_nil _ _))]
        exact houtcome

/-- A line that begins with the opening tag, and is accepted. -/
theorem outcome_entered (hrunning : run.source.paused = false)
    (hreading : run.source.reading = .directives) (depth : Nat) {line accepted : Bytes}
    (haccepted : RawCode.accepted? line = some accepted) (rest : List Bytes) :
    ∃ atEnd, outcome ((Library.standard : Library σ).dispatch (depth + 1)) turns
        (draining run ⟨[], unchecked, (Directive.tag kind.opener ++ line) :: rest⟩) =
      outcome ((Library.standard : Library σ).dispatch (depth + 1)) turns
        (draining (kind.entering run atEnd) ⟨accepted, false, rest⟩) := by
  have htag := kind.ne_of_mem_opener
  have hquote : 0x27 ∉ Utf8.encode kind.opener := by cases kind <;> decide
  have hpaused : run.nextLine.source.paused = false := hrunning
  have hread : run.nextLine.source.reading = .directives := hreading
  obtain ⟨d, hkind, hterminated, hname, hparams, houtcome⟩ :=
    outcome_tag ((Library.standard : Library σ).dispatch (depth + 1)) turns rest hpaused hread
      kind.isTagName_opener hquote accepted
  refine ⟨accepted.isEmpty && rest.isEmpty, ?_⟩
  rw [outcome_newLine hrunning, outcome_unchecked hpaused hread, RawCode.accepted?_skip htag,
    haccepted, Option.map_some]
  dsimp only
  rw [houtcome, kind.handle_opener hkind hname hparams]
  dsimp only
  unfold Run.approach entering
  rw [hterminated]
  rfl

theorem outcome_refused (hrunning : run.source.paused = false)
    (hreading : run.source.reading = .directives) {line : Bytes}
    (hrefused : RawCode.accepted? line = none) (rest : List Bytes) :
    outcome dispatch turns (draining run ⟨[], unchecked, (Directive.tag kind.opener ++ line) :: rest⟩) =
      .error (.forbiddenMarker ⟨run.source.path, run.source.line + 1⟩) (run.session, run.memory) := by
  have htag := kind.ne_of_mem_opener
  have hpaused : run.nextLine.source.paused = false := hrunning
  have hread : run.nextLine.source.reading = .directives := hreading
  rw [outcome_newLine hrunning, outcome_unchecked hpaused hread, RawCode.accepted?_skip htag,
    hrefused, Option.map_none]
  rfl

/-- The closing tag is handled, after the last of the text. -/
theorem outcome_left (depth : Nat) {start : Run σ} (hrunning : start.source.paused = false)
    (hreading : start.source.reading = .directives) {atEnd : Bool} {text last : Bytes} {breaks : Nat}
    (hcopied : (kind.entering start atEnd).Copied text breaks run)
    (hlast : Directive.findMarker? kind.closer last = none) (after : Bytes) (rest : List Bytes) :
    ∃ run', kind.Leaves start (text ++ last) breaks (after.isEmpty && rest.isEmpty) run' ∧
      outcome ((Library.standard : Library σ).dispatch (depth + 1)) turns
          (draining run ⟨last ++ (Directive.tag kind.closer ++ after), unchecked, rest⟩) =
        outcome ((Library.standard : Library σ).dispatch (depth + 1)) turns
          (draining run' ⟨after, unchecked, rest⟩) := by
  have hpaused : run.source.paused = false := hcopied.paused.trans hrunning
  have hread : run.source.reading = .verbatim (some kind.closer) := hcopied.reading.trans rfl
  have hopen : (run.approach last (Directive.marked kind.closer last.length
      (Directive.tagText kind.closer 1 1)) (after.isEmpty && rest.isEmpty)).source.hierarchy =
      start.source.hierarchy.push kind.opener (kind.frame (start.session.write [])) :=
    hcopied.hierarchy.trans rfl
  have houtcome := outcome_marked ((Library.standard : Library σ).dispatch (depth + 1)) turns rest
    unchecked hpaused hread kind.isTagName_closer hlast after
  rw [kind.handle_closer hopen] at houtcome
  refine ⟨_, ?_, houtcome⟩
  obtain ⟨pieces, hpieces, rfl⟩ := hcopied
  refine ⟨?_, ?_, rfl⟩
  · unfold leave entering enter Run.approach Run.nextLine
    rw [← hreading]
  · cases kind with
    | literal =>
      refine ⟨[] :: (pieces ++ [last]), ?_, ?_⟩
      · rw [List.flatten_cons, List.nil_append, List.flatten_append, hpieces, List.flatten_singleton]
      · rw [List.foldl_cons, List.foldl_append]
        rfl
    | comment =>
      have hpaused := Session.foldl_write_pauseAll (start.session.write []) (pieces ++ [last])
      rw [List.foldl_append] at hpaused
      exact congrArg (Session.restore · (start.session.write []).pauseAll.1) hpaused

/-! ## Whole regions -/

/-- A text whose first line is refused makes the compile fail. -/
theorem outcome_around_refused (hrunning : run.source.paused = false)
    (hreading : run.source.reading = .directives) {text : Bytes}
    (hrefused : RawCode.accepted? (Bytes.firstLine text) = none) (rest : Bytes) :
    outcome dispatch turns (draining run (Feed.ofText (kind.around text rest))) =
      .error (.forbiddenMarker ⟨run.source.path, run.source.line + 1⟩) (run.session, run.memory) := by
  have hfirst : RawCode.accepted?
      (Bytes.firstLine (text ++ (Directive.tag kind.closer ++ rest))) = none := by
    rcases Bytes.firstLine_cases text with ⟨hbreaks, hline⟩ | ⟨x, y, hx, rfl, hline⟩
    · rw [hline] at hrefused
      rw [Bytes.firstLine, kind.lines_closer hbreaks]
      show RawCode.accepted? (text ++ 0x7b :: _) = none
      rw [RawCode.accepted?_append, hrefused]
      rfl
    · rw [hline] at hrefused
      rw [List.append_assoc, List.cons_append, Bytes.firstLine, Bytes.lines_append_break hx]
      exact hrefused
  unfold Feed.ofText
  rw [kind.lines_around]
  exact kind.outcome_refused _ turns false hrunning hreading hfirst _

theorem findMarker?_firstLine {text : Bytes} (hnone : Directive.findMarker? kind.closer text = none) :
    Directive.findMarker? kind.closer (Bytes.firstLine text) = none := by
  rcases Bytes.firstLine_cases text with ⟨-, hline⟩ | ⟨x, y, -, rfl, hline⟩
  · rwa [hline]
  · rw [hline]
    exact (kind.findMarker?_break hnone).1

/-- What comes of a region with the content `content`: a line behind it that is refused makes the
compile fail, and after any other one reading goes on behind it. -/
structure GoesBy (depth : Nat) (run : Run σ) (text content rest : Bytes) : Prop where
  refused : RawCode.accepted? (Bytes.firstLine rest) = none → ∃ state,
    outcome ((Library.standard : Library σ).dispatch (depth + 1)) turns
        (draining run (Feed.ofText (kind.around text rest))) =
      .error (.forbiddenMarker ⟨run.source.path, run.source.line + 1 + Bytes.breaks text⟩) state
  goesOn : ∀ after, RawCode.accepted? (Bytes.firstLine rest) = some after → ∃ run',
    kind.Leaves run content (Bytes.breaks text) rest.isEmpty run' ∧
    outcome ((Library.standard : Library σ).dispatch (depth + 1)) turns
        (draining run (Feed.ofText (kind.around text rest))) =
      outcome ((Library.standard : Library σ).dispatch (depth + 1)) turns
        (draining run' ⟨after, false, (Bytes.lines rest).tail⟩)

/-- The line of both tags is accepted as its parts are. -/
theorem accepted?_closer {text first : Bytes} (haccepted : RawCode.accepted? text = some first)
    (rest : Bytes) : RawCode.accepted? (text ++ (Directive.tag kind.closer ++ rest)) =
      (RawCode.accepted? rest).map fun after => first ++ (Directive.tag kind.closer ++ after) := by
  show RawCode.accepted? (text ++ 0x7b :: _) = _
  rw [RawCode.accepted?_append, haccepted, Option.bind_some]
  show (RawCode.accepted? (Directive.tag kind.closer ++ rest)).map _ = _
  rw [RawCode.accepted?_skip kind.ne_of_mem_closer, Option.map_map]
  rfl

/-- The closing tag is on the line of the opening tag. -/
theorem goesBy_line (depth : Nat) (hrunning : run.source.paused = false)
    (hreading : run.source.reading = .directives) {text first : Bytes} (hbreaks : 0x0a ∉ text)
    (hfirst : Directive.findMarker? kind.closer first = none)
    (haccepted : RawCode.accepted? text = some first) (rest : Bytes) :
    kind.GoesBy turns depth run text first rest := by
  have hlines := kind.lines_around text rest
  rw [Bytes.firstLine, kind.lines_closer hbreaks, List.head?_cons, Option.getD_some,
    List.tail_cons] at hlines
  have hwhole := kind.accepted?_closer haccepted (Bytes.firstLine rest)
  have hnone : Bytes.breaks text = 0 := List.count_eq_zero.2 hbreaks
  constructor
  · intro hrest
    rw [hrest, Option.map_none] at hwhole
    rw [hnone, Feed.ofText, hlines]
    exact ⟨_, kind.outcome_refused _ turns false hrunning hreading hwhole _⟩
  · intro after hrest
    rw [hrest, Option.map_some] at hwhole
    rw [hnone, Feed.ofText, hlines]
    obtain ⟨atEnd, hentered⟩ := kind.outcome_entered turns false hrunning
      hreading depth hwhole (Bytes.lines rest).tail
    obtain ⟨run', hleaves, hleft⟩ := kind.outcome_left turns false depth
      hrunning hreading (Run.Copied.refl (kind.entering run atEnd)) hfirst after (Bytes.lines rest).tail
    rw [List.nil_append, Bytes.isEmpty_accepted hrest] at hleaves
    exact ⟨run', hleaves, hentered.trans hleft⟩

/-- A region that spans lines is read to its end, where the line of the closing tag is left to be
checked. -/
theorem outcome_spanning (depth : Nat) (hrunning : run.source.paused = false)
    (hreading : run.source.reading = .directives) {x y first : Bytes} (hx : 0x0a ∉ x)
    (hnone : Directive.findMarker? kind.closer y = none)
    (hfirst : Directive.findMarker? kind.closer first = none)
    (haccepted : RawCode.accepted? (x ++ [0x0a]) = some first) (rest : Bytes) :
    ∃ run', kind.Leaves run (first ++ y) (Bytes.breaks (x ++ 0x0a :: y)) rest.isEmpty run' ∧
      outcome ((Library.standard : Library σ).dispatch (depth + 1)) turns
          (draining run (Feed.ofText (kind.around (x ++ 0x0a :: y) rest))) =
        outcome ((Library.standard : Library σ).dispatch (depth + 1)) turns
          (draining run' ⟨Bytes.firstLine rest, true, (Bytes.lines rest).tail⟩) := by
  have hlines := kind.lines_around (x ++ 0x0a :: y) rest
  rw [List.append_assoc, List.cons_append, Bytes.firstLine, Bytes.lines_append_break hx,
    List.head?_cons, Option.getD_some, List.tail_cons] at hlines
  have hbreaks : Bytes.breaks (x ++ 0x0a :: y) = 0 + 1 + Bytes.breaks y := by
    unfold Bytes.breaks
    rw [List.count_append, List.count_eq_zero.2 hx, List.count_cons_self]
    omega
  have hne : first ≠ [] := by
    rintro rfl
    have hempty := RawCode.isEmpty_accepted haccepted
    cases x <;> cases hempty
  obtain ⟨atEnd, hentered⟩ := kind.outcome_entered turns false hrunning
    hreading depth haccepted (Bytes.lines (y ++ (Directive.tag kind.closer ++ rest)))
  have hpaused : (kind.entering run atEnd).source.paused = false := hrunning
  have hread : (kind.entering run atEnd).source.reading = .verbatim (some kind.closer) := rfl
  have hcopied := (Run.Copied.refl (kind.entering run atEnd)).write first
  obtain ⟨before, last, passed, rfl, hlast, hpassed, hbody⟩ := kind.outcome_body
    ((Library.standard : Library σ).dispatch (depth + 1)) turns false hpaused hread rest hnone hcopied
  obtain ⟨run', hleaves, hleft⟩ := kind.outcome_left turns true depth
    hrunning hreading hpassed hlast (Bytes.firstLine rest) (Bytes.lines rest).tail
  rw [List.nil_append, List.append_assoc, Bytes.isEmpty_firstLine, ← hbreaks] at hleaves
  refine ⟨run', hleaves, ?_⟩
  unfold Feed.ofText
  rw [hlines, hentered, outcome_copied hpaused hread hfirst hne, hbody, hleft]

/-- The closing tag is on a later line. -/
theorem goesBy_lines (depth : Nat) (hrunning : run.source.paused = false)
    (hreading : run.source.reading = .directives) {x y first : Bytes} (hx : 0x0a ∉ x)
    (hnone : Directive.findMarker? kind.closer y = none)
    (hfirst : Directive.findMarker? kind.closer first = none)
    (haccepted : RawCode.accepted? (x ++ [0x0a]) = some first) (rest : Bytes) :
    kind.GoesBy turns depth run (x ++ 0x0a :: y) (first ++ y) rest := by
  obtain ⟨run', hleaves, hspans⟩ :=
    kind.outcome_spanning turns depth hrunning hreading hx hnone hfirst haccepted rest
  have hrunning' : run'.source.paused = false := by
    rw [hleaves.source]
    exact hrunning
  have hreading' : run'.source.reading = .directives := by
    rw [hleaves.source]
    exact hreading
  rw [outcome_unchecked hrunning' hreading'] at hspans
  constructor
  · intro hrest
    rw [hrest] at hspans
    dsimp only at hspans
    rw [Source.location, hleaves.source] at hspans
    exact ⟨_, hspans⟩
  · intro after hrest
    rw [hrest] at hspans
    exact ⟨run', hleaves, hspans⟩

/-- **Text that is not read goes by**: unless a line with one of its tags is refused, reading goes on
behind it. -/
theorem outcome_around (depth : Nat) (hrunning : run.source.paused = false)
    (hreading : run.source.reading = .directives) {text first : Bytes}
    (hnone : Directive.findMarker? kind.closer text = none)
    (haccepted : RawCode.accepted? (Bytes.firstLine text) = some first) (rest : Bytes) :
    kind.GoesBy turns depth run text (first ++ text.drop (Bytes.firstLine text).length) rest := by
  have hfirst := Directive.findMarker?_accepted kind.isTagName_closer haccepted
    (kind.findMarker?_firstLine hnone)
  rcases Bytes.firstLine_cases text with ⟨hbreaks, hline⟩ | ⟨x, y, hx, rfl, hline⟩
  · rw [hline] at haccepted ⊢
    rw [List.drop_length, List.append_nil]
    exact kind.goesBy_line turns depth hrunning hreading hbreaks hfirst haccepted rest
  · have hdrop : (x ++ 0x0a :: y).drop (x ++ [0x0a]).length = y := by
      rw [List.append_cons x 0x0a y, List.drop_left]
    rw [hline] at haccepted ⊢
    rw [hdrop]
    exact kind.goesBy_lines turns depth hrunning hreading hx (kind.findMarker?_break hnone).2 hfirst
      haccepted rest

end Verbatim

end TemplateCompiler
