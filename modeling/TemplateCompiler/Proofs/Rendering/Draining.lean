import TemplateCompiler.Proofs.Destination.Content
import TemplateCompiler.Proofs.Rendering.Handlers
import TemplateCompiler.Proofs.Rendering.Scanning
import TemplateCompiler.Proofs.Transcript.Draining

/-!
# Rendering

A text is rendered line by line: every line is checked, scanned once, and each of its directives is
replaced by what it writes when it is dispatched (`Renders`). Draining works on a buffer from which
pieces are taken, and scans what is left of it anew each time, but it does the same.
-/
namespace TemplateCompiler

open Markup

variable {σ : Type} {dispatch : Dispatch σ}

/-! ## Lines -/

/-- What a line is rendered as: itself, or with its markers printed. A line with an executable marker
is refused. -/
def Markup.RawCode.accepted? (line : Bytes) : Option Bytes :=
  match check line with
  | .executable _ => none
  | .clean => some line
  | .defused line => some line

/-- The line from the given offset on, each of the directives replaced by its text. -/
def splice (line : Bytes) : Nat → List Directive → List Bytes → Bytes
  | offset, d :: ds, text :: texts =>
    (line.take d.start).drop offset ++ text ++ splice line d.stop ds texts
  | offset, _, _ => line.drop offset

/-! ## Runs -/

/-- Everything that was written to the main artifact, held back or not. -/
def Session.written (session : Session) : Bytes :=
  match session.main.writer with
  | some writer => (session.disk.contentAt? writer.place).getD [] ++ writer.held
  | none => []

namespace Run

/-- The run with the next line being read. -/
def nextLine (run : Run σ) : Run σ :=
  { run with source := { run.source with line := run.source.line + 1 } }

/-- The run after the rest of a line has been written, if anything is left of it. -/
def passOn (run : Run σ) (text : Bytes) : Run σ :=
  if text.isEmpty then run else { run with session := run.session.write text }

/-- The run that a directive is dispatched in: the text before it has been written, after a warning
if it has no closer. -/
def approach (run : Run σ) (before : Bytes) (d : Directive) (atEnd : Bool) : Run σ :=
  { run with
    session :=
      (if d.isTerminated then run.session
        else run.session.warn ⟨"line terminated before end of tag", run.source.location⟩).write before
    source := { run.source with atEnd } }

end Run

/-! ## The reference -/

/-- The directives are dispatched one after another, each of them once, and write the given texts.
Between them the line is passed on, from the given offset to its end; `last` tells whether it is the
last line. -/
inductive Dispatches (dispatch : Dispatch σ) (line : Bytes) (last : Bool) :
    Nat → List Directive → Run σ → List Bytes → Run σ → Prop
  | nil {offset : Nat} {run : Run σ} :
    Dispatches dispatch line last offset [] run [] (run.passOn (line.drop offset))
  | cons {offset : Nat} {d : Directive} {ds : List Directive} {run before after run' : Run σ}
    {text : Bytes} {texts : List Bytes}
    (hbefore : before = run.approach ((line.take d.start).drop offset) d
      ((line.drop d.stop).isEmpty && last))
    (hhandle : handle dispatch d before = .ok ⟨⟩ after)
    (htext : after.session.written = before.session.written ++ text)
    (hrest : Dispatches dispatch line last d.stop ds after texts run') :
    Dispatches dispatch line last offset (d :: ds) run (text :: texts) run'

/-- The lines are rendered one after another, more lines coming after them. -/
inductive Renders (dispatch : Dispatch σ) (more : List Bytes) :
    List Bytes → Run σ → Bytes → Run σ → Prop
  | nil {run : Run σ} : Renders dispatch more [] run [] run
  | cons {line accepted out : Bytes} {lines texts : List Bytes} {run after run' : Run σ}
    (haccepted : RawCode.accepted? line = some accepted)
    (hline : Dispatches dispatch accepted (lines ++ more).isEmpty 0 (Directive.all accepted)
      run.nextLine texts after)
    (hrest : Renders dispatch more lines after out run') :
    Renders dispatch more (line :: lines) run
      (splice accepted 0 (Directive.all accepted) texts ++ out) run'

/-! ## What stays as it is -/

/-- The session has gone on from one that began with nothing in its artifact, and its artifact holds
the content; there are no other artifacts. -/
structure Session.Holds (start session : Session) (content : Bytes) : Prop where
  rest : session = { start with
    main := session.main
    disk := session.disk
    warnings := session.warnings
    slots := session.slots
    drained := session.drained }
  alone : start.others = []
  path : session.main.path = start.main.path
  main : session.main.Shows session.disk { content }

namespace Session.Holds

variable {start session session' : Session} {content : Bytes}

theorem written (h : start.Holds session content) : session.written = content := by
  obtain ⟨writer, hwriter, -, sent, hsent, -, hcontent⟩ := h.main.written rfl
  rw [Session.written, hwriter]
  show (session.disk.contentAt? writer.place).getD [] ++ writer.held = content
  rw [hsent]
  exact hcontent.symm

theorem write (h : start.Holds session content) (piece : Bytes) :
    start.Holds (session.write piece) (content ++ piece) := by
  obtain ⟨hshows, -⟩ := h.main.write piece
  have hothers : session.others = [] := by
    rw [h.rest]
    exact h.alone
  have hwrite : session.write piece = { session with
      main := (session.main.write session.disk piece).1
      disk := (session.main.write session.disk piece).2 } := by
    unfold Session.write
    rw [hothers]
    rfl
  rw [hwrite]
  refine ⟨?_, h.alone, ?_, hshows⟩
  · rw [h.rest]
  · exact (Destination.sameAs_write session.main session.disk piece).2.1.trans h.path

theorem wrote (h : start.Holds session content) (hwrote : session.Wrote session') :
    ∃ text, start.Holds session' (content ++ text) := by
  obtain ⟨pieces, warnings, slots, rfl⟩ := hwrote
  suffices ∃ text, start.Holds (pieces.foldl Session.write session) (content ++ text) by
    obtain ⟨text, htext⟩ := this
    refine ⟨text, ?_, htext.alone, htext.path, htext.main⟩
    rw [htext.rest]
  induction pieces generalizing session content with
  | nil => exact ⟨[], by rwa [List.append_nil]⟩
  | cons piece pieces ih =>
    obtain ⟨text, htext⟩ := ih (h.write piece)
    exact ⟨piece ++ text, by rwa [List.append_assoc] at htext⟩

/-- How many sources were read to their end does not matter. -/
theorem drain (h : start.Holds session content) {drained : Nat} :
    start.Holds { session with drained } content where
  rest := by rw [h.rest]
  alone := h.alone
  path := h.path
  main := h.main

end Session.Holds

/-- The run goes on from a source that reads directives, which is at the given line, and from a
session whose artifact was empty. -/
structure Run.GoesOn (source : Source) (start : Session) (line : Nat) (content : Bytes)
    (run : Run σ) : Prop where
  active : ∃ tag tagsSeen atEnd, run.source = { source with
    line
    currentTag := tag
    tagsSeen
    atEnd }
  reading : source.reading = .directives
  running : source.paused = false
  session : start.Holds run.session content

namespace Run.GoesOn

variable {source : Source} {start : Session} {line : Nat} {content : Bytes} {run run' : Run σ}

theorem nextLine (h : run.GoesOn source start line content) :
    run.nextLine.GoesOn source start (line + 1) content := by
  obtain ⟨tag, tagsSeen, atEnd, hsource⟩ := h.active
  refine ⟨⟨tag, tagsSeen, atEnd, ?_⟩, h.reading, h.running, h.session⟩
  show { run.source with line := run.source.line + 1 } = _
  rw [hsource]

theorem passOn (h : run.GoesOn source start line content) (text : Bytes) :
    (run.passOn text).GoesOn source start line (content ++ text) := by
  unfold Run.passOn
  split
  · next hempty =>
    rw [List.isEmpty_iff.1 hempty, List.append_nil]
    exact h
  · exact ⟨h.active, h.reading, h.running, h.session.write text⟩

theorem approach (h : run.GoesOn source start line content) (before : Bytes) (d : Directive)
    (atEnd : Bool) : (run.approach before d atEnd).GoesOn source start line (content ++ before) := by
  obtain ⟨tag, tagsSeen, ended, hsource⟩ := h.active
  refine ⟨⟨tag, tagsSeen, atEnd, ?_⟩, h.reading, h.running, Session.Holds.write ?_ before⟩
  · show { run.source with atEnd } = _
    rw [hsource]
  · split
    · exact h.session
    · obtain ⟨text, htext⟩ := h.session.wrote (run.session.wrote_warnings
        [⟨"line terminated before end of tag", run.source.location⟩])
      refine ⟨htext.rest, htext.alone, h.session.path, h.session.main⟩

/-- A directive that is dispatched adds what it writes. -/
theorem handle (hdispatch : dispatch.OnlyWrites) (h : run.GoesOn source start line content)
    {d : Directive} {u : PUnit} (hok : TemplateCompiler.handle dispatch d run = .ok u run') :
    ∃ text, run'.session.written = run.session.written ++ text ∧
      run'.GoesOn source start line (content ++ text) := by
  obtain ⟨hwrote, tag, tagsSeen, hsource'⟩ := handle_onlyWrites hdispatch hok
  obtain ⟨text, htext⟩ := h.session.wrote hwrote
  obtain ⟨_, _, atEnd, hsource⟩ := h.active
  refine ⟨text, by rw [htext.written, h.session.written], ⟨tag, tagsSeen, atEnd, ?_⟩, h.reading,
    h.running, htext⟩
  rw [hsource', hsource]

end Run.GoesOn

/-! ## Steps of draining -/

theorem meet_eq (before : Bytes) (d : Directive) (atEnd : Bool) (run : Run σ) :
    meet dispatch before d atEnd run = handle dispatch d (run.approach before d atEnd) := by
  unfold meet Run.approach
  cases d.isTerminated <;> rfl

/-- **One step** of a source that is not paused. -/
theorem drain_running {run : Run σ} (hrunning : run.source.paused = false) (feed : Feed) :
    drain dispatch feed run =
      match feed.step run.source.reading with
      | .done => .ok feed run
      | .newLine after => drain dispatch after run.nextLine
      | .checked after => drain dispatch after run
      | .forbidden => .error (.forbiddenMarker run.source.location) run
      | .text text after =>
        drain dispatch after { run with session := run.session.write text }
      | .directive before d after =>
        match meet dispatch before d after.atEnd run with
        | .ok _ run => drain dispatch after run
        | .error error run => .error error run := by
  have hget (f : Source → Action σ Feed) : (Action.source >>= f) run = f run.source run := rfl
  rw [drain_eq, hget, hrunning, if_neg Bool.false_ne_true]
  cases feed.step run.source.reading with
  | done | newLine | checked | text | forbidden => rfl
  | directive before d after =>
    dsimp only
    show EStateM.bind _ _ run = _
    unfold EStateM.bind
    cases meet dispatch before d after.atEnd run <;> rfl

section

variable {source : Source} {start : Session} {line : Nat} {content : Bytes} {run run' : Run σ}

theorem drain_step (h : run.GoesOn source start line content) (feed : Feed) :
    drain dispatch feed run =
      match feed.step .directives with
      | .done => .ok feed run
      | .newLine after => drain dispatch after run.nextLine
      | .checked after => drain dispatch after run
      | .forbidden => .error (.forbiddenMarker ⟨source.path, line⟩) run
      | .text text after =>
        drain dispatch after { run with session := run.session.write text }
      | .directive before d after =>
        match handle dispatch d (run.approach before d after.atEnd) with
        | .ok _ run => drain dispatch after run
        | .error error run => .error error run := by
  obtain ⟨tag, tagsSeen, atEnd, hsource⟩ := h.active
  have hreading : run.source.reading = .directives := by rw [hsource, h.reading]
  have hpaused : run.source.paused = false := by rw [hsource, h.running]
  have hlocation : run.source.location = ⟨source.path, line⟩ := by rw [hsource]; rfl
  rw [drain_running hpaused, hreading, hlocation]
  simp only [meet_eq]

/-- A line that is not checked yet is checked. -/
theorem step_unchecked (b : UInt8) (bytes : Bytes) (rest : List Bytes) :
    (Feed.mk (b :: bytes) true rest).step .directives =
      match RawCode.check (b :: bytes) with
      | .executable _ => .forbidden
      | .clean => .checked ⟨b :: bytes, false, rest⟩
      | .defused line => .checked ⟨line, false, rest⟩ := rfl

/-- A line is checked before its directives are looked for. -/
theorem drain_unchecked (h : run.GoesOn source start line content) {text : Bytes} (hne : text ≠ [])
    (rest : List Bytes) :
    drain dispatch ⟨text, true, rest⟩ run =
      match RawCode.accepted? text with
      | none => .error (.forbiddenMarker ⟨source.path, line⟩) run
      | some accepted => drain dispatch ⟨accepted, false, rest⟩ run := by
  obtain ⟨b, bytes, rfl⟩ := List.exists_cons_of_ne_nil hne
  rw [drain_step h, step_unchecked]
  unfold RawCode.accepted?
  cases RawCode.check (b :: bytes) <;> rfl

/-- What is left of a checked line is scanned for a directive. -/
theorem step_checked (b : UInt8) (bytes : Bytes) (rest : List Bytes) :
    (Feed.mk (b :: bytes) false rest).step .directives =
      match Directive.first? (b :: bytes) with
      | none => .text (b :: bytes) ⟨[], false, rest⟩
      | some d => .directive ((b :: bytes).take d.start) d ⟨(b :: bytes).drop d.stop, false, rest⟩ :=
  rfl

/-- What is left of a line without directives is passed on. -/
theorem drain_none (h : run.GoesOn source start line content) {buffer : Bytes}
    (hnone : Directive.first? buffer = none) (rest : List Bytes) :
    drain dispatch ⟨buffer, false, rest⟩ run =
      drain dispatch ⟨[], false, rest⟩ (run.passOn buffer) := by
  cases buffer with
  | nil => rfl
  | cons b bytes =>
    rw [drain_step h, step_checked, hnone]
    rfl

/-- The first directive of what is left of a line is dispatched. -/
theorem drain_some (h : run.GoesOn source start line content) {buffer : Bytes} {d : Directive}
    (hsome : Directive.first? buffer = some d) (rest : List Bytes) :
    drain dispatch ⟨buffer, false, rest⟩ run =
      match handle dispatch d (run.approach (buffer.take d.start) d
        ((buffer.drop d.stop).isEmpty && rest.isEmpty)) with
      | .ok _ run => drain dispatch ⟨buffer.drop d.stop, false, rest⟩ run
      | .error error run => .error error run := by
  obtain ⟨b, bytes, rfl⟩ := List.exists_cons_of_ne_nil (Directive.ne_nil_of_firstFrom hsome)
  rw [drain_step h, step_checked, hsome]
  rfl

/-! ## Lines -/

variable (hdispatch : dispatch.OnlyWrites)
include hdispatch

/-- What the directives of a line write takes their place in it. -/
theorem Run.GoesOn.dispatches {text : Bytes} {last : Bool} {offset : Nat} {ds : List Directive}
    {texts : List Bytes} (h : run.GoesOn source start line content)
    (hrun : Dispatches dispatch text last offset ds run texts run') :
    run'.GoesOn source start line (content ++ splice text offset ds texts) := by
  induction hrun generalizing content with
  | nil => exact h.passOn _
  | @cons offset d ds run before after run' written texts hbefore hhandle htext _ ih =>
    have hbegun := h.approach ((text.take d.start).drop offset) d
      ((text.drop d.stop).isEmpty && last)
    rw [← hbefore] at hbegun
    obtain ⟨written, hwritten, hafter⟩ := hbegun.handle hdispatch hhandle
    obtain rfl := List.append_cancel_left (hwritten.symm.trans htext)
    have hdone := ih hafter
    rw [List.append_assoc, List.append_assoc] at hdone
    rw [splice, List.append_assoc]
    exact hdone

/-- **A line is drained** as its directives are dispatched. -/
theorem drain_of_dispatches {text : Bytes} {rest : List Bytes} {offset : Nat}
    {ds : List Directive} {texts : List Bytes} (h : run.GoesOn source start line content)
    (hrun : Dispatches dispatch text rest.isEmpty offset ds run texts run')
    (hds : ds = Directive.allFrom offset (text.drop offset)) :
    drain dispatch ⟨text.drop offset, false, rest⟩ run =
      drain dispatch ⟨[], false, rest⟩ run' := by
  induction hrun generalizing content with
  -- `hds` ties the list to what the scan of the rest of the line finds
  | @nil offset run =>
    refine drain_none h ?_ rest
    cases hfirst : Directive.first? (text.drop offset) with
    | none => rfl
    | some d =>
      rw [Directive.allFrom_of_some hfirst] at hds
      cases hds
  | @cons offset d ds run before after run' written texts hbefore hhandle htext _ ih =>
    cases hfirst : Directive.first? (text.drop offset) with
    | none =>
      rw [Directive.allFrom_of_none hfirst] at hds
      cases hds
    | some e =>
      rw [Directive.allFrom_of_some hfirst, List.drop_drop] at hds
      obtain ⟨rfl, hrest⟩ := List.cons.inj hds
      rw [drain_some h hfirst, List.drop_drop]
      -- positions in the rest of the line against positions in the line
      have hbefore' : before = run.approach ((text.drop offset).take e.start) e
          ((text.drop (offset + e.stop)).isEmpty && rest.isEmpty) := by
        rw [hbefore, List.drop_take]
        show run.approach ((text.drop offset).take (offset + e.start - offset)) _ _ = _
        rw [Nat.add_sub_cancel_left]
        rfl
      have hhandle' : handle dispatch e before = .ok ⟨⟩ after := hhandle
      rw [← hbefore', hhandle']
      have hafter : ∃ content, after.GoesOn source start line content := by
        obtain ⟨more, -, hmore⟩ := Run.GoesOn.handle hdispatch (hbefore ▸ h.approach _ _ _) hhandle
        exact ⟨_, hmore⟩
      obtain ⟨content, hafter⟩ := hafter
      exact ih hafter hrest

/-- A line that is drained has its directives dispatched. -/
theorem dispatches_of_drain {run : Run σ} {content text : Bytes} {rest : List Bytes}
    {offset : Nat} {final : Feed} (h : run.GoesOn source start line content)
    (hok : drain dispatch ⟨text.drop offset, false, rest⟩ run = .ok final run') :
    ∃ texts after, Dispatches dispatch text rest.isEmpty offset
        (Directive.allFrom offset (text.drop offset)) run texts after ∧
      drain dispatch ⟨[], false, rest⟩ after = .ok final run' := by
  cases hfirst : Directive.first? (text.drop offset) with
  | none =>
    rw [Directive.allFrom_of_none hfirst]
    rw [drain_none h hfirst] at hok
    exact ⟨[], _, .nil, hok⟩
  | some e =>
    have := Directive.length_sub_stop_lt hfirst
    rw [Directive.allFrom_of_some hfirst, List.drop_drop]
    rw [drain_some h hfirst, List.drop_drop] at hok
    split at hok
    · next u after hhandle =>
      have hbefore : run.approach ((text.drop offset).take e.start) e
          ((text.drop (offset + e.stop)).isEmpty && rest.isEmpty) =
          run.approach ((text.take (offset + e.start)).drop offset) e
            ((text.drop (offset + e.stop)).isEmpty && rest.isEmpty) := by
        rw [List.drop_take, Nat.add_sub_cancel_left]
      rw [hbefore] at hhandle
      obtain ⟨written, hwritten, hafter⟩ := (h.approach _ _ _).handle hdispatch hhandle
      obtain ⟨texts, last, hrest, hdone⟩ := dispatches_of_drain hafter hok
      exact ⟨written :: texts, last, .cons rfl hhandle hwritten hrest, hdone⟩
    · cases hok
termination_by text.length - offset
decreasing_by
  rw [List.length_drop] at this
  omega

/-! ## Texts -/

/-- Lines that are rendered go into the artifact. -/
theorem Run.GoesOn.renders {lines more : List Bytes} {out : Bytes}
    (h : run.GoesOn source start line content) (hrun : Renders dispatch more lines run out run') :
    run'.GoesOn source start (line + lines.length) (content ++ out) := by
  induction hrun generalizing line content with
  | nil => rwa [List.append_nil]
  | cons haccepted hline _ ih =>
    have hdone := ih (h.nextLine.dispatches hdispatch hline)
    rwa [List.append_assoc, Nat.add_assoc, Nat.add_comm 1] at hdone

/-- **A text is drained** as its lines are rendered. -/
theorem drain_of_renders {lines more : List Bytes} {out : Bytes} (hne : ∀ text ∈ lines, text ≠ [])
    (h : run.GoesOn source start line content) (hrun : Renders dispatch more lines run out run') :
    drain dispatch ⟨[], false, lines ++ more⟩ run = drain dispatch ⟨[], false, more⟩ run' := by
  induction hrun generalizing line content with
  | nil => rfl
  | @cons text accepted out lines texts run after run' haccepted hline _ ih =>
    obtain ⟨htext, hlines⟩ := List.forall_mem_cons.1 hne
    have hnext := h.nextLine
    have hchecked : drain dispatch ⟨text, true, lines ++ more⟩ run.nextLine = _ :=
      drain_unchecked hnext htext _
    rw [haccepted] at hchecked
    have hdrain := drain_of_dispatches hdispatch hnext hline rfl
    rw [List.drop_zero] at hdrain
    rw [drain_step h]
    exact hchecked.trans (hdrain.trans (ih hlines (hnext.dispatches hdispatch hline)))

/-- A text that is drained has its lines rendered, and nothing is left of it. -/
theorem renders_of_drain {lines : List Bytes} {final : Feed} (hne : ∀ text ∈ lines, text ≠ [])
    (h : run.GoesOn source start line content)
    (hok : drain dispatch ⟨[], false, lines⟩ run = .ok final run') :
    final = ⟨[], false, []⟩ ∧ ∃ out, Renders dispatch [] lines run out run' := by
  induction lines generalizing run line content with
  | nil =>
    rw [drain_step h] at hok
    obtain ⟨rfl, rfl⟩ := EStateM.Result.ok.inj hok
    exact ⟨rfl, [], .nil⟩
  | cons text lines ih =>
    obtain ⟨htext, hlines⟩ := List.forall_mem_cons.1 hne
    have hnext := h.nextLine
    rw [drain_step h] at hok
    change drain dispatch ⟨text, true, lines⟩ run.nextLine = _ at hok
    rw [drain_unchecked hnext htext] at hok
    cases haccepted : RawCode.accepted? text with
    | none =>
      rw [haccepted] at hok
      cases hok
    | some accepted =>
      rw [haccepted] at hok
      have hbuffer : drain dispatch ⟨accepted.drop 0, false, lines⟩ run.nextLine = .ok final run' :=
        hok
      obtain ⟨texts, after, hline, hrest⟩ := dispatches_of_drain hdispatch hnext hbuffer
      obtain ⟨hfinal, out, hout⟩ := ih hlines (hnext.dispatches hdispatch hline) hrest
      rw [List.drop_zero, ← List.append_nil lines] at hline
      exact ⟨hfinal, _, .cons haccepted hline hout⟩

end

end TemplateCompiler
