import TemplateCompiler.Proofs.Handling.Kinds
import TemplateCompiler.Proofs.Nesting.Actions

/-!
# How the standard tags nest

Each standard tag does to the open tags of its source what its bracket does (`Run.Handles`): where it
does not fit it fails, and it complains of nesting nowhere else. The same is then true of every tag
that is met in a source, and variables leave the open tags alone.
-/
namespace TemplateCompiler

variable {σ α β : Type}

/-- A tag that fits opens and closes what its bracket does, and one that does not fit fails, with the
error of its fault unless another one came first. -/
def Run.Handles (run : Run σ) (name : String)
    (result : EStateM.Result CompileError (Run σ) PUnit) : Prop :=
  match Bracket.faultOf? run.source.openTags name with
  | some fault => ∃ error run', result = .error error run' ∧
      (error.IsNesting → error = fault.error name run.source.location)
  | none => run.Nests (Bracket.nextOf run.source.openTags name) (run.source.reading.afterTag name)
      result

/-- The tag does not change how the text is read on. -/
theorem Reading.afterTag_of_not_mem {name : String} (reading : Reading)
    (h : name ∉ ["literal", "comment", "endliteral", "endcomment"]) :
    reading.afterTag name = reading := by
  simp only [List.mem_cons, List.not_mem_nil, or_false, not_or] at h
  obtain ⟨hliteral, hcomment, hend, hend'⟩ := h
  unfold afterTag
  rw [if_neg hliteral, if_neg hcomment, if_neg (not_or.2 ⟨hend, hend'⟩)]

/-- The innermost open tag can be taken off by its kind. -/
theorem Source.exists_pop {source : Source} {kind : String} (h : source.openTags.head? = some kind) :
    ∃ data rest, source.hierarchy.pop kind = .ok (data, rest) ∧
      source.openTags = kind :: rest.frames.map (·.tag) := by
  unfold openTags Hierarchy.pop at *
  cases hframes : source.hierarchy.frames with
  | nil =>
    rw [hframes] at h
    cases h
  | cons frame rest =>
    rw [hframes] at h
    obtain rfl : frame.tag = kind := Option.some.inj h
    exact ⟨frame.data, ⟨rest⟩, if_pos rfl, rfl⟩

/-- and by no other one. -/
theorem Source.exists_refusal {source : Source} {kind : String}
    (h : source.openTags.head? ≠ some kind) :
    ∃ refusal, source.hierarchy.pop kind = .error refusal := by
  unfold openTags Hierarchy.pop at *
  cases hframes : source.hierarchy.frames with
  | nil => exact ⟨_, rfl⟩
  | cons frame rest =>
    rw [hframes] at h
    exact ⟨_, if_neg fun heq => h (congrArg some heq)⟩

namespace Action

variable {name kind : String} {run : Run σ}

/-! ## Kinds of tags -/

/-- A tag that opens, or is no paired one, always fits. -/
theorem Shifts.handles {action : Action σ PUnit}
    (h : Shifts (Bracket.nextOf · name) (Reading.afterTag · name) action)
    (hfits : Bracket.faultOf? run.source.openTags name = none) : run.Handles name (action run) := by
  unfold Run.Handles
  rw [hfits]
  exact h run

theorem Shifts.handles_opening {action : Action σ PUnit}
    (hbracket : Bracket.ofTag? name = some (.opens kind))
    (h : Shifts (kind :: ·) (Reading.afterTag · name) action) : run.Handles name (action run) := by
  refine Shifts.handles ?_ (by rw [Bracket.faultOf?, hbracket]; rfl)
  have hnext : (Bracket.nextOf · name) = (kind :: ·) := by
    funext opened
    rw [Bracket.nextOf, hbracket]
    rfl
  rwa [hnext]

theorem Calm.handles {action : Action σ PUnit} (hbracket : Bracket.ofTag? name = none)
    (hplain : name ∉ ["literal", "comment", "endliteral", "endcomment"]) (h : Calm action) :
    run.Handles name (action run) := by
  refine Shifts.handles ?_ (by rw [Bracket.faultOf?, hbracket]; rfl)
  have hnext : (Bracket.nextOf · name) = id := by
    funext opened
    rw [Bracket.nextOf, hbracket]
    rfl
  have hafter : (Reading.afterTag · name) = id :=
    funext fun reading => reading.afterTag_of_not_mem hplain
  rwa [hnext, hafter]

theorem source_bind (f : Source → Action σ α) (run : Run σ) :
    (source >>= f) run = f run.source run := rfl

theorem pop_eq (kind : String) (view : FrameData → Option α) (run : Run σ) :
    pop kind view run =
      match run.source.hierarchy.pop kind with
      | .error refusal => .error (closingError run.source kind refusal) run
      | .ok (data, hierarchy) =>
        expect kind view data { run with source := { run.source with hierarchy } } := by
  unfold pop
  rw [source_bind]
  cases run.source.hierarchy.pop kind <;> rfl

theorem peek_eq (kind : String) (view : FrameData → Option α) (run : Run σ) :
    peek kind view run =
      match run.source.hierarchy.peek kind with
      | .error _ => .error (nestingError run.source kind) run
      | .ok data => expect kind view data run := by
  unfold peek
  rw [source_bind]
  cases run.source.hierarchy.peek kind <;> rfl

theorem replace_eq (kind : String) (data : FrameData) (run : Run σ) :
    replace kind data run =
      match run.source.hierarchy.replace kind data with
      | .error _ => .error (nestingError run.source kind) run
      | .ok hierarchy => .ok ⟨⟩ { run with source := { run.source with hierarchy } } := by
  unfold replace
  rw [source_bind]
  cases run.source.hierarchy.replace kind data <;> rfl

/-- **Closing** fails where the innermost open tag is of another kind, or none is open. -/
theorem pop_cases (hname : run.source.currentTag = some name)
    (hbracket : Bracket.ofTag? name = some (.closes kind)) (view : FrameData → Option α) :
    match Bracket.faultOf? run.source.openTags name with
    | some fault => pop kind view run = .error (fault.error name run.source.location) run
    | none => run.Nests (Bracket.nextOf run.source.openTags name) run.source.reading
        (pop kind view run) := by
  have hshown : shownTag run.source kind = name := by
    rw [shownTag, hname]
    rfl
  rw [pop_eq, Bracket.faultOf?, Bracket.nextOf, hbracket]
  unfold Source.openTags Hierarchy.pop
  cases run.source.hierarchy.frames with
  | nil =>
    show EStateM.Result.error (closingError run.source kind .empty) run = _
    rw [closingError, hshown]
    rfl
  | cons frame rest =>
    by_cases hkind : frame.tag = kind
    · have hfits : (Bracket.closes kind).fault? ((frame :: rest).map (·.tag)) = none := by
        rw [List.map_cons, Bracket.fault?, if_pos hkind]
      rw [Option.bind_some, hfits]
      dsimp only
      rw [if_pos hkind]
      have hstays : run.StaysAt { run with source := { run.source with hierarchy := ⟨rest⟩ } } :=
        ⟨⟨_, _, _, _, _, rfl⟩, .refl _⟩
      exact hstays.nests (calm_expect kind view frame.data _)
    · have hfault : (Bracket.closes kind).fault? ((frame :: rest).map (·.tag)) =
          some (.mismatch frame.tag) := by
        rw [List.map_cons, Bracket.fault?, if_neg hkind]
      rw [Option.bind_some, hfault]
      dsimp only
      rw [if_neg hkind]
      show EStateM.Result.error (closingError run.source kind (.mismatch frame.tag)) run = _
      rw [closingError, hshown]
      rfl

theorem handles_closing (hname : run.source.currentTag = some name)
    (hbracket : Bracket.ofTag? name = some (.closes kind)) {view : FrameData → Option α}
    {rest : α → Action σ PUnit} (hrest : ∀ a, Shifts id (Reading.afterTag · name) (rest a)) :
    run.Handles name ((pop kind view >>= rest) run) := by
  have hpop := pop_cases hname hbracket view
  unfold Run.Handles
  cases hfault : Bracket.faultOf? run.source.openTags name with
  | some fault =>
    rw [hfault] at hpop
    exact ⟨_, run, bind_of_error hpop, fun _ => rfl⟩
  | none =>
    rw [hfault] at hpop
    refine nests_bind hpop fun a run' hopened hreading => ?_
    have hlast := hrest a run'
    rwa [hopened, hreading] at hlast

/-- **Dividing** fails where the innermost open tag is of another kind, or none is open. -/
theorem peek_cases (hname : run.source.currentTag = some name)
    (hbracket : Bracket.ofTag? name = some (.divides kind)) (view : FrameData → Option α) :
    match Bracket.faultOf? run.source.openTags name with
    | some fault => peek kind view run = .error (fault.error name run.source.location) run
    | none => run.source.openTags.head? = some kind ∧
        run.Nests run.source.openTags run.source.reading (peek kind view run) := by
  have hshown : nestingError run.source kind =
      Bracket.Fault.error name run.source.location (.notNested kind) := by
    rw [nestingError, shownTag, hname]
    rfl
  rw [peek_eq, Bracket.faultOf?, hbracket, Option.bind_some, Bracket.fault?]
  unfold Hierarchy.peek
  by_cases hhead : run.source.openTags.head? = some kind
  · obtain ⟨data, rest, hpop, -⟩ := Source.exists_pop hhead
    rw [if_pos hhead, hpop]
    exact ⟨hhead, calm_expect kind view data run⟩
  · obtain ⟨refusal, hpop⟩ := Source.exists_refusal hhead
    rw [if_neg hhead, hpop]
    exact congrArg (EStateM.Result.error · run) hshown

theorem handles_dividing (hname : run.source.currentTag = some name)
    (hbracket : Bracket.ofTag? name = some (.divides kind))
    (hplain : name ∉ ["literal", "comment", "endliteral", "endcomment"])
    {view : FrameData → Option α} {rest : α → Action σ PUnit}
    (hrest : ∀ (a : α) (run : Run σ), run.source.openTags.head? = some kind →
      run.Nests run.source.openTags run.source.reading (rest a run)) :
    run.Handles name ((peek kind view >>= rest) run) := by
  have hpeek := peek_cases hname hbracket view
  unfold Run.Handles
  cases hfault : Bracket.faultOf? run.source.openTags name with
  | some fault =>
    rw [hfault] at hpeek
    exact ⟨_, run, bind_of_error hpeek, fun _ => rfl⟩
  | none =>
    rw [hfault] at hpeek
    rw [Bracket.nextOf, hbracket, Reading.afterTag_of_not_mem _ hplain]
    refine nests_bind hpeek.2 fun a run' hopened hreading => ?_
    have hlast := hrest a run' (hopened ▸ hpeek.1)
    rwa [hopened, hreading] at hlast

/-- Changing what the innermost tag remembers leaves it open. -/
theorem nests_replace {run : Run σ} {kind : String} (hhead : run.source.openTags.head? = some kind)
    (data : FrameData) :
    run.Nests run.source.openTags run.source.reading (replace kind data run) := by
  obtain ⟨old, rest, hpop, hopened⟩ := Source.exists_pop hhead
  rw [replace_eq, Hierarchy.replace, hpop]
  exact .ok ⟨⟨_, _, _, _, _, rfl⟩, .refl _⟩ hopened.symm rfl

end Action

/-! ## Standard tags -/

namespace Standard

open Action

variable (dispatch : Dispatch σ) (tag : Tag) (run : Run σ)

theorem calm_condition : Calm (condition tag : Action σ Code.Condition) := by
  unfold condition
  split
  · exact shifts_misuse _
  · exact calm_pure _

theorem calm_singleName : Calm (singleName tag : Action σ String) := by
  unfold singleName
  dsimp only
  split
  · split
    · exact calm_pure _
    · exact shifts_misuse _
  · exact shifts_misuse _

theorem calm_quotedPath : Calm (quotedPath tag : Action σ String) := by
  unfold quotedPath
  split
  · split
    · exact calm_pure _
    · exact shifts_misuse _
  · exact shifts_misuse _

theorem calm_restore (state : PauseState) :
    Calm (Action.updateSession (·.restore state) : Action σ PUnit) :=
  calm_updateSession fun _ => rfl

/-- A tag that opens a pair and changes nothing else about its source. -/
theorem handles_push {name kind : String} (hbracket : Bracket.ofTag? name = some (.opens kind))
    (hplain : name ∉ ["literal", "comment", "endliteral", "endcomment"]) {action : Action σ PUnit}
    (h : Shifts (kind :: ·) id action) : run.Handles name (action run) := by
  refine Shifts.handles_opening hbracket ?_
  have hafter : (Reading.afterTag · name) = id :=
    funext fun reading => reading.afterTag_of_not_mem hplain
  rwa [hafter]

/-- A tag that closes a pair and changes nothing else about its source. -/
theorem handles_pop {name kind : String} (hname : run.source.currentTag = some name)
    (hbracket : Bracket.ofTag? name = some (.closes kind))
    (hplain : name ∉ ["literal", "comment", "endliteral", "endcomment"])
    {view : FrameData → Option α} {rest : α → Action σ PUnit} (hrest : ∀ a, Calm (rest a)) :
    run.Handles name ((pop kind view >>= rest) run) := by
  refine handles_closing hname hbracket ?_
  have hafter : (Reading.afterTag · name) = id :=
    funext fun reading => reading.afterTag_of_not_mem hplain
  rwa [hafter]

theorem handles_onIf : run.Handles "if" (onIf dispatch tag run) :=
  handles_push run rfl (by decide)
    ((calm_condition tag).bind fun _ => (calm_emit _).bind fun _ => shifts_push _ _)

theorem handles_onElseIf (hname : run.source.currentTag = some "elseif") :
    run.Handles "elseif" (onElseIf dispatch tag run) :=
  handles_dividing hname rfl (by decide) fun _ run _ =>
    ((calm_condition tag).bind fun _ => calm_emit _) run

theorem handles_onElse (hname : run.source.currentTag = some "else") :
    run.Handles "else" (onElse dispatch tag run) :=
  handles_dividing hname rfl (by decide) fun _ run _ => calm_emit _ run

theorem handles_onEndIf (hname : run.source.currentTag = some "endif") :
    run.Handles "endif" (onEndIf dispatch tag run) :=
  handles_pop run hname rfl (by decide) fun _ => calm_emit _

theorem handles_onFor : run.Handles "for" (onFor dispatch tag run) := by
  refine handles_push run rfl (by decide) ?_
  unfold onFor
  dsimp only
  split
  · split
    · exact (calm_emit _).bind fun _ => shifts_push _ _
    · exact shifts_misuse _
  · exact shifts_misuse _

theorem handles_onEmpty (hname : run.source.currentTag = some "empty") :
    run.Handles "empty" (onEmpty dispatch tag run) := by
  refine handles_dividing hname rfl (by decide) fun hasNone run hhead => ?_
  split
  · exact .error id
  · exact nests_bind (nests_replace hhead _) fun _ run' hopened hreading =>
      hopened ▸ hreading ▸ calm_emit _ run'

theorem handles_onEndFor (hname : run.source.currentTag = some "endfor") :
    run.Handles "endfor" (onEndFor dispatch tag run) :=
  handles_pop run hname rfl (by decide) fun _ => calm_emit _

theorem handles_onWith : run.Handles "with" (onWith dispatch tag run) := by
  refine handles_push run rfl (by decide) ?_
  unfold onWith
  dsimp only
  split
  · split
    · exact (calm_emit _).bind fun _ => shifts_push _ _
    · exact shifts_misuse _
  · exact shifts_misuse _

theorem handles_onEndWith (hname : run.source.currentTag = some "endwith") :
    run.Handles "endwith" (onEndWith dispatch tag run) := by
  have hpop : run.Handles "endwith" ((pop "with" asNothing >>= pure) run) :=
    handles_pop run hname rfl (by decide) fun _ => calm_pure _
  rwa [bind_pure] at hpop

theorem handles_onBlock : run.Handles "block" (onBlock dispatch tag run) := by
  refine handles_push run rfl (by decide) ?_
  unfold onBlock
  refine (calm_singleName tag).bind fun name => ?_
  dsimp only
  refine calm_session.bind fun session => ?_
  generalize ArtifactCache.blockName session.id session.template name = destination
  refine (calm_addDestination destination true).bind fun overridden => ?_
  split
  · refine (calm_ofExcept fun error herror => ?_).bind fun path =>
      (calm_insertArtifact path).bind fun _ => ?_
    · obtain ⟨refusal, rfl⟩ := artifactPath_error herror
      exact id
    · exact Calm.bind (calm_pauseAll.bind_calm fun _ => calm_pure _) fun _ => shifts_push _ _
  · exact (calm_pure _).bind fun _ => shifts_push _ _

theorem calm_leaveBlock (frame : BlockFrame) : Calm (leaveBlock frame : Action σ PUnit) := by
  refine Calm.bind (calm_updateSession fun session => ?_) fun _ => ?_
  · obtain ⟨_, _, _, _, heq⟩ := session.rewrites_removeDestination frame.destination
    rw [heq]
  · cases frame.paused with
    | some state => exact calm_restore state
    | none => exact calm_pure _

theorem handles_onEndBlock (hname : run.source.currentTag = some "endblock") :
    run.Handles "endblock" (onEndBlock dispatch tag run) := by
  rw [onEndBlock_eq]
  refine handles_pop run hname rfl (by decide) fun frame => ?_
  cases tag.params.head? with
  | none => exact calm_leaveBlock frame
  | some name =>
    dsimp only
    split
    · exact Calm.bind (shifts_misuse _) fun _ => calm_leaveBlock frame
    · exact calm_leaveBlock frame

theorem handles_onExtends : run.Handles "extends" (onExtends dispatch tag run) := by
  refine Calm.handles rfl (by decide) fun run => ?_
  rcases @quotedPath_cases σ tag with ⟨path, -, hpath⟩ | ⟨-, message, hmisuse⟩
  · rw [onExtends_eq hpath]
    split
    · exact .error id
    · split
      · next error hfind =>
        obtain ⟨refusal, rfl⟩ := Session.find_error hfind
        exact .error id
      · exact .error id
      · split
        · exact .error id
        · unfold Run.extend
          dsimp only
          split <;> exact .ok ⟨⟨_, _, _, _, _, rfl⟩, .refl _⟩ rfl rfl
  · unfold onExtends
    rw [hmisuse]
    exact .error id

theorem handles_onInclude : run.Handles "include" (onInclude dispatch tag run) := by
  refine Calm.handles rfl (by decide) ?_
  unfold onInclude
  split
  · exact calm_emit _
  · exact shifts_misuse _

theorem handles_onInsert : run.Handles "insert" (onInsert dispatch tag run) :=
  Calm.handles rfl (by decide) ((calm_quotedPath tag).bind fun path => calm_insertFile path)

theorem handles_onLiteral : run.Handles "literal" (onLiteral dispatch tag run) :=
  Shifts.handles_opening rfl ((shifts_setReading _).bind_push _ _)

theorem handles_onEndLiteral (hname : run.source.currentTag = some "endliteral") :
    run.Handles "endliteral" (onEndLiteral dispatch tag run) :=
  handles_closing hname rfl fun _ => shifts_setReading _

theorem handles_onComment : run.Handles "comment" (onComment dispatch tag run) :=
  Shifts.handles_opening rfl (calm_pauseAll.bind fun _ => (shifts_setReading _).bind_push _ _)

theorem handles_onEndComment (hname : run.source.currentTag = some "endcomment") :
    run.Handles "endcomment" (onEndComment dispatch tag run) :=
  handles_closing hname rfl fun _ => (calm_restore _).bind fun _ => shifts_setReading _

/-- **Standard tags** do what their brackets do. -/
theorem handles_tags : ∀ entry ∈ (tags : List (String × (Dispatch σ → TagHandler σ))),
    ∀ (dispatch : Dispatch σ) (tag : Tag) (run : Run σ), run.source.currentTag = some entry.1 →
      run.Handles entry.1 (entry.2 dispatch tag run) := by
  simp only [tags, List.forall_mem_cons]
  exact ⟨fun d t r _ => handles_onIf d t r, handles_onElseIf, handles_onElse, handles_onEndIf,
    fun d t r _ => handles_onFor d t r, handles_onEmpty, handles_onEndFor,
    fun d t r _ => handles_onWith d t r, handles_onEndWith,
    fun d t r _ => handles_onBlock d t r, handles_onEndBlock,
    fun d t r _ => handles_onExtends d t r, fun d t r _ => handles_onInclude d t r,
    fun d t r _ => handles_onInsert d t r, fun d t r _ => handles_onLiteral d t r,
    handles_onEndLiteral, fun d t r _ => handles_onComment d t r, handles_onEndComment, List.forall_mem_nil _⟩

/-- **Standard filters** leave the open tags alone. -/
theorem calm_filters : ∀ entry ∈ (filters : List (String × (Dispatch σ → FilterHandler σ))),
    ∀ dispatch call position, Calm (entry.2 dispatch call position) := by
  have hplain (filtering : Code.Filtering) (d : Dispatch σ) (call : FilterCall) (position : Nat) :
      Calm (plain filtering d call position) := calm_write _
  have hargument (filtering : Code.Expr → Code.Filtering) (d : Dispatch σ) (call : FilterCall)
      (position : Nat) : Calm (withArgument filtering d call position) := by
    refine Calm.bind ?_ fun _ => calm_write _
    unfold argument
    split
    · exact calm_pure _
    · exact shifts_misuse _
  simp only [filters, List.forall_mem_cons]
  exact ⟨hplain _, hplain _, hplain _, hplain _, hplain _, hplain _, hargument _,
    fun _ _ _ => calm_write _, hplain _, hplain _, hargument _, hargument _, hplain _, hplain _,
    hplain _, hargument _, List.forall_mem_nil _⟩

end Standard

/-! ## Dispatching -/

/-- Every tag does what its bracket does, and no filter touches the open tags. -/
structure Dispatch.Nests (dispatch : Dispatch σ) : Prop where
  tags : ∀ name handler, dispatch.tag? name = some handler → ∀ (tag : Tag) (run : Run σ),
    run.source.currentTag = some name → run.Handles name (handler tag run)
  filters : ∀ name handler, dispatch.filter? name = some handler →
    ∀ call position, (handler call position).Calm

/-- A tag that fails for another reason than its nesting does not fit or does not matter. -/
theorem Run.handles_error {run run' : Run σ} {name : String} {error : CompileError}
    (h : ¬ error.IsNesting) : run.Handles name (.error error run') := by
  unfold Run.Handles
  split
  · exact ⟨error, run', rfl, fun hnesting => absurd hnesting h⟩
  · exact .error h

theorem nests_standard (depth : Nat) : ((Library.standard : Library σ).dispatch depth).Nests := by
  constructor
  · intro name handler hhandler tag run hname
    rcases Library.tag?_dispatch hhandler with ⟨-, rfl⟩ | ⟨make, deeper, -, hmake, rfl⟩
    · exact Run.handles_error id
    · exact Standard.handles_tags _ hmake _ tag run hname
  · intro name handler hhandler call position
    rcases Library.filter?_dispatch hhandler with ⟨-, rfl⟩ | ⟨make, deeper, -, hmake, rfl⟩
    · exact Action.shifts_throw id
    · exact Standard.calm_filters _ hmake _ call position

section

open Action

variable {dispatch : Dispatch σ} (h : dispatch.Nests)
include h

omit h in
theorem composes_calm : Composes fun (α : Type) (action : Action σ α) => Calm action where
  pure := calm_pure
  bind := Calm.bind
  unknownTag _ := calm_location.bind fun _ => shifts_throw id
  unknownFilter _ := calm_location.bind fun _ => shifts_throw id
  write := calm_write
  nextSlot := calm_nextSlot
  readVariable text escape := calm_reading fun scene => Variable.mild_read scene text escape

omit h in
/-- What has been done before a tag does not count. -/
theorem Run.StaysAt.handles {run run' : Run σ} {name : String}
    {result : EStateM.Result CompileError (Run σ) PUnit} (hstays : run.StaysAt run')
    (hopened : run'.source.openTags = run.source.openTags)
    (hreading : run'.source.reading = run.source.reading) (hrest : run'.Handles name result) :
    run.Handles name result := by
  have hlocation : run'.source.location = run.source.location := by
    obtain ⟨_, _, _, _, _, heq⟩ := hstays.source
    rw [heq]
    rfl
  unfold Run.Handles at hrest ⊢
  rw [hopened, hreading, hlocation] at hrest
  cases hfault : Bracket.faultOf? run.source.openTags name with
  | some fault =>
    rw [hfault] at hrest
    exact hrest
  | none =>
    rw [hfault] at hrest
    exact hstays.nests hrest

omit h in
theorem Action.Calm.handles_bind {action : Action σ α} {f : α → Action σ PUnit} {run : Run σ}
    {name : String} (hcalm : Calm action) (hf : ∀ a run', action run = .ok a run' →
      run'.source.currentTag = run.source.currentTag → run'.Handles name (f a run')) :
    run.Handles name ((action >>= f) run) := by
  have hnests := hcalm run
  cases haction : action run with
  | error error run' =>
    rw [bind_of_error haction]
    rw [haction] at hnests
    exact Run.handles_error hnests.ne_nesting
  | ok a run' =>
    rw [bind_of_ok haction]
    rw [haction] at hnests
    cases hnests with
    | ok hstays hopened hreading =>
      refine hstays.handles hopened hreading (hf a run' haction ?_)
      obtain ⟨_, _, _, _, _, heq⟩ := hstays.source
      rw [heq]

theorem Tag.handles_write (tag : Tag) (run : Run σ)
    (hname : run.source.currentTag = some tag.name) :
    run.Handles tag.name (tag.write dispatch run) := by
  unfold Tag.write
  cases hfound : dispatch.tag? tag.name with
  | none => exact Run.handles_error id
  | some handler =>
    exact (composes_calm.fillSlots h.filters tag.params).handles_bind fun params run' _ hsame =>
      h.tags _ _ hfound { tag with params } run' (hsame.trans hname)

omit h in
theorem Tag.name_of_read {scene : Scene} {name text : String} {before after : List Warning}
    {tag : Tag} (hread : Tag.read scene name text before = .ok tag after) : tag.name = name := by
  obtain ⟨_, _, -, hparams⟩ := bind_eq_ok.1 hread
  obtain ⟨_, _, -, hpure⟩ := bind_eq_ok.1 hparams
  obtain ⟨rfl, -⟩ := pure_eq_ok.1 hpure
  rfl

/-- **Tags** do what their brackets do, wherever they are met. -/
theorem handles_handle {d : Markup.Directive} (hkind : d.kind = .tag) (run : Run σ) :
    Run.Handles { run with source := { run.source with
        currentTag := some d.name, tagsSeen := run.source.tagsSeen + 1 } }
      d.name (handle dispatch d run) := by
  unfold handle
  rw [hkind]
  have hcalm : Calm (reading fun scene => Tag.read scene d.name d.params : Action σ Tag) :=
    calm_reading fun scene => Tag.mild_read scene _ _
  refine hcalm.handles_bind fun tag run' hread hsame => ?_
  have hname : tag.name = d.name := by
    unfold reading EStateM.run at hread
    split at hread
    · next hok =>
      obtain ⟨rfl, -⟩ := EStateM.Result.ok.inj hread
      exact Tag.name_of_read hok
    · cases hread
  rw [← hname]
  exact tag.handles_write h run' (hsame.trans (congrArg some hname.symm))

/-- **Variables** leave the open tags alone. -/
theorem nests_handle {d : Markup.Directive} (hkind : d.kind = .variable) (run : Run σ) :
    Run.Nests { run with source := { run.source with currentTag := none } } run.source.openTags
      run.source.reading (handle dispatch d run) := by
  unfold handle
  rw [hkind]
  have hcalm : Calm (do
      let v ← reading fun scene => Variable.interpolation scene d.content
      v.write dispatch : Action σ PUnit) :=
    Calm.bind (calm_reading fun scene => Variable.mild_read scene _ _) fun v => composes_calm.writeVariable h.filters v
  exact hcalm _

end

end TemplateCompiler
