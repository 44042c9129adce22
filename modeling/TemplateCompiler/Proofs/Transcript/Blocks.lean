import TemplateCompiler.Proofs.Transcript.Tags

/-!
# Blocks, other templates and text that is not read

The tags that open and close artifacts, that bring in other templates or that change how the text is
read, and with them the whole table of tags (`aligned_tags`).
-/
namespace TemplateCompiler

variable {σ α : Type} {job : Job} {before : List Warning} {run run' : Run σ} {reader : Reader}
  {desk : Desk UInt8} {dispatch : Dispatch σ}

theorem Action.ofSession_ok {m : SessionM α} {a : α} (hok : Action.ofSession m run = .ok a run') :
    ∃ session, m run.session = .ok a session ∧ run' = { run with session } := by
  unfold Action.ofSession at hok
  split at hok
  · next b session heq =>
    obtain ⟨rfl, rfl⟩ := EStateM.Result.ok.inj hok
    exact ⟨session, heq, rfl⟩
  · cases hok

theorem singleName_ok {tag : Tag} {name : String}
    (hok : Standard.singleName tag run = .ok name run') :
    Reader.singleName tag = some name ∧ Markup.isIdentifier name = true ∧ run' = run := by
  unfold Standard.singleName at hok
  unfold Reader.singleName
  match hparams : tag.params with
  | [param] =>
    rw [hparams] at hok
    dsimp only at hok
    split at hok
    · next hidentifier =>
      obtain ⟨rfl, rfl⟩ := pure_eq_ok.1 hok
      exact ⟨if_pos hidentifier, hidentifier, rfl⟩
    · exact absurd hok Action.misuse_ne_ok
  | [] | _ :: _ :: _ =>
    rw [hparams] at hok
    exact absurd hok Action.misuse_ne_ok

theorem quotedPath_ok {tag : Tag} {path : String}
    (hok : Standard.quotedPath tag run = .ok path run') :
    Reader.quotedPath tag = some path ∧ run' = run := by
  unfold Standard.quotedPath at hok
  unfold Reader.quotedPath
  match hparams : tag.params with
  | [param] =>
    rw [hparams] at hok
    dsimp only at hok ⊢
    cases hunquoted : param.unquoted? with
    | none =>
      rw [hunquoted] at hok
      exact absurd hok Action.misuse_ne_ok
    | some text =>
      rw [hunquoted] at hok
      obtain ⟨rfl, rfl⟩ := pure_eq_ok.1 hok
      exact ⟨rfl, rfl⟩
  | [] | _ :: _ :: _ =>
    rw [hparams] at hok
    exact absurd hok Action.misuse_ne_ok

/-! ## Blocks -/

theorem Desk.ends_shut {ι : Type} (desk : Desk ι) (name : String) :
    (desk.shut name).ends = desk.ends := by
  unfold Desk.shut
  split <;> rfl

theorem Desk.shut_ending {ι : Type} (desk : Desk ι) (name : String)
    (ends : List (String × Option PauseState)) :
    ({ desk with ends } : Desk ι).shut name = { desk.shut name with ends } := by
  unfold Desk.shut
  dsimp only
  split <;> rfl

/-- The desk with an event, as a reader has it. -/
theorem apply_event {effect : Reader.Effect} (hnone : effect.statement? = none) (desk : Desk UInt8)
    (act : Desk.Act Passage) :
    effect.apply desk [act] = desk.act (act.flatten Passage.bytes) := by
  unfold Reader.Effect.apply
  rw [hnone, show Utf8.encode (Passage.stating none) = [] from rfl, Desk.put_nil]
  rfl

/-- A block begins: its sheet is opened, and if it is stored, what is stored is written and every
sheet is paused. -/
theorem handles_block (dispatch : Dispatch σ) (hjob : job.Finishes) :
    Handles job (Standard.onBlock dispatch) Reader.onBlock := by
  intro before run run' reader desk tag hmode h hok
  obtain ⟨name, first, hname, hok'⟩ := bind_eq_ok.1 hok
  obtain ⟨hsingle, hidentifier, rfl⟩ := singleName_ok hname
  have hdepicts := h.depicts_directives hmode
  have hdestination : ArtifactCache.blockName first.session.id first.session.template name =
      job.blockName name := by
    rw [hdepicts.id, hdepicts.template]
    rfl
  have hmeaning : Reader.onBlock tag reader = some (.openBlock name, reader.push (.block name)) := by
    rw [Reader.onBlock, hsingle]
    rfl
  refine ⟨.openBlock name, _, [.openBlock name], hmeaning, .cons (.openBlock name) .nil, ?_⟩
  rw [apply_event rfl]
  show Mirrors job before run' (reader.push (.block name)) (desk.openBlock name)
  obtain ⟨session, second, hsession, hok''⟩ := bind_eq_ok.1 hok'
  obtain ⟨rfl, rfl⟩ := EStateM.Result.ok.inj hsession
  dsimp only at hok''
  rw [hdestination] at hok''
  obtain ⟨overridden, third, hadd, hpaused⟩ := bind_eq_ok.1 hok''
  obtain ⟨opened, hopened, rfl⟩ := Action.ofSession_ok hadd
  obtain ⟨path, hpath, rfl, hkeeps, hblock⟩ := hdepicts.addDestination hjob hidentifier hopened
  have hframes : Frames job reader.opened (desk.shut name).ends first.source.hierarchy.frames := by
    rw [Desk.ends_shut]
    exact h.frames_directives hmode
  unfold Desk.openBlock
  dsimp only
  generalize desk.shut name = shut at *
  cases hstore : shut.store name with
  | none =>
    rw [hstore] at hpaused hblock
    obtain ⟨paused, last, hpure, hpush⟩ := bind_eq_ok.1 hpaused
    obtain ⟨rfl, rfl⟩ := pure_eq_ok.1 hpure
    obtain ⟨-, rfl⟩ := EStateM.Result.ok.inj hpush
    exact h.moved hmode hkeeps (hblock.ending _) (.block name none hframes)
  | some stored =>
    rw [hstore] at hpaused hblock
    rw [if_pos (show (some stored).isSome = true from rfl), ofExcept_bind_eq_ok] at hpaused
    obtain ⟨path', hpath', hinsert⟩ := hpaused
    have hpath'' := hdepicts.artifactPath_eq_ok.1 hpath'
    rw [hpath] at hpath''
    obtain rfl : path = path' := Except.ok.inj hpath''
    obtain ⟨⟨⟩, mid, hcopy, hrest⟩ := bind_eq_ok.1 hinsert
    obtain ⟨paused, last, hpause, hpush⟩ := bind_eq_ok.1 hrest
    obtain ⟨copied, hcopied, rfl⟩ := Action.ofSession_ok hcopy
    have hread : opened.disk.read? path = some stored := by
      have hstores := hblock.stored name path hidentifier hpath (.inl (by rw [hstore]; rfl))
      rw [hstore] at hstores
      exact hstores
    obtain ⟨hkeeps', hput⟩ := hblock.insertArtifact hjob hread hcopied
    obtain ⟨hflags, hhush⟩ := hput.pauseAll
    obtain ⟨rfl, rfl⟩ := EStateM.Result.ok.inj hpause
    obtain ⟨-, rfl⟩ := EStateM.Result.ok.inj hpush
    have hkeeps'' : first.session.Keeps copied :=
      ⟨hkeeps'.1.trans hkeeps.1, hkeeps'.2.trans hkeeps.2⟩
    refine h.moved hmode hkeeps'' (hhush.ending _) ?_
    show Frames job _ _ (⟨"block", .block name (job.blockName name) (some copied.pauseAll.1)⟩ :: _)
    rw [hflags]
    exact .block name (some _) hframes

theorem asBlock_eq_some {data : FrameData} {frame : Standard.BlockFrame}
    (h : Standard.asBlock data = some frame) :
    data = .block frame.name frame.destination frame.paused := by
  unfold Standard.asBlock at h
  split at h
  · obtain rfl := Option.some.inj h
    rfl
  · cases h

/-- Whether the name is repeated at the end of a block or not, the frame of the block is taken off and
its destination closed. -/
theorem onEndBlock_ok {dispatch : Dispatch σ} {tag : Tag} {u : PUnit}
    (hok : Standard.onEndBlock dispatch tag run = .ok u run') :
    ∃ data rest frame, run.source.hierarchy.frames = ⟨"block", data⟩ :: rest ∧
      Standard.asBlock data = some frame ∧
      (do
        Action.updateSession fun session => (session.removeDestination frame.destination).2
        match frame.paused with
        | some state => Action.updateSession (·.restore state)
        | none => pure ⟨⟩ : Action σ PUnit) (Action.withFrames run rest) = .ok u run' := by
  obtain ⟨frame, first, hpop, hok⟩ := bind_eq_ok.1 hok
  obtain ⟨data, rest, hframes, hview, rfl⟩ := Action.pop_ok hpop
  refine ⟨data, rest, frame, hframes, hview, ?_⟩
  cases hhead : tag.params.head? with
  | none =>
    rw [hhead] at hok
    exact hok
  | some param =>
    rw [hhead] at hok
    dsimp only at hok
    split at hok
    · obtain ⟨_, mid, hmisuse, -⟩ := bind_eq_ok.1 hok
      exact absurd hmisuse Action.misuse_ne_ok
    · exact hok

/-- A block ends: its sheet goes into the store, and the flags that were saved are restored. -/
theorem handles_endBlock (dispatch : Dispatch σ) (hjob : job.Finishes) :
    Handles job (Standard.onEndBlock dispatch) Reader.onEndBlock := by
  intro before run run' reader desk tag hmode h hok
  obtain ⟨data, rest, frame, hframes, hview, hclose⟩ := onEndBlock_ok hok
  have hinner := h.frames_directives hmode
  rw [hframes] at hinner
  obtain ⟨name, saved, more, others, hdata, hopened, hends, hrest⟩ := hinner.block_inv
  have hframe := (asBlock_eq_some hview).symm.trans hdata
  obtain ⟨hname, hdestination, hpaused⟩ := FrameData.block.inj hframe
  have hmeaning : Reader.onEndBlock tag reader =
      some (.closeBlock, { reader with opened := more }) := by
    rw [Reader.onEndBlock, hopened]
  refine ⟨.closeBlock, _, [.closeBlock], hmeaning, .cons .closeBlock .nil, ?_⟩
  rw [apply_event rfl]
  show Mirrors job before run' _ desk.closeBlock
  have hdepicts := (h.depicts_directives hmode).removeDestination hjob name
  have hkeeps := run.session.keeps_removeDestination (job.blockName name)
  have hshut := hdepicts.ending others
  rw [hdestination, hpaused] at hclose
  unfold Desk.closeBlock
  rw [hends]
  dsimp only
  rw [Desk.shut_ending]
  cases saved with
  | none =>
    obtain ⟨-, rfl⟩ := EStateM.Result.ok.inj hclose
    exact h.moved hmode hkeeps hshut hrest
  | some flags =>
    obtain ⟨-, rfl⟩ := EStateM.Result.ok.inj hclose
    exact h.moved hmode hkeeps (hshut.restore flags) hrest

/-! ## Other templates -/

theorem Session.openSource_ok {requested : String} {skipped : Option String}
    {child : Option SourceId} {session session' : Session} {source : Source}
    (hok : Session.openSource requested skipped child session = .ok source session') :
    ∃ found, session.find requested skipped = .ok (some found) ∧
      (source, session') = session.register ⟨requested, found.path, found.level, skipped, child⟩ := by
  unfold Session.openSource at hok
  rw [get_bind, ofExcept_bind_eq_ok] at hok
  obtain ⟨result, hfind, hok⟩ := hok
  cases result with
  | none => exact nomatch hok
  | some found =>
    obtain ⟨rfl, rfl⟩ := EStateM.Result.ok.inj hok
    exact ⟨found, hfind, rfl⟩

theorem Depicts.addSource {session session' : Session} (h : Depicts job session desk)
    {active : Option Origin} {requested : String} {skipped : Option String}
    {child id : Option SourceId}
    (hok : Session.addSource active requested skipped child session = .ok id session') :
    session.Keeps session' ∧ Depicts job session' desk := by
  unfold Session.addSource at hok
  rw [get_bind] at hok
  split at hok
  · obtain ⟨-, rfl⟩ := pure_eq_ok.1 hok
    exact ⟨⟨rfl, rfl⟩, h⟩
  · obtain ⟨source, mid, hopen, hok'⟩ := bind_eq_ok.1 hok
    obtain ⟨found, -, hregister⟩ := Session.openSource_ok hopen
    obtain ⟨rfl, rfl⟩ := Prod.mk.inj hregister
    obtain ⟨-, rfl⟩ := EStateM.Result.ok.inj hok'
    refine ⟨⟨rfl, rfl⟩, { h with waiting := ?_ }⟩
    intro source hmem
    rcases List.mem_append.1 hmem with hmem | hmem
    · exact h.waiting source hmem
    · rw [List.mem_singleton.1 hmem]
      rfl

theorem handles_insert (dispatch : Dispatch σ) (hjob : job.Finishes) :
    Handles job (Standard.onInsert dispatch) Reader.onInsert := by
  intro before run run' reader desk tag hmode h hok
  obtain ⟨path, first, hpath, hok'⟩ := bind_eq_ok.1 hok
  obtain ⟨hquoted, rfl⟩ := quotedPath_ok hpath
  obtain ⟨session, hinsert, rfl⟩ := Action.ofSession_ok hok'
  have hdepicts := h.depicts_directives hmode
  unfold Session.insertFile at hinsert
  obtain ⟨source, mid, hopen, hcopy⟩ := bind_eq_ok.1 hinsert
  obtain ⟨found, hfind, hregister⟩ := Session.openSource_ok hopen
  obtain ⟨rfl, rfl⟩ := Prod.mk.inj hregister
  obtain ⟨-, rfl⟩ := EStateM.Result.ok.inj hcopy
  have hmeaning : Reader.onInsert tag reader = some (.insert path, reader) := by
    rw [Reader.onInsert, hquoted]
    rfl
  have hinserted : job.Inserted path
      ((first.session.workspace.shelf.read? first.session.disk found.path).getD []) := by
    refine ⟨first.session.disk, found, hdepicts.grown, ?_, ?_⟩
    · rw [← hdepicts.workspace]
      exact hfind
    · rw [hdepicts.workspace]
  refine ⟨.insert path, reader, _, hmeaning, .cons (.insert hinserted) .nil, ?_⟩
  rw [apply_event rfl]
  show Mirrors job before _ reader (desk.put ([Passage.copied _].flatMap Passage.bytes))
  rw [List.flatMap_singleton]
  have hregistered : Depicts job
      (first.session.register ⟨Text.trimSlashes path, found.path, found.level, none, none⟩).2
      desk :=
    { hdepicts with }
  exact h.session hmode (Depicts.keeps_copy _ _) (hregistered.copy hjob _) rfl

/-- A template that extends another one writes no more to the main artifact. -/
theorem handles_extends (dispatch : Dispatch σ) :
    Handles job (Standard.onExtends dispatch) Reader.onExtends := by
  intro before run run' reader desk tag hmode h hok
  unfold Standard.onExtends at hok
  obtain ⟨path, first, hpath, hok'⟩ := bind_eq_ok.1 hok
  obtain ⟨hquoted, rfl⟩ := quotedPath_ok hpath
  obtain ⟨source, second, hsource, hrest⟩ := bind_eq_ok.1 hok'
  obtain ⟨rfl, rfl⟩ := EStateM.Result.ok.inj hsource
  split at hrest
  · exact absurd hrest Action.misuse_ne_ok
  · next hfirst =>
    obtain ⟨result, third, hfind, hfound⟩ := bind_eq_ok.1 hrest
    obtain ⟨-, rfl⟩ := ofExcept_eq_ok.1 hfind
    cases result with
    | none => exact nomatch hfound
    | some found =>
      obtain ⟨session, fourth, hsession, hchain⟩ := bind_eq_ok.1 hfound
      obtain ⟨rfl, rfl⟩ := EStateM.Result.ok.inj hsession
      split at hchain
      · exact nomatch hchain
      · obtain ⟨⟨⟩, fifth, hpause, hadding⟩ := bind_eq_ok.1 hchain
        obtain ⟨-, rfl⟩ := EStateM.Result.ok.inj hpause
        obtain ⟨id, sixth, hadd, hextend⟩ := bind_eq_ok.1 hadding
        obtain ⟨session, hadded, rfl⟩ := Action.ofSession_ok hadd
        obtain ⟨-, rfl⟩ := EStateM.Result.ok.inj hextend
        have hpaused := (h.depicts_directives hmode).setMainPaused true
        obtain ⟨hkeeps, hdepicts⟩ := hpaused.addSource hadded
        have hseen : ¬ 1 < reader.tagsSeen := by
          rw [← h.follows.tagsSeen]
          exact fun hlt => hfirst (.inl hlt)
        have hmeaning : Reader.onExtends tag reader =
            some (.extend (Text.trimSlashes path), reader) := by
          rw [Reader.onExtends, if_neg hseen, hquoted]
          rfl
        refine ⟨_, _, [.silence], hmeaning, .cons (.extend _) .nil, ?_⟩
        rw [apply_event rfl]
        have hsilent := h.session hmode hkeeps hdepicts rfl
        exact { hsilent with follows := { hsilent.follows with } }

theorem handles_include (dispatch : Dispatch σ) (hjob : job.Finishes) :
    Handles job (Standard.onInclude dispatch) Reader.onInclude := by
  intro before run run' reader desk tag hmode h hok
  unfold Standard.onInclude at hok
  match hparams : tag.params with
  | [path] =>
    rw [hparams] at hok
    refine ⟨_, _, [], ?_, .nil, h.emitted hjob hmode hok⟩
    rw [Reader.onInclude, hparams]
  | [] | _ :: _ :: _ =>
    rw [hparams] at hok
    exact absurd hok Action.misuse_ne_ok

/-! ## Text that is not read -/

theorem handles_literal (dispatch : Dispatch σ) :
    Handles job (Standard.onLiteral dispatch) (Reader.enter .literal) := by
  intro before run run' reader desk tag hmode h hok
  obtain ⟨-, rfl⟩ := EStateM.Result.ok.inj hok
  refine ⟨.none, { reader with mode := .literal }, [], rfl, .nil, ?_⟩
  rw [apply_none]
  exact {
    depicts := h.depicts_directives hmode
    frames := ⟨_, rfl, h.frames_directives hmode⟩
    follows := { h.follows with reading := rfl }
    options := h.options
    slots := h.slots
    warned := h.warned }

theorem handles_comment (dispatch : Dispatch σ) :
    Handles job (Standard.onComment dispatch) (Reader.enter .comment) := by
  intro before run run' reader desk tag hmode h hok
  obtain ⟨hflags, hhush⟩ := (h.depicts_directives hmode).pauseAll
  obtain ⟨-, rfl⟩ := EStateM.Result.ok.inj hok
  refine ⟨.none, { reader with mode := .comment }, [], rfl, .nil, ?_⟩
  rw [apply_none]
  exact {
    depicts := hhush
    frames := by
      refine ⟨run.source.hierarchy.frames, ?_, h.frames_directives hmode⟩
      rw [← hflags]
      rfl
    follows := { h.follows with reading := rfl }
    options := h.options
    slots := h.slots
    warned := h.warned }

/-- Where directives are read, no literal and no comment is open. -/
theorem pop_ne_ok {view : FrameData → Option α} {tag : String} {a : α}
    (htag : tag = "literal" ∨ tag = "comment") (h : Mirrors job before run reader desk)
    (hmode : reader.mode = .directives) : Action.pop tag view run ≠ .ok a run' := by
  intro hpop
  obtain ⟨data, rest, hframes, -⟩ := Action.pop_ok hpop
  have hinner := h.frames_directives hmode
  rw [hframes] at hinner
  have hmem := hinner.tag_mem
  rcases htag with rfl | rfl <;> simp at hmem

theorem handles_endLiteral (dispatch : Dispatch σ) :
    Handles job (Standard.onEndLiteral dispatch) Reader.refuse := by
  intro before run run' reader desk tag hmode h hok
  obtain ⟨⟨⟩, first, hpop, -⟩ := bind_eq_ok.1 hok
  exact absurd hpop (pop_ne_ok (.inl rfl) h hmode)

theorem handles_endComment (dispatch : Dispatch σ) :
    Handles job (Standard.onEndComment dispatch) Reader.refuse := by
  intro before run run' reader desk tag hmode h hok
  obtain ⟨state, first, hpop, -⟩ := bind_eq_ok.1 hok
  exact absurd hpop (pop_ne_ok (.inr rfl) h hmode)

/-! ## The table of tags -/

/-- The standard tags mean what they do. -/
theorem aligned_tags (hjob : job.Finishes) :
    Aligned (fun (handler : Dispatch σ → TagHandler σ) meaning =>
      ∀ dispatch, Handles job (handler dispatch) meaning) Standard.tags Reader.tags :=
  .cons ⟨rfl, fun d => handles_if d hjob⟩ <| .cons ⟨rfl, fun d => handles_elseIf d hjob⟩ <|
    .cons ⟨rfl, fun d => handles_else d hjob⟩ <| .cons ⟨rfl, fun d => handles_endIf d hjob⟩ <|
    .cons ⟨rfl, fun d => handles_for d hjob⟩ <| .cons ⟨rfl, fun d => handles_empty d hjob⟩ <|
    .cons ⟨rfl, fun d => handles_endFor d hjob⟩ <| .cons ⟨rfl, fun d => handles_with d hjob⟩ <|
    .cons ⟨rfl, fun d => handles_endWith d⟩ <| .cons ⟨rfl, fun d => handles_block d hjob⟩ <|
    .cons ⟨rfl, fun d => handles_endBlock d hjob⟩ <| .cons ⟨rfl, fun d => handles_extends d⟩ <|
    .cons ⟨rfl, fun d => handles_include d hjob⟩ <| .cons ⟨rfl, fun d => handles_insert d hjob⟩ <|
    .cons ⟨rfl, fun d => handles_literal d⟩ <| .cons ⟨rfl, fun d => handles_endLiteral d⟩ <|
    .cons ⟨rfl, fun d => handles_comment d⟩ <| .cons ⟨rfl, fun d => handles_endComment d⟩ .nil

/-- Where the handlers of tags are those of the standard library. -/
def Dispatch.TagsMean (dispatch : Dispatch σ) (job : Job) : Prop :=
  ∀ name handler, dispatch.tag? name = some handler →
    ∃ meaning, Reader.tags.lookup name = some meaning ∧ Handles job handler meaning

/-- However deep handlers may nest, the standard filters are found, or what never succeeds. -/
theorem filtersMean_standard (depth : Nat) :
    ((Library.standard : Library σ).dispatch depth).FiltersMean := by
  intro name handler hhandler
  cases depth with
  | zero =>
    obtain ⟨f, hf, rfl⟩ := Option.map_eq_some_iff.1 hhandler
    obtain ⟨meaning, hmeaning, -⟩ := aligned_filters.lookup hf
    exact ⟨meaning, hmeaning, fun _ _ _ _ hok => absurd hok throw_ne_ok⟩
  | succ depth =>
    obtain ⟨f, hf, rfl⟩ := Option.map_eq_some_iff.1 hhandler
    obtain ⟨meaning, hmeaning, happlies⟩ := aligned_filters.lookup hf
    exact ⟨meaning, hmeaning, happlies _⟩

/-- However deep handlers may nest, the standard tags are found, or what never succeeds. -/
theorem tagsMean_standard (hjob : job.Finishes) (depth : Nat) :
    ((Library.standard : Library σ).dispatch depth).TagsMean job := by
  intro name handler hhandler
  cases depth with
  | zero =>
    obtain ⟨f, hf, rfl⟩ := Option.map_eq_some_iff.1 hhandler
    obtain ⟨meaning, hmeaning, -⟩ := (aligned_tags hjob).lookup hf
    exact ⟨meaning, hmeaning, fun _ _ _ _ _ _ _ _ hok => absurd hok throw_ne_ok⟩
  | succ depth =>
    obtain ⟨f, hf, rfl⟩ := Option.map_eq_some_iff.1 hhandler
    obtain ⟨meaning, hmeaning, hhandles⟩ := (aligned_tags hjob).lookup hf
    exact ⟨meaning, hmeaning, hhandles _⟩

end TemplateCompiler
