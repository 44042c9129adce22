import TemplateCompiler.Proofs.Transcript.Blocks

/-!
# Draining and reading

Draining a source does to the artifacts what reading it says, piece by piece (`drain_ok`): each step
of the feed is taken alike, and the directive that it may come with is handled as it is read.
-/
namespace TemplateCompiler

variable {σ : Type} {job : Job} {before : List Warning} {run run' : Run σ} {reader : Reader}
  {dispatch : Dispatch σ}

/-- The desk in bytes. -/
abbrev Desk.inBytes (desk : Desk Passage) : Desk UInt8 :=
  desk.flatten Passage.bytes

/-! ## Texts -/

/-- What a text does to the artifacts is what its event says. -/
theorem Mirrors.chunk (hjob : job.Finishes) {desk : Desk Passage}
    (h : Mirrors job before run reader desk.inBytes) (content : Bytes) :
    ∃ acts, List.Forall₂ (Event.Enacts job.Inserted) (reader.chunk content) acts ∧
      Mirrors job before { run with session := run.session.write content } reader
        (desk.play acts).inBytes := by
  have hput (passage : Passage) (hbytes : passage.bytes = content) :
      (desk.play [.put [passage]]).inBytes = desk.inBytes.put content := by
    show Desk.flatten _ (desk.put [passage]) = _
    rw [Desk.flatten_put, List.flatMap_singleton, hbytes]
  have hwritten := h.depicts.write hjob content
  unfold Reader.chunk
  cases hmode : reader.mode with
  | directives =>
    refine ⟨_, .cons (.write _) .nil, ?_⟩
    rw [hput _ rfl]
    exact h.session hmode ⟨rfl, rfl⟩ ((h.depicts_directives hmode).write hjob content) rfl
  | literal =>
    rw [hmode] at hwritten
    refine ⟨_, .cons (.write _) .nil, ?_⟩
    rw [hput _ rfl]
    refine { h with depicts := ?_, frames := ?_ }
    · rw [hmode]
      exact hwritten
    · have hframes := h.frames
      rw [hmode] at hframes ⊢
      exact hframes
  | comment =>
    rw [hmode] at hwritten
    have hhush : Depicts job (run.session.write content) (desk.inBytes.hush.put content) := hwritten
    rw [Desk.put_hush] at hhush
    refine ⟨[], .nil, { h with depicts := ?_ }⟩
    rw [hmode]
    exact hhush

/-! ## Directives -/

/-- What closes literals and comments. -/
def Dispatch.Closes (dispatch : Dispatch σ) (job : Job) : Prop :=
  ∀ mode marker, mode.reading = .verbatim (some marker) →
    ∀ handler, dispatch.tag? marker = some handler →
      ∀ before run run' reader desk tag, reader.mode = mode →
        Mirrors job before run reader desk → handler tag run = .ok ⟨⟩ run' →
          Mirrors job before run' { reader with mode := .directives } desk

theorem closes_endLiteral {desk : Desk UInt8} {tag : Tag} (hmode : reader.mode = .literal)
    (h : Mirrors job before run reader desk)
    (hok : Standard.onEndLiteral dispatch tag run = .ok ⟨⟩ run') :
    Mirrors job before run' { reader with mode := .directives } desk := by
  have hframes := h.frames
  have hdepicts := h.depicts
  rw [hmode] at hframes hdepicts
  obtain ⟨rest, hrest, hinner⟩ := hframes
  obtain ⟨⟨⟩, first, hpop, hread⟩ := bind_eq_ok.1 hok
  obtain ⟨data, popped, hpopped, -, rfl⟩ := Action.pop_ok hpop
  obtain ⟨-, rfl⟩ := EStateM.Result.ok.inj hread
  rw [hrest] at hpopped
  obtain ⟨-, rfl⟩ := List.cons.inj hpopped
  exact {
    depicts := hdepicts
    frames := hinner
    follows := { h.follows with reading := rfl }
    options := h.options
    slots := h.slots
    warned := h.warned }

theorem asPauses_eq_some {data : FrameData} {state : PauseState}
    (h : Standard.asPauses data = some state) : data = .pauses state := by
  unfold Standard.asPauses at h
  split at h
  · obtain rfl := Option.some.inj h
    rfl
  · cases h

/-- The end of a comment brings the desk back. -/
theorem closes_endComment {desk : Desk UInt8} {tag : Tag} (hmode : reader.mode = .comment)
    (h : Mirrors job before run reader desk)
    (hok : Standard.onEndComment dispatch tag run = .ok ⟨⟩ run') :
    Mirrors job before run' { reader with mode := .directives } desk := by
  have hframes := h.frames
  have hdepicts := h.depicts
  rw [hmode] at hframes hdepicts
  obtain ⟨rest, hrest, hinner⟩ := hframes
  obtain ⟨state, first, hpop, hread⟩ := bind_eq_ok.1 hok
  obtain ⟨data, popped, hpopped, hview, rfl⟩ := Action.pop_ok hpop
  obtain rfl := asPauses_eq_some hview
  obtain ⟨-, rfl⟩ := EStateM.Result.ok.inj hread
  rw [hrest] at hpopped
  obtain ⟨hframe, rfl⟩ := List.cons.inj hpopped
  obtain rfl : job.flags desk.flags = state := FrameData.pauses.inj (Frame.mk.inj hframe).2
  have hnodup : desk.names.Nodup := by
    have := hdepicts.nodup
    rwa [show (desk.inMode .comment).names = desk.names from Desk.names_hush desk] at this
  have hrestored := hdepicts.restore desk.flags
  rw [show (desk.inMode .comment).restore desk.flags = desk from Desk.restore_hush hnodup]
    at hrestored
  exact {
    depicts := hrestored
    frames := hinner
    follows := { h.follows with reading := rfl }
    options := h.options
    slots := h.slots
    warned := h.warned }

/-- The handlers are those of the standard library, as far as they ever succeed. -/
structure Dispatch.IsStandard (dispatch : Dispatch σ) (job : Job) : Prop where
  filters : dispatch.FiltersMean
  tags : dispatch.TagsMean job
  closes : dispatch.Closes job

theorem isStandard_standard (hjob : job.Finishes) (depth : Nat) :
    ((Library.standard : Library σ).dispatch depth).IsStandard job where
  filters := filtersMean_standard depth
  tags := tagsMean_standard hjob depth
  closes := by
    intro mode marker hmarker handler hhandler before run run' reader desk tag hmode h hok
    cases depth with
    | zero =>
      obtain ⟨f, hf, rfl⟩ := Option.map_eq_some_iff.1 hhandler
      exact absurd hok throw_ne_ok
    | succ depth =>
      obtain ⟨f, hf, rfl⟩ := Option.map_eq_some_iff.1 hhandler
      cases mode with
      | directives => cases hmarker
      | literal =>
        obtain rfl : "endliteral" = marker := Option.some.inj (Reading.verbatim.inj hmarker)
        obtain rfl := Option.some.inj hf
        exact closes_endLiteral hmode h hok
      | comment =>
        obtain rfl : "endcomment" = marker := Option.some.inj (Reading.verbatim.inj hmarker)
        obtain rfl := Option.some.inj hf
        exact closes_endComment hmode h hok

/-- The run once a directive has been met. -/
theorem Mirrors.met {desk : Desk UInt8} (h : Mirrors job before run reader desk)
    (tag : Option String) (tagsSeen : Nat) :
    Mirrors job before { run with source := { run.source with currentTag := tag, tagsSeen } }
      { reader with tag, tagsSeen } desk where
  depicts := h.depicts
  frames := h.frames
  follows := { h.follows with tag := rfl, tagsSeen := rfl }
  options := h.options
  slots := h.slots
  warned := h.warned

theorem tag_write_ok (hjob : job.Finishes) (hdispatch : dispatch.IsStandard job)
    (hmode : reader.mode = .directives) {desk : Desk Passage} {tag : Tag} {u : PUnit}
    (h : Mirrors job before run reader desk.inBytes) (hok : tag.write dispatch run = .ok u run') :
    ∃ fills params slots meaning effect reader' acts,
      Reader.tags.lookup tag.name = some meaning ∧
      Reader.fill reader.scene reader.slots tag.params = some (fills, params, slots) ∧
      meaning { tag with params } { reader with slots } = some (effect, reader') ∧
      List.Forall₂ (Event.Enacts job.Inserted)
        (.write (.tagged fills effect.statement?) :: effect.events) acts ∧
      Mirrors job before run' reader' (desk.play acts).inBytes := by
  unfold Tag.write at hok
  cases hhandler : dispatch.tag? tag.name with
  | none =>
    rw [hhandler] at hok
    exact nomatch hok
  | some handler =>
    rw [hhandler] at hok
    obtain ⟨params, first, hfill, hhandle⟩ := bind_eq_ok.1 hok
    obtain ⟨meaning, hlookup, hhandles⟩ := hdispatch.tags _ _ hhandler
    obtain ⟨fills, slots, hfills, hfilled⟩ := fillSlots_ok hjob hdispatch.filters hmode h hfill
    obtain ⟨effect, reader', acts, hmeaning, henacts, hdone⟩ :=
      hhandles _ _ _ _ _ _ (by exact hmode) hfilled hhandle
    refine ⟨fills, params, slots, meaning, effect, reader',
      .put [.tagged fills effect.statement?] :: acts, hlookup, hfills, hmeaning,
      .cons (.write _) henacts, ?_⟩
    have hdesk : (desk.play (.put [.tagged fills effect.statement?] :: acts)).inBytes =
        effect.apply (desk.inBytes.put (Utf8.encode (String.join (fills.map (·.render))))) acts := by
      show Desk.flatten _ ((desk.put [.tagged fills effect.statement?]).play acts) = _
      unfold Reader.Effect.apply
      rw [Desk.flatten_play, Desk.flatten_put, List.flatMap_singleton, Desk.put_put,
        ← Utf8.encode_append]
      rfl
    rw [hdesk]
    exact hdone

theorem readTag_ok (hjob : job.Finishes) (hdispatch : dispatch.IsStandard job)
    (hmode : reader.mode = .directives) {desk : Desk Passage} {d : Markup.Directive} {u : PUnit}
    (hkind : d.kind = .tag) (h : Mirrors job before run reader desk.inBytes)
    (hok : handle dispatch d run = .ok u run') :
    ∃ events reader' acts, reader.readTag d = some (events, reader') ∧
      List.Forall₂ (Event.Enacts job.Inserted) events acts ∧
      Mirrors job before run' reader' (desk.play acts).inBytes := by
  unfold handle at hok
  rw [hkind] at hok
  have hmet := h.met (some d.name) (reader.tagsSeen + 1)
  rw [← h.follows.tagsSeen] at hmet
  obtain ⟨⟨⟩, first, hupdate, hrest⟩ := bind_eq_ok.1 hok
  obtain ⟨-, rfl⟩ := EStateM.Result.ok.inj hupdate
  obtain ⟨tag, second, hread, hwrite⟩ := bind_eq_ok.1 hrest
  obtain ⟨hvalue, hmirrors⟩ := Action.reading_ok hmet (Tag.appends_read _ _ _) hread
  obtain ⟨fills, params, slots, meaning, effect, reader', acts, hlookup, hfills, hmeaning, henacts,
    hdone⟩ := tag_write_ok hjob hdispatch (by exact hmode) hmirrors hwrite
  refine ⟨_, reader', acts, ?_, henacts, hdone⟩
  rw [h.follows.tagsSeen] at hvalue hfills hmeaning
  unfold Reader.readTag
  dsimp only
  rw [hvalue]
  show (Reader.tags.lookup tag.name).bind _ = _
  rw [hlookup]
  show (Reader.fill _ _ _).bind _ = _
  rw [hfills]
  show (meaning _ _).bind _ = _
  rw [hmeaning]
  rfl

theorem readVariable_ok (hjob : job.Finishes) (hdispatch : dispatch.IsStandard job)
    (hmode : reader.mode = .directives) {desk : Desk Passage} {d : Markup.Directive} {u : PUnit}
    (hkind : d.kind = .variable) (h : Mirrors job before run reader desk.inBytes)
    (hok : handle dispatch d run = .ok u run') :
    ∃ events reader' acts, reader.readVariable d = some (events, reader') ∧
      List.Forall₂ (Event.Enacts job.Inserted) events acts ∧
      Mirrors job before run' reader' (desk.play acts).inBytes := by
  unfold handle at hok
  rw [hkind] at hok
  have hmet := h.met none reader.tagsSeen
  rw [← h.follows.tagsSeen] at hmet
  obtain ⟨⟨⟩, first, hupdate, hrest⟩ := bind_eq_ok.1 hok
  obtain ⟨-, rfl⟩ := EStateM.Result.ok.inj hupdate
  obtain ⟨v, second, hread, hwrite⟩ := bind_eq_ok.1 hrest
  obtain ⟨hvalue, hmirrors⟩ := Action.reading_ok hmet (Variable.appends_read _ _ _) hread
  obtain ⟨chain, hchain, hwrites⟩ := Variable.write_writes hdispatch.filters hwrite
  have hdone := hwrites.mirrors hjob hmirrors (by exact hmode)
  refine ⟨[.write (.shown v.expr chain)], { reader with tag := none },
    [.put [.shown v.expr chain]], ?_, .cons (.write _) .nil, ?_⟩
  · rw [h.follows.tagsSeen] at hvalue
    unfold Reader.readVariable
    dsimp only
    rw [hvalue]
    show (Reader.filterings v.filters).bind _ = _
    rw [hchain]
    rfl
  · show Mirrors job before run' _ (Desk.flatten _ (desk.put [.shown v.expr chain]))
    rw [Desk.flatten_put, List.flatMap_singleton]
    rw [h.follows.tagsSeen] at hdone
    exact hdone

/-! ## Closing tags of text that is not read -/

/-- A marker that was found is the tag that was looked for, and nothing more. -/
theorem findMarkerFrom_eq_some {marker : String} {offset : Nat} {line : Bytes}
    {d : Markup.Directive} (h : Markup.Directive.findMarkerFrom marker offset line = some d) :
    d.name = marker ∧ d.params = "" ∧ d.closer = .tag := by
  induction line generalizing offset with
  | nil => cases h
  | cons b rest ih =>
    unfold Markup.Directive.findMarkerFrom at h
    dsimp only at h
    split at h
    · next e heq =>
      obtain rfl := Option.some.inj h
      split at heq
      · unfold Markup.Directive.readMarker? at heq
        dsimp only at heq
        split at heq
        · obtain rfl := Option.some.inj heq
          exact ⟨rfl, rfl, rfl⟩
        · cases heq
      · cases heq
    · exact ih h

theorem read_marker (scene : Scene) (name : String) :
    (Tag.read scene name "").value? = some ⟨name, "", []⟩ := by
  unfold Tag.read
  rw [show "".toList = [] from rfl, Markup.Lexeme.lex]
  rfl

/-- The tag that ends a literal or a comment brings directives back, and writes nothing. -/
theorem marker_ok (hdispatch : dispatch.IsStandard job) {desk : Desk UInt8}
    {d : Markup.Directive} {u : PUnit} {marker : String}
    (hmarker : reader.mode.reading = .verbatim (some marker)) (hname : d.name = marker)
    (hparams : d.params = "") (hcloser : d.closer = .tag)
    (h : Mirrors job before run reader desk) (hok : handle dispatch d run = .ok u run') :
    Mirrors job before run' { reader with
      mode := .directives, tag := some d.name, tagsSeen := reader.tagsSeen + 1 } desk := by
  unfold handle at hok
  rw [show d.kind = .tag by rw [Markup.Directive.kind, hcloser]] at hok
  have hmet := h.met (some d.name) (reader.tagsSeen + 1)
  rw [← h.follows.tagsSeen] at hmet ⊢
  obtain ⟨⟨⟩, first, hupdate, hrest⟩ := bind_eq_ok.1 hok
  obtain ⟨-, rfl⟩ := EStateM.Result.ok.inj hupdate
  obtain ⟨tag, second, hread, hwrite⟩ := bind_eq_ok.1 hrest
  obtain ⟨hvalue, hmirrors⟩ := Action.reading_ok hmet (Tag.appends_read _ _ _) hread
  rw [hparams, read_marker] at hvalue
  obtain rfl := Option.some.inj hvalue
  unfold Tag.write at hwrite
  dsimp only at hwrite
  cases hhandler : dispatch.tag? d.name with
  | none =>
    rw [hhandler] at hwrite
    exact nomatch hwrite
  | some handler =>
    rw [hhandler] at hwrite
    obtain ⟨params, third, hfill, hhandle⟩ := bind_eq_ok.1 hwrite
    obtain ⟨rfl, rfl⟩ := pure_eq_ok.1 hfill
    exact hdispatch.closes reader.mode marker hmarker handler (hname ▸ hhandler) _ _ _ _ _ _
      (by rfl) hmirrors hhandle

/-! ## Feeds -/

/-- What is written and read when a directive is met. -/
theorem meet_ok (hjob : job.Finishes) (hdispatch : dispatch.IsStandard job) {desk : Desk Passage}
    {text : Bytes} {d : Markup.Directive} {atEnd : Bool} {u : PUnit}
    (hfound : ∀ marker, reader.mode.reading = .verbatim (some marker) →
      d.name = marker ∧ d.params = "" ∧ d.closer = .tag)
    (h : Mirrors job before run reader desk.inBytes)
    (hok : meet dispatch text d atEnd run = .ok u run') :
    ∃ events reader' acts, reader.meet d = some (events, reader') ∧
      List.Forall₂ (Event.Enacts job.Inserted) (reader.chunk text ++ events) acts ∧
      Mirrors job before run' reader' (desk.play acts).inBytes := by
  -- the warning that there is no closer changes nothing else
  have hrun : ∃ first : Run σ, Mirrors job before first reader desk.inBytes ∧
      (do
        Action.updateSession (·.write text)
        Action.updateSource fun source => { source with atEnd }
        handle dispatch d : Action σ PUnit) first = .ok u run' := by
    unfold meet at hok
    split at hok
    · obtain ⟨⟨⟩, first, hwarn, hrest⟩ := bind_eq_ok.1 hok
      obtain ⟨-, rfl⟩ := EStateM.Result.ok.inj hwarn
      refine ⟨_, ?_, hrest⟩
      exact { h with
        depicts := { h.depicts with }
        warned := h.warned.trans (List.prefix_append _ _) }
    · exact ⟨run, h, hok⟩
  obtain ⟨first, hfirst, hrest⟩ := hrun
  obtain ⟨texts, htexts, hchunk⟩ := hfirst.chunk hjob text
  obtain ⟨⟨⟩, second, hwrite, hrest'⟩ := bind_eq_ok.1 hrest
  obtain ⟨-, rfl⟩ := EStateM.Result.ok.inj hwrite
  obtain ⟨⟨⟩, third, hupdate, hhandle⟩ := bind_eq_ok.1 hrest'
  obtain ⟨-, rfl⟩ := EStateM.Result.ok.inj hupdate
  have hended : Mirrors job before
      { first with
        session := first.session.write text
        source := { first.source with atEnd } } reader (desk.play texts).inBytes :=
    { hchunk with follows := { hchunk.follows with } }
  unfold Reader.meet
  cases hmode : reader.mode with
  | directives =>
    match hkind : d.kind with
    | .tag =>
      obtain ⟨events, reader', acts, hread, henacts, hdone⟩ :=
        readTag_ok hjob hdispatch hmode hkind hended hhandle
      refine ⟨events, reader', texts ++ acts, hread, List.rel_append htexts henacts, ?_⟩
      rw [Desk.play_append]
      exact hdone
    | .variable =>
      obtain ⟨events, reader', acts, hread, henacts, hdone⟩ :=
        readVariable_ok hjob hdispatch hmode hkind hended hhandle
      refine ⟨events, reader', texts ++ acts, hread, List.rel_append htexts henacts, ?_⟩
      rw [Desk.play_append]
      exact hdone
  | literal | comment =>
    have hreading := congrArg Mode.reading hmode
    obtain ⟨hname, hparams, hcloser⟩ := hfound _ hreading
    refine ⟨[], _, texts, rfl, by rw [List.append_nil]; exact htexts, ?_⟩
    exact marker_ok hdispatch hreading hname hparams hcloser hended hhandle

/-- What is found by its marker in a feed. -/
theorem step_directive {reading : Reading} {feed after : Feed} {text : Bytes}
    {d : Markup.Directive} (h : feed.step reading = .directive text d after) (marker : String)
    (hmarker : reading = .verbatim (some marker)) :
    d.name = marker ∧ d.params = "" ∧ d.closer = .tag := by
  unfold Feed.step at h
  split at h
  · cases h
  · cases h
  · split at h
    · split at h <;> cases h
    · split at h
      · cases h
      · next found heq =>
        obtain ⟨-, rfl, -⟩ := Feed.Step.directive.inj h
        rw [hmarker] at heq
        exact findMarkerFrom_eq_some heq

theorem atEnd_of_step {reading : Reading} {feed : Feed} (h : feed.step reading = .done) :
    feed.atEnd = true := by
  unfold Feed.step at h
  unfold Feed.atEnd
  split at h
  · next hline hrest => rw [hline, hrest]; rfl
  · cases h
  · split at h
    · split at h <;> cases h
    · split at h <;> cases h

theorem drain_eq (dispatch : Dispatch σ) (feed : Feed) :
    drain dispatch feed = (do
      let source ← Action.source
      if source.paused then pure feed
      else
        match feed.step source.reading with
        | .done => pure feed
        | .newLine after =>
          Action.updateSource fun source => { source with line := source.line + 1 }
          drain dispatch after
        | .checked after => drain dispatch after
        | .forbidden => throw (.forbiddenMarker source.location)
        | .text content after =>
          Action.updateSession (·.write content)
          drain dispatch after
        | .directive before d after =>
          meet dispatch before d after.atEnd
          drain dispatch after) := by
  rw [drain]
  congr 1
  funext source
  congr 1
  split <;> simp_all

theorem Reader.read_eq (reader : Reader) (feed : Feed) :
    reader.read feed =
      (match feed.step reader.mode.reading with
      | .done => some ([], reader)
      | .newLine after => read { reader with line := reader.line + 1 } after
      | .checked after => read reader after
      | .forbidden => none
      | .text content after => do
        let (events, last) ← read reader after
        some (reader.chunk content ++ events, last)
      | .directive before d after => do
        let (events, next) ← reader.meet d
        let (more, last) ← read next after
        some (reader.chunk before ++ events ++ more, last)) := by
  rw [read]
  split <;> simp_all

/-- **Draining reads**: a source that is drained does to the artifacts what reading it says. -/
theorem drain_ok (hjob : job.Finishes) (hdispatch : dispatch.IsStandard job) {feed rest : Feed}
    {run run' : Run σ} {reader : Reader} {desk : Desk Passage}
    (h : Mirrors job before run reader desk.inBytes) (hok : drain dispatch feed run = .ok rest run') :
    rest.atEnd = true ∧ ∃ events last acts, reader.read feed = some (events, last) ∧
      List.Forall₂ (Event.Enacts job.Inserted) events acts ∧
      Mirrors job before run' last (desk.play acts).inBytes := by
  rw [drain_eq] at hok
  obtain ⟨source, first, hsource, hrest⟩ := bind_eq_ok.1 hok
  obtain ⟨rfl, rfl⟩ := EStateM.Result.ok.inj hsource
  rw [h.follows.running, if_neg Bool.false_ne_true, h.follows.reading] at hrest
  rw [Reader.read_eq]
  cases hstep : feed.step reader.mode.reading with
  | done =>
    rw [hstep] at hrest
    obtain ⟨rfl, rfl⟩ := pure_eq_ok.1 hrest
    exact ⟨atEnd_of_step hstep, [], reader, [], rfl, .nil, h⟩
  | newLine after =>
    rw [hstep] at hrest
    obtain ⟨⟨⟩, second, hupdate, hdrain⟩ := bind_eq_ok.1 hrest
    obtain ⟨-, rfl⟩ := EStateM.Result.ok.inj hupdate
    have hline : Mirrors job before
        { run with source := { run.source with line := run.source.line + 1 } }
        { reader with line := reader.line + 1 } desk.inBytes :=
      { h with follows := { h.follows with line := congrArg (· + 1) h.follows.line } }
    exact drain_ok hjob hdispatch hline hdrain
  | checked after =>
    rw [hstep] at hrest
    exact drain_ok hjob hdispatch h hrest
  | forbidden =>
    rw [hstep] at hrest
    exact nomatch hrest
  | text content after =>
    rw [hstep] at hrest
    obtain ⟨⟨⟩, second, hwrite, hdrain⟩ := bind_eq_ok.1 hrest
    obtain ⟨-, rfl⟩ := EStateM.Result.ok.inj hwrite
    obtain ⟨texts, htexts, hchunk⟩ := h.chunk hjob content
    obtain ⟨hend, events, last, acts, hread, henacts, hdone⟩ :=
      drain_ok hjob hdispatch hchunk hdrain
    refine ⟨hend, reader.chunk content ++ events, last, texts ++ acts, ?_,
      List.rel_append htexts henacts, ?_⟩
    · dsimp only
      rw [hread]
      rfl
    · rw [Desk.play_append]
      exact hdone
  | directive text d after =>
    rw [hstep] at hrest
    obtain ⟨⟨⟩, second, hmeet, hdrain⟩ := bind_eq_ok.1 hrest
    obtain ⟨first, next, met, hread, hmet, hmirrors⟩ :=
      meet_ok hjob hdispatch (step_directive hstep) h hmeet
    obtain ⟨hend, events, last, acts, hreads, henacts, hdone⟩ :=
      drain_ok hjob hdispatch hmirrors hdrain
    refine ⟨hend, _, last, met ++ acts, ?_, List.rel_append hmet henacts, ?_⟩
    · dsimp only
      rw [hread]
      show (next.read after).bind _ = _
      rw [hreads]
      rfl
    · rw [Desk.play_append]
      exact hdone
termination_by feed.size
decreasing_by
  all_goals exact Feed.size_lt_of_step (by rw [hstep]; rfl)

end TemplateCompiler
