import Mathlib.Data.List.Nodup
import TemplateCompiler.Proofs.Complaints.Here
import TemplateCompiler.Proofs.Handling.Temporaries
import TemplateCompiler.Proofs.Pipeline.Emission
import TemplateCompiler.Proofs.Value.Escaping

/-!
# Slots over a session

The counter of parameter slots never goes back as long as no handler takes it back (`Action.CountsUp`),
which neither the standard library does nor any script added to it. So no two tags of a session are
given the same slot, and chains of filters compose (`Library.composesFilters`).
-/
namespace TemplateCompiler

open Code

variable {σ α β : Type}

/-! ## The counter of slots -/

/-- An action that takes no slot back. -/
def Action.CountsUp (action : Action σ α) : Prop :=
  ∀ run : Run σ, run.session.slots ≤ (Run.after (action run)).session.slots

/-- No handler takes a slot back. -/
def Library.CountsUp (library : Library σ) : Prop :=
  library.HandlersAre fun (α : Type) (action : Action σ α) => action.CountsUp

namespace Action

theorem countsUp_pure (a : α) : CountsUp (pure a : Action σ α) :=
  fun _ => Nat.le_refl _

theorem countsUp_throw (error : CompileError) : CountsUp (throw error : Action σ α) :=
  fun _ => Nat.le_refl _

theorem CountsUp.bind {action : Action σ α} {f : α → Action σ β} (h : CountsUp action)
    (hf : ∀ a, CountsUp (f a)) : CountsUp (action >>= f) :=
  fun run => Run.after_bind (R := fun run run' => run.session.slots ≤ run'.session.slots)
    (fun _ _ _ => Nat.le_trans) (h run) hf

theorem ComplainsHere.countsUp {action : Action σ α} (h : ComplainsHere action) :
    CountsUp action := by
  intro run
  have hrun := h run
  cases hresult : action run <;> rw [hresult] at hrun
  · exact hrun.slots
  · exact hrun.2.slots

theorem countsUp_reading (read : Scene → Diagnosed α) :
    CountsUp (reading read : Action σ α) := by
  intro run
  unfold reading
  split <;> exact Nat.le_refl _

theorem countsUp_addSource (requested : String) (skipped : Option String)
    (child : Option SourceId) :
    CountsUp (addSource requested skipped child : Action σ (Option SourceId)) := by
  refine CountsUp.bind (fun _ => Nat.le_refl _) fun source run => ?_
  have hadd := Session.addSource_eq (some source.toOrigin) requested skipped child run.session
  split at hadd
  · rw [ofSession_of_ok hadd]
    exact Nat.le_refl _
  · split at hadd
    · rw [ofSession_of_error hadd]
      exact Nat.le_refl _
    · rw [ofSession_of_error hadd]
      exact Nat.le_refl _
    · rw [ofSession_of_ok hadd]
      exact Nat.le_refl _

/-- The actions by which directives are met take no slot back. -/
theorem meets_countsUp : Meets fun (α : Type) (action : Action σ α) => action.CountsUp where
  pure := countsUp_pure
  bind := CountsUp.bind
  unknownTag name := (serves_complainsHere.unknownTag name).countsUp
  unknownFilter name := (serves_complainsHere.unknownFilter name).countsUp
  write text := (complainsHere_write text).countsUp
  nextSlot := complainsHere_nextSlot.countsUp
  readVariable _ _ := countsUp_reading _
  readTag _ _ := countsUp_reading _
  mark _ _ := fun _ => Nat.le_refl _
  warn message := (complainsHere_warn message).countsUp
  pass _ := fun _ => Nat.le_refl _

/-- Nothing that scripts may call takes a slot back. -/
theorem answers_countsUp : Answers fun (α : Type) (action : Action Journal α) => action.CountsUp where
  toMeets := meets_countsUp
  throw := countsUp_throw
  look _ := fun _ => Nat.le_refl _
  reading := countsUp_reading
  remember _ := fun _ => Nat.le_refl _
  update _ _ := fun _ => Nat.le_refl _
  addSource := countsUp_addSource
  insertFile requested := (complainsHere_insertFile requested).countsUp
  insertArtifact path := (complainsHere_insertArtifact path).countsUp
  addDestination name temporary := (complainsHere_addDestination name temporary).countsUp
  removeDestination name := fun run => (run.session.keeps_removeDestination name).1.ge
  setMainPaused _ := fun _ => Nat.le_refl _
  pauseAll := serves_complainsHere.pauseAll.countsUp
  restore state := (serves_complainsHere.restore state).countsUp
  perform dispatch step hanswer := by
    intro run
    obtain ⟨entry, hentered⟩ := exists_after_perform dispatch step run
    rw [hentered]
    exact hanswer run

end Action

/-! ## Libraries and sessions -/

namespace Library

variable {library : Library σ}

/-- The standard library takes no slot back. -/
theorem countsUp_standard : (Library.standard : Library σ).CountsUp where
  tags entry hentry dispatch _ _ tag :=
    (Action.serves_complainsHere.tags entry hentry dispatch tag).countsUp
  filters entry hentry dispatch _ _ call position :=
    (Action.serves_complainsHere.filters entry hentry dispatch call position).countsUp

/-- **Scripts** take no slot back. -/
theorem CountsUp.scripted {library : Library Journal} (h : library.CountsUp)
    (tags filters : List (String × Script)) : (library.scripted tags filters).CountsUp :=
  HandlersAre.scripted h Action.answers_countsUp tags filters

theorem keepsFilters_standard : (Library.standard : Library σ).KeepsFilters :=
  fun _ _ => id

end Library

namespace Moment

variable {library : Library σ} {depth : Nat} {m m' : Moment σ}

/-- What a step does takes no slot back. -/
theorem countsUp_next (h : library.CountsUp) (m : Moment σ) :
    (m.next (library.dispatch depth)).Keeps fun session => m.session.slots ≤ session.slots := by
  have hsettle (session : Session) (source : Source) (feed : Feed) :
      session.slots ≤ (session.settle source feed).slots := by
    unfold Session.settle
    split
    · split <;> exact Nat.le_refl _
    · exact Nat.le_refl _
  obtain ⟨htags, hfilters⟩ := h.dispatch (Action.countsUp_throw _) depth
  cases m with
  | between session memory =>
    rw [next]
    split
    · split
      · exact True.intro
      · exact Nat.le_refl _
    · exact Nat.le_refl _
  | draining run feed =>
    rw [next]
    split
    · exact hsettle run.session run.source feed
    · split
      case h_1 => exact hsettle run.session run.source feed
      case h_6 before d after _ =>
        have hmeet := Action.meets_countsUp.meet htags hfilters before d after.atEnd run
        cases hresult : meet (library.dispatch depth) before d after.atEnd run <;>
          rw [hresult] at hmeet
        · exact hmeet
        · exact hmeet
      all_goals exact Nat.le_refl _

/-- **The counter never goes back** in the course of a compile. -/
theorem slots_le_of_reached (h : library.CountsUp)
    (hreached : Reached (library.dispatch depth) m m') : m.session.slots ≤ m'.session.slots :=
  @keeps_reached σ (library.dispatch depth) (m.session.slots ≤ ·.slots)
    (fun middle hmiddle => (countsUp_next h middle).mono fun _ => Nat.le_trans hmiddle) m m'
    (Nat.le_refl _) hreached

end Moment

/-! ## Calls of tags -/

/-- Reads a tag that has been met. -/
def Markup.Directive.readTag (d : Markup.Directive) : Action σ Tag := do
  Action.updateSource fun source =>
    { source with currentTag := some d.name, tagsSeen := source.tagsSeen + 1 }
  Action.reading fun scene => Tag.read scene d.name d.params

namespace Moment

variable {dispatch : Dispatch σ} {m m' : Moment σ} {tag called : Tag} {run : Run σ}

/-- At the moment a tag is handled next: this is how it has been read, and this is how its handler is
called. -/
def CallsFor (dispatch : Dispatch σ) (m : Moment σ) (tag called : Tag) (run : Run σ) : Prop :=
  ∃ start feed before d after met handler, m = draining start feed ∧ start.source.paused = false ∧
    feed.step start.source.reading = .directive before d after ∧ d.kind = .tag ∧
    d.readTag (start.approach before d after.atEnd) = .ok tag met ∧
    tag.prepare dispatch met = .ok (handler, called) run

/-- Whatever tag is handled has been read. -/
theorem calls_iff_exists_callsFor :
    Calls dispatch m called run ↔ ∃ tag, CallsFor dispatch m tag called run := by
  have hsplit (d : Markup.Directive) : d.prepare dispatch = (do
      let tag ← (d.readTag : Action σ Tag)
      tag.prepare dispatch) := by
    unfold Markup.Directive.prepare Markup.Directive.readTag
    rw [bind_assoc]
  constructor
  · rintro ⟨start, feed, before, d, after, handler, hm, hrunning, hstep, hkind, hprepare⟩
    rw [hsplit] at hprepare
    obtain ⟨tag, met, hread, hrest⟩ := bind_eq_ok.1 hprepare
    exact ⟨tag, start, feed, before, d, after, met, handler, hm, hrunning, hstep, hkind, hread, hrest⟩
  · rintro ⟨tag, start, feed, before, d, after, met, handler, hm, hrunning, hstep, hkind, hread, hrest⟩
    refine ⟨start, feed, before, d, after, handler, hm, hrunning, hstep, hkind, ?_⟩
    rw [hsplit]
    exact bind_eq_ok.2 ⟨tag, met, hread, hrest⟩

/-- What the handler does takes no slot back. -/
theorem slots_le_of_leads {library : Library σ} {depth : Nat} {next : Moment σ}
    (h : library.CountsUp) (hcalls : Calls (library.dispatch depth) m called run)
    (hleads : Leads (library.dispatch depth) m next) : run.session.slots ≤ next.session.slots := by
  obtain ⟨handler, after, hhandler, hnext⟩ := hcalls.next_eq
  have hhandles := (h.dispatch (Action.countsUp_throw _) depth).1 _ _ hhandler called run
  rw [show m.next _ = _ from hleads] at hnext
  cases hresult : handler called run with
  | ok u last =>
    rw [hresult] at hhandles hnext
    obtain rfl := Next.goesOn.inj hnext
    exact hhandles
  | error error last =>
    rw [hresult] at hnext
    cases hnext

/-- The slots that are handed out where the tag is handled next. -/
def slotsFor (m : Moment σ) (tag : Tag) : List Nat :=
  List.range' m.session.slots (Tag.filtered tag.params)

theorem slots_approach (start : Run σ) (before : Bytes) (d : Markup.Directive) (atEnd : Bool) :
    (start.approach before d atEnd).session.slots = start.session.slots := by
  unfold Run.approach
  dsimp only
  split <;> rfl

/-- The handler is called with slots in place of the parameters that have filters. -/
theorem CallsFor.params_eq (hkeeps : dispatch.KeepsFilters) (h : CallsFor dispatch m tag called run)
    (hstandard : ∀ param ∈ tag.params, param.UsesStandard) :
    called = { tag with params := Tag.withSlots m.session.slots tag.params } ∧
      run.session.slots = m.session.slots + Tag.filtered tag.params := by
  obtain ⟨start, feed, before, d, after, met, handler, rfl, -, -, -, hread, hprepare⟩ := h
  have hslots : met.session.slots = start.session.slots := by
    obtain ⟨⟨⟩, _, hmark, hread⟩ := bind_eq_ok.1 hread
    obtain ⟨-, rfl⟩ := EStateM.Result.ok.inj hmark
    unfold Action.reading at hread
    split at hread
    · obtain ⟨-, rfl⟩ := EStateM.Result.ok.inj hread
      exact slots_approach start before d after.atEnd
    · cases hread
  unfold Tag.prepare at hprepare
  cases hfound : dispatch.tag? tag.name with
  | none =>
    rw [hfound] at hprepare
    exact nomatch hprepare
  | some found =>
    rw [hfound] at hprepare
    obtain ⟨params, filled, hfill, hpure⟩ := bind_eq_ok.1 hprepare
    obtain ⟨heq, rfl⟩ := pure_eq_ok.1 hpure
    obtain ⟨-, rfl⟩ := Prod.mk.inj heq
    have hcomplete := Tag.isComplete_of_fillSlots hkeeps hstandard hfill
    rw [Tag.fillSlots_emits hkeeps fun param hparam => ⟨hstandard param hparam, hcomplete param hparam⟩]
      at hfill
    obtain ⟨rfl, rfl⟩ := EStateM.Result.ok.inj hfill
    rw [hslots]
    exact ⟨rfl, congrArg (· + _) ((met.slots_emit _).trans hslots)⟩

end Moment

/-! ## Declared chains -/

/-- The filters are those that are written, with the arguments that are written for them. -/
def FilterCall.AreDeclared (scene : Scene) (written : List Markup.FilterText)
    (calls : List FilterCall) : Prop :=
  List.Forall₂ (fun filter call => call.name = filter.name ∧
    call.parameter.isSome = filter.argument.isSome ∧
    ∀ text ∈ filter.argument, (scene.resolve text false).value? = call.parameter) written calls

theorem Variable.areDeclared_readFilters {scene : Scene} {written : List Markup.FilterText}
    {calls : List FilterCall} (h : (readFilters scene written).value? = some calls) :
    FilterCall.AreDeclared scene written calls := by
  induction written generalizing calls with
  | nil =>
    obtain rfl := Diagnosed.value?_pure.1 h
    exact .nil
  | cons filter written ih =>
    have happends (parameter : Option Expr) : Diagnosed.Appends (do
        let more ← readFilters scene written
        pure (⟨filter.name, parameter⟩ :: more)) :=
      (appends_readFilters scene written).bind fun _ => Diagnosed.appends_pure _
    obtain ⟨parameter, hparameter, h⟩ := (Diagnosed.value?_bind happends).1 h
    obtain ⟨more, hmore, h⟩ := (Diagnosed.value?_bind fun _ => Diagnosed.appends_pure _).1 h
    obtain rfl := Diagnosed.value?_pure.1 h
    refine .cons ⟨rfl, ?_⟩ (ih hmore)
    cases hargument : filter.argument with
    | none =>
      rw [hargument] at hparameter
      obtain rfl := Diagnosed.value?_pure.1 hparameter
      exact ⟨rfl, nofun⟩
    | some text =>
      rw [hargument] at hparameter
      obtain ⟨expr, hexpr, hpure⟩ :=
        (Diagnosed.value?_bind fun _ => Diagnosed.appends_pure _).1 hparameter
      obtain rfl := Diagnosed.value?_pure.1 hpure
      refine ⟨rfl, fun text' htext => ?_⟩
      obtain rfl := Option.some.inj htext
      exact hexpr

/-! ## Composing -/

/-- How tags and values are written whose filters are standard ones. -/
structure Dispatch.ComposesFilters (dispatch : Dispatch σ) : Prop where
  /-- Parameters are evaluated from left to right, each by its own chain and once, and then the handler
  is called, a slot standing for each parameter that has filters. -/
  tag : ∀ (tag : Tag) (handler : TagHandler σ) (run : Run σ), dispatch.tag? tag.name = some handler →
    (∀ param ∈ tag.params, param.UsesStandard ∧ param.IsComplete) →
    tag.write dispatch run =
      handler { tag with params := Tag.withSlots run.session.slots tag.params }
        ((run.emit (Tag.fillingCode run.session.slots tag.params)).takeSlots
          (Tag.filtered tag.params))
  /-- A value is shown as its chain makes it, and no slot is taken. -/
  value : ∀ (v : Variable) (run : Run σ), v.UsesStandard → v.IsComplete →
    v.write dispatch run = .ok ⟨⟩ (run.emit v.showingCode)
  /-- Where a filter lacks an argument that it needs, no handler of a tag is called. -/
  refused : ∀ (tag : Tag) (run run' : Run σ) (call : TagHandler σ × Tag),
    (∀ param ∈ tag.params, param.UsesStandard) → tag.prepare dispatch run = .ok call run' →
    ∀ param ∈ tag.params, param.IsComplete
  /-- Whatever the filters are, each is told its place in the chain, counted from one. -/
  position : ∀ v : Variable, v.prepare dispatch = do
    Action.write (chainOpen v.expr)
    (v.filters.zipIdx 1).forM fun (call, place) => dispatch.applyFilter call place
    Action.write chainClose

/-- What becomes of slots and of what is shown where code is run that chains of filters leave. -/
structure Code.Runtime.ComposesFilters {V : Type} (runtime : Runtime V) : Prop where
  /-- A slot holds in the end what the chain of its own parameter makes in the store that the
  parameters before it left. -/
  slot : ∀ (store : Store V) (slots : Nat) (before after : List Variable) (param : Variable),
    (∀ v ∈ before ++ param :: after, v.UsesStandard ∧ v.IsComplete) →
    param.hasFilters = true →
    (runtime.run store (Tag.fillingCode slots (before ++ param :: after))).slots
        (slots + Tag.filtered before) =
      runtime.chain (runtime.run store (Tag.fillingCode slots before)) param.expr param.filters
  /-- The handler sees that slot, or the parameter itself if it has no filters. -/
  seen : ∀ (slots : Nat) (before after : List Variable) (param : Variable),
    (Tag.withSlots slots (before ++ param :: after))[before.length]? =
      some (if param.hasFilters then .ofSlot (slots + Tag.filtered before) else param)
  other : ∀ (store : Store V) (slots : Nat) (params : List Variable),
    (∀ param ∈ params, param.UsesStandard ∧ param.IsComplete) →
    (∀ slot, slot < slots ∨ slots + Tag.filtered params ≤ slot →
      (runtime.run store (Tag.fillingCode slots params)).slots slot = store.slots slot) ∧
    (runtime.run store (Tag.fillingCode slots params)).shown = store.shown
  shown : ∀ (store : Store V) (v : Variable), v.UsesStandard → v.IsComplete →
    (runtime.run store v.showingCode).shown =
        store.shown ++ [runtime.chain store v.expr v.filters] ∧
      (runtime.run store v.showingCode).slots = store.slots

/-- No two parameters of tags that are handled one after the other are given the same slot, nor slots
of one name. -/
def Dispatch.KeepsSlotsApart (dispatch : Dispatch σ) : Prop :=
  ∀ (m m' next : Moment σ) (tag tag' called called' : Tag) (run run' : Run σ),
    m.CallsFor dispatch tag called run → m'.CallsFor dispatch tag' called' run' →
    Moment.Leads dispatch m next → Moment.Reached dispatch next m' →
    (∀ param ∈ tag.params ++ tag'.params, param.UsesStandard) →
    called.params = Tag.withSlots m.session.slots tag.params ∧
      called'.params = Tag.withSlots m'.session.slots tag'.params ∧
      ((m.slotsFor tag ++ m'.slotsFor tag').map Expr.slot).Nodup

namespace Library

variable {library : Library σ}

theorem keepsSlotsApart (hfilters : library.KeepsFilters) (hcounts : library.CountsUp) (depth : Nat) :
    (library.dispatch (depth + 1)).KeepsSlotsApart := by
  intro m m' next tag tag' called called' run run' hcalls hcalls' hleads hreached hstandard
  have hkeeps := keepsFilters_dispatch hfilters depth
  obtain ⟨hparams, hparams'⟩ := List.forall_mem_append.1 hstandard
  obtain ⟨rfl, hafter⟩ := hcalls.params_eq hkeeps hparams
  obtain ⟨rfl, -⟩ := hcalls'.params_eq hkeeps hparams'
  refine ⟨rfl, rfl, List.Nodup.map Expr.slot_injective
    (List.nodup_append.2 ⟨List.nodup_range', List.nodup_range', ?_⟩)⟩
  -- the slots of the second call begin where the counter stood after the first
  have hnext : run.session.slots ≤ next.session.slots :=
    Moment.slots_le_of_leads hcounts (Moment.calls_iff_exists_callsFor.2 ⟨_, hcalls⟩) hleads
  have hlater := hnext.trans (Moment.slots_le_of_reached hcounts hreached)
  intro slot hslot slot' hslot' heq
  have hlt := (List.mem_range'_1.1 hslot).2
  have hge := (List.mem_range'_1.1 hslot').1
  omega

/-- **Chains of filters compose**: with the standard filters, and handlers that take no slot back, what
is emitted for a tag leaves in the slot of each parameter that has filters what its own chain makes of
it, what is emitted for a value shows what its chain makes of it, the chains are those that are declared,
without `safe`, and no slot is handed out twice in a session. -/
theorem composesFilters (hfilters : library.KeepsFilters) (hcounts : library.CountsUp) (depth : Nat) :
    (library.dispatch (depth + 1)).ComposesFilters ∧
    (∀ (V : Type) (runtime : Runtime V), runtime.ComposesFilters) ∧
    (∀ (scene : Scene) (raw : String) (escape : Bool) (before after : List Warning) (v : Variable),
      Variable.read scene raw escape before = .ok v after →
      FilterCall.AreDeclared scene ((Markup.splitFilters raw).2.filter (·.name != "safe"))
        v.filters) ∧
    (library.dispatch (depth + 1)).KeepsSlotsApart := by
  have hkeeps := keepsFilters_dispatch hfilters depth
  refine ⟨⟨?_, ?_, ?_, ?_⟩, ?_, ?_, keepsSlotsApart hfilters hcounts depth⟩
  · intro tag handler run hhandler hparams
    rw [Tag.write, hhandler]
    exact bind_of_ok (Tag.fillSlots_emits hkeeps hparams)
  · exact fun v run hstandard hcomplete => Variable.write_emits hkeeps hstandard hcomplete
  · intro tag run run' call hstandard hprepare
    unfold Tag.prepare at hprepare
    cases hfound : (library.dispatch (depth + 1)).tag? tag.name with
    | none =>
      rw [hfound] at hprepare
      cases hprepare
    | some handler =>
      rw [hfound] at hprepare
      obtain ⟨params, _, hfill, -⟩ := bind_eq_ok.1 hprepare
      exact Tag.isComplete_of_fillSlots hkeeps hstandard hfill
  · intro v
    rw [Variable.prepare, Variable.applyFilters_eq]
  · intro V runtime
    exact ⟨fun store slots before after param hparams =>
        runtime.slots_run_fillingCode hparams slots store rfl,
      Tag.getElem?_withSlots,
      fun store slots params hparams => runtime.run_fillingCode hparams slots store,
      fun store v hstandard hcomplete => runtime.run_showingCode hstandard hcomplete store⟩
  · intro scene raw escape before after v hread
    obtain ⟨_, _, hfilters, -⟩ := Variable.read_ok hread
    exact Variable.areDeclared_readFilters hfilters

/-- The slot of a parameter with three filters, of which one is `safe`, next to one without. -/
theorem composesFilters_shortened :
    (Library.standard : Library Unit).KeepsFilters ∧ (Library.standard : Library Unit).CountsUp ∧
    ∃ shortened after, Variable.parameter .ofPage "name|upper|safe|truncate:5" [] = .ok shortened after ∧
      FilterCall.AreDeclared .ofPage [⟨"upper", none⟩, ⟨"truncate", some "5"⟩] shortened.filters ∧
      (Runtime.traced.run ⟨"", fun _ => "", []⟩ (Tag.fillingCode 3 [.ofSlot 1, shortened])).slots 3 =
        "truncate(upper(" ++ (Expr.var "name").render ++ "), 5)" := by
  have hcompose := composesFilters (keepsFilters_standard (σ := Unit)) countsUp_standard 0
  have hread : (Variable.parameter .ofPage "name|upper|safe|truncate:5").value? =
      some ⟨"name|upper|safe|truncate:5", "name", .var "name",
        [⟨"upper", none⟩, ⟨"truncate", some (.numeral "5")⟩], false⟩ := by decide +kernel
  obtain ⟨after, hok⟩ := Diagnosed.value?_eq_some.1 hread
  have hwritten : (Markup.splitFilters "name|upper|safe|truncate:5").2.filter (·.name != "safe") =
      [⟨"upper", none⟩, ⟨"truncate", some "5"⟩] := by decide +kernel
  refine ⟨keepsFilters_standard, countsUp_standard, _, after, hok, ?_, ?_⟩
  · rw [← hwritten]
    exact hcompose.2.2.1 _ _ _ _ _ _ hok
  · exact ((hcompose.2.1 _ Runtime.traced).slot ⟨"", fun _ => "", []⟩ 3 [.ofSlot 1] [] _
      (by decide +kernel) rfl).trans (by decide +kernel)

end Library

end TemplateCompiler
