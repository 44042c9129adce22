import TemplateCompiler.Proofs.Pipeline.Machine

/-!
# What tags and interpolations emit

Where the standard filters are what they are in the standard library, a value is written, and the
parameters of a tag are evaluated, by the instructions of their chains, each written once and in order
(`Variable.write_emits`, `Tag.fillSlots_emits`). It takes an argument for each filter that needs one,
and nothing else. Whatever the filters are, each is told its place in the chain
(`Variable.applyFilters_eq`).
-/
namespace TemplateCompiler

open Code

variable {σ : Type} {dispatch : Dispatch σ} {run run' : Run σ}

/-! ## Emitting -/

namespace Run

/-- The run once instructions have been written, one after another. -/
def emit (run : Run σ) (code : List Instruction) : Run σ :=
  { run with
    session := code.foldl (fun session instruction =>
      session.write (Utf8.encode instruction.render)) run.session }

/-- The run once so many more slots have been handed out. -/
def takeSlots (run : Run σ) (n : Nat) : Run σ :=
  { run with session := { run.session with slots := run.session.slots + n } }

theorem write_render (run : Run σ) (instruction : Instruction) :
    Action.write instruction.render run = .ok ⟨⟩ (run.emit [instruction]) :=
  rfl

theorem emit_append (run : Run σ) (code more : List Instruction) :
    run.emit (code ++ more) = (run.emit code).emit more := by
  unfold emit
  rw [List.foldl_append]

theorem emit_takeSlots (run : Run σ) (n : Nat) (code : List Instruction) :
    (run.takeSlots n).emit code = (run.emit code).takeSlots n := by
  induction code generalizing run with
  | nil => rfl
  | cons instruction code ih => exact ih (run.emit [instruction])

theorem takeSlots_takeSlots (run : Run σ) (n more : Nat) :
    (run.takeSlots n).takeSlots more = run.takeSlots (n + more) := by
  unfold takeSlots
  rw [Nat.add_assoc]

theorem slots_emit (run : Run σ) (code : List Instruction) :
    (run.emit code).session.slots = run.session.slots := by
  induction code generalizing run with
  | nil => rfl
  | cons instruction code ih => exact ih (run.emit [instruction])

end Run

/-! ## Positions -/

/-- Runs the handler of a filter. -/
def Dispatch.applyFilter (dispatch : Dispatch σ) (call : FilterCall) (position : Nat) :
    Action σ PUnit :=
  match dispatch.filter? call.name with
  | none => do throw (.unknownFilter call.name (← Action.location))
  | some handler => handler call position

/-- **Positions**: the filters are run in order, each with its place in the chain. -/
theorem Variable.applyFilters_eq (dispatch : Dispatch σ) (position : Nat) (calls : List FilterCall) :
    applyFilters dispatch position calls =
      (calls.zipIdx position).forM fun (call, place) => dispatch.applyFilter call place := by
  induction calls generalizing position with
  | nil => rfl
  | cons call calls ih =>
    rw [applyFilters, ih, List.zipIdx_cons]
    show _ = (dispatch.applyFilter call position >>= fun _ =>
      (calls.zipIdx (position + 1)).forM fun (call, place) => dispatch.applyFilter call place)
    unfold Dispatch.applyFilter
    cases dispatch.filter? call.name with
    | none => exact (bind_assoc ..).symm
    | some handler => rfl

/-! ## Standard filters -/

/-- What the handler of a filter is that has the given meaning. -/
def Reader.filterAction (meaning : FilterCall → Option Filtering) (call : FilterCall) :
    Action σ PUnit :=
  match meaning call with
  | some filtering => Action.write filtering.render
  | none => Action.misuse ("filter " ++ call.name ++ " requires a parameter")

/-- The standard filters are found, and do what they mean. -/
def Dispatch.KeepsFilters (dispatch : Dispatch σ) : Prop :=
  ∀ name meaning, Reader.filters.lookup name = some meaning →
    ∃ handler, dispatch.filter? name = some handler ∧
      ∀ call position, handler call position = Reader.filterAction meaning call

/-- The standard filters are those of the standard library. -/
def Library.KeepsFilters (library : Library σ) : Prop :=
  ∀ name handler, Standard.filters.lookup name = some handler →
    library.filters.lookup name = some handler

theorem aligned_meanings :
    Aligned (fun meaning (handler : Dispatch σ → FilterHandler σ) =>
      ∀ dispatch call position, handler dispatch call position = Reader.filterAction meaning call)
      Reader.filters Standard.filters := by
  have plain {name : String} (filtering : Filtering) : name = name ∧
      ∀ (dispatch : Dispatch σ) call position,
        Standard.plain filtering dispatch call position =
          Reader.filterAction (Reader.plain filtering) call :=
    ⟨rfl, fun _ _ _ => rfl⟩
  have given {name : String} (filtering : Expr → Filtering) : name = name ∧
      ∀ (dispatch : Dispatch σ) call position,
        Standard.withArgument filtering dispatch call position =
          Reader.filterAction (Reader.withArgument filtering) call := by
    refine ⟨rfl, fun dispatch call position => ?_⟩
    unfold Standard.withArgument Standard.argument Reader.filterAction Reader.withArgument
    cases call.parameter <;> rfl
  exact .cons (plain _) <| .cons (plain _) <| .cons (plain _) <| .cons (plain _) <|
    .cons (plain _) <| .cons (plain _) <| .cons (given _) <| .cons ⟨rfl, fun _ _ _ => rfl⟩ <|
    .cons (plain _) <| .cons (plain _) <| .cons (given _) <| .cons (given _) <|
    .cons (plain _) <| .cons (plain _) <| .cons (plain _) <| .cons (given _) .nil

theorem Library.keepsFilters_dispatch {library : Library σ} (h : library.KeepsFilters)
    (depth : Nat) : (library.dispatch (depth + 1)).KeepsFilters := by
  intro name meaning hmeaning
  obtain ⟨handler, hhandler, hdoes⟩ := aligned_meanings.lookup hmeaning
  refine ⟨handler (library.dispatch depth), ?_, fun call position => hdoes _ call position⟩
  show (library.filters.lookup name).map _ = _
  rw [h name handler hhandler]
  rfl

namespace Variable

variable {v : Variable} {calls : List FilterCall} {filterings : List Filtering} {position : Nat}

theorem applyFilters_emits (h : dispatch.KeepsFilters)
    (hfilterings : Reader.filterings calls = some filterings) :
    applyFilters dispatch position calls run = .ok ⟨⟩ (run.emit (filterings.map .filter)) := by
  induction calls generalizing filterings position run with
  | nil =>
    obtain rfl := Option.some.inj hfilterings
    rfl
  | cons call calls ih =>
    rw [Reader.filterings] at hfilterings
    obtain ⟨meaning, hlookup, hfilterings⟩ := Option.bind_eq_some_iff.1 hfilterings
    obtain ⟨filtering, hmeaning, hfilterings⟩ := Option.bind_eq_some_iff.1 hfilterings
    obtain ⟨more, hmore, hfilterings⟩ := Option.bind_eq_some_iff.1 hfilterings
    obtain rfl := Option.some.inj hfilterings
    obtain ⟨handler, hhandler, hdoes⟩ := h _ _ hlookup
    have hfirst : handler call position run = .ok ⟨⟩ (run.emit [.filter filtering]) := by
      rw [hdoes, Reader.filterAction, hmeaning]
      rfl
    rw [applyFilters, hhandler]
    exact (bind_of_ok hfirst).trans (ih hmore)

/-- Standard filters that have run have had what they need. -/
theorem exists_filterings_of_applyFilters (h : dispatch.KeepsFilters)
    (hstandard : ∀ call ∈ calls, (Reader.filters.lookup call.name).isSome = true) {u : PUnit}
    (hok : applyFilters dispatch position calls run = .ok u run') :
    ∃ filterings, Reader.filterings calls = some filterings := by
  induction calls generalizing position run with
  | nil => exact ⟨[], rfl⟩
  | cons call calls ih =>
    obtain ⟨hcall, hcalls⟩ := List.forall_mem_cons.1 hstandard
    obtain ⟨meaning, hlookup⟩ := Option.isSome_iff_exists.1 hcall
    obtain ⟨handler, hhandler, hdoes⟩ := h _ _ hlookup
    rw [applyFilters, hhandler] at hok
    obtain ⟨⟨⟩, mid, hfirst, hrest⟩ := bind_eq_ok.1 hok
    obtain ⟨more, hmore⟩ := ih hcalls hrest
    rw [hdoes, Reader.filterAction] at hfirst
    cases hmeaning : meaning call with
    | none =>
      rw [hmeaning] at hfirst
      exact absurd hfirst Action.misuse_ne_ok
    | some filtering =>
      refine ⟨filtering :: more, ?_⟩
      rw [Reader.filterings, hlookup, hmore]
      exact congrArg (Option.bind · fun filtering => some (filtering :: more)) hmeaning

theorem prepare_emits (h : dispatch.KeepsFilters) (hstandard : v.UsesStandard)
    (hcomplete : v.IsComplete) :
    v.prepare dispatch run = .ok ⟨⟩ (run.emit v.chainCode) := by
  have hopen : Action.write (chainOpen v.expr) run = .ok ⟨⟩ (run.emit [.load v.expr]) :=
    run.write_render (.load v.expr)
  have hfilters : applyFilters dispatch 1 v.filters (run.emit [.load v.expr]) = .ok ⟨⟩ _ :=
    applyFilters_emits h (filterings_eq hstandard hcomplete)
  have hclose (run : Run σ) : Action.write chainClose run = .ok ⟨⟩ (run.emit [.close]) :=
    run.write_render .close
  rw [prepare, bind_of_ok hopen, bind_of_ok hfilters, hclose, ← Run.emit_append,
    ← Run.emit_append]
  rfl

/-- **A value is written** by the instructions of its chain. -/
theorem write_emits (h : dispatch.KeepsFilters) (hstandard : v.UsesStandard)
    (hcomplete : v.IsComplete) :
    v.write dispatch run = .ok ⟨⟩ (run.emit v.showingCode) := by
  have hecho (run : Run σ) (value : Expr) :
      Action.emit (.echo value) run = .ok ⟨⟩ (run.emit [.echo value]) :=
    run.write_render (.echo value)
  unfold write showingCode
  by_cases hfilters : v.hasFilters = true
  · rw [if_pos hfilters, if_pos hfilters, bind_of_ok (prepare_emits h hstandard hcomplete), hecho,
      Run.emit_append]
  · rw [if_neg hfilters, if_neg hfilters, hecho]

/-- A value that has been prepared has had what its filters need. -/
theorem isComplete_of_prepare (h : dispatch.KeepsFilters) (hstandard : v.UsesStandard) {u : PUnit}
    (hok : v.prepare dispatch run = .ok u run') : v.IsComplete := by
  obtain ⟨⟨⟩, _, -, hok⟩ := bind_eq_ok.1 hok
  obtain ⟨⟨⟩, _, hfilters, -⟩ := bind_eq_ok.1 hok
  exact (exists_filterings_iff hstandard).1 (exists_filterings_of_applyFilters h hstandard hfilters)

end Variable

/-! ## Parameters -/

namespace Tag

variable {param : Variable} {params filled : List Variable}

theorem fillSlot_emits (h : dispatch.KeepsFilters) (hstandard : param.UsesStandard)
    (hcomplete : param.IsComplete) :
    fillSlot dispatch param run = .ok (.ofSlot run.session.slots)
      ((run.emit (param.chainCode ++ [.keep run.session.slots])).takeSlots 1) := by
  have hnext (run : Run σ) :
      Action.nextSlot run = .ok run.session.slots (run.takeSlots 1) := rfl
  have hkeep (run : Run σ) (slot : Nat) : Action.emit (.assign (.slot slot) .filterSlot) run =
      .ok ⟨⟩ (run.emit [.keep slot]) := run.write_render (.keep slot)
  have hread (run : Run σ) (slot : Nat) :
      Action.reading (fun scene => Variable.parameter scene (slotName slot)) run =
        .ok (.ofSlot slot) run := by
    simp only [Variable.parameter_slotName]
    rfl
  rw [fillSlot, bind_of_ok (Variable.prepare_emits h hstandard hcomplete), bind_of_ok (hnext _),
    bind_of_ok (hkeep _ _), hread, Run.emit_takeSlots, ← Run.emit_append, Run.slots_emit]

/-- **Parameters are evaluated from left to right**, each of those that have filters by its own code,
once, and the slots are handed out in order. -/
theorem fillSlots_emits (h : dispatch.KeepsFilters)
    (hparams : ∀ param ∈ params, param.UsesStandard ∧ param.IsComplete) :
    fillSlots dispatch params run = .ok (withSlots run.session.slots params)
      ((run.emit (fillingCode run.session.slots params)).takeSlots (filtered params)) := by
  induction params generalizing run with
  | nil => rfl
  | cons param params ih =>
    obtain ⟨hparam, hrest⟩ := List.forall_mem_cons.1 hparams
    have hcons {mid last : Run σ} {filled : List Variable} (first : Variable)
        (hmore : fillSlots dispatch params mid = .ok filled last) :
        (fillSlots dispatch params >>= fun more => pure (first :: more)) mid =
          .ok (first :: filled) last := (bind_of_ok hmore).trans rfl
    rw [fillSlots, withSlots, fillingCode]
    by_cases hfilters : param.hasFilters = true
    · have hslots (code : List Instruction) :
          ((run.emit code).takeSlots 1).session.slots = run.session.slots + 1 :=
        congrArg (· + 1) (run.slots_emit code)
      rw [if_pos hfilters, if_pos hfilters, if_pos hfilters, filtered_cons_of_pos hfilters,
        bind_of_ok (fillSlot_emits h hparam.1 hparam.2)]
      refine (hcons _ (ih hrest)).trans ?_
      rw [hslots, Run.emit_takeSlots, Run.takeSlots_takeSlots, ← Run.emit_append, List.append_assoc,
        List.singleton_append, Nat.add_comm 1]
    · rw [if_neg hfilters, if_neg hfilters, if_neg hfilters, filtered_cons_of_neg hfilters,
        pure_bind]
      exact hcons param (ih hrest)

/-- Parameters that have been evaluated have had what their filters need. -/
theorem isComplete_of_fillSlots (h : dispatch.KeepsFilters)
    (hstandard : ∀ param ∈ params, param.UsesStandard)
    (hok : fillSlots dispatch params run = .ok filled run') :
    ∀ param ∈ params, param.IsComplete := by
  induction params generalizing run run' filled with
  | nil => exact nofun
  | cons param params ih =>
    obtain ⟨hparam, hparams⟩ := List.forall_mem_cons.1 hstandard
    rw [fillSlots] at hok
    by_cases hfilters : param.hasFilters = true
    · rw [if_pos hfilters] at hok
      obtain ⟨slot, _, hslot, hok⟩ := bind_eq_ok.1 hok
      obtain ⟨more, _, hmore, -⟩ := bind_eq_ok.1 hok
      obtain ⟨⟨⟩, _, hprepare, -⟩ := bind_eq_ok.1 hslot
      exact List.forall_mem_cons.2
        ⟨Variable.isComplete_of_prepare h hparam hprepare, ih hparams hmore⟩
    · rw [if_neg hfilters, pure_bind] at hok
      obtain ⟨more, _, hmore, -⟩ := bind_eq_ok.1 hok
      exact List.forall_mem_cons.2
        ⟨Variable.isComplete_of_plain (Bool.eq_false_iff.2 hfilters), ih hparams hmore⟩

end Tag

end TemplateCompiler
