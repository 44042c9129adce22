import TemplateCompiler.Proofs.Transcript.Slots

/-!
# Chains of filters as straight-line code

What chains of filters leave in an artifact is straight-line code over one variable, on which every
chain works, and numbered slots, in which parameters are kept. It is run here in a store of abstract
values, a filter being any function of the variable and of its argument. No chain spoils what an
earlier one has kept (`Runtime.slots_run_fillingCode`).
-/
namespace TemplateCompiler

open Code

/-! ## Instructions -/

/-- One instruction of the code that chains of filters leave. -/
inductive Code.Instruction where
  /-- Opens a segment and puts a value into the variable of the filters. -/
  | load (value : Expr)
  | filter (filtering : Filtering)
  /-- Closes the segment. -/
  | close
  /-- Keeps what the variable holds in a parameter slot. -/
  | keep (slot : Nat)
  | echo (value : Expr)
  deriving DecidableEq, Repr

namespace Code

/-- The text of an instruction. -/
def Instruction.render : Instruction → String
  | load value => chainOpen value
  | filter filtering => filtering.render
  | close => chainClose
  | keep slot => (Statement.assign (.slot slot) .filterSlot).render
  | echo value => (Statement.echo value).render

/-- The name under which a filter is declared. -/
def Filtering.name : Filtering → String
  | upper => "upper"
  | lower => "lower"
  | capitalizeFirst => "capfirst"
  | title => "title"
  | trim => "trim"
  | length => "length"
  | fallback _ => "default"
  | join _ => "join"
  | first => "first"
  | last => "last"
  | truncate _ => "truncate"
  | date _ => "date"
  | json => "json"
  | urlEncode => "urlencode"
  | escape => "escape"
  | add _ => "add"

/-- The argument that a filter works with. -/
def Filtering.argument? : Filtering → Option Expr
  | fallback value => some value
  | join separator => some separator
  | truncate limit => some limit
  | date format => some format
  | add amount => some amount
  | _ => none

/-- What the code works on: the variable of the filters, the parameter slots, and what has been shown
so far. -/
structure Store (V : Type) where
  filtered : V
  slots : Nat → V
  shown : List V

/-- What terms denote in a store, and what filters make of values. All that is known of terms is that
the variable and the slots are read from the store. -/
structure Runtime (V : Type) where
  eval : Store V → Expr → V
  apply : String → V → Option V → V
  eval_filterSlot : ∀ store, eval store .filterSlot = store.filtered
  eval_slot : ∀ store slot, eval store (.slot slot) = store.slots slot

/-! ### Terms that stand for slots -/

/-- The slot that a term stands for, if it stands for one. -/
def Expr.slot? : Expr → Option Nat
  | .member .variables name =>
    let n := Nat.ofDigitChars 10 (name.toList.drop 5) 0
    if name = slotName n then some n else none
  | _ => none

theorem Expr.slot?_slot (n : Nat) : (Expr.slot n).slot? = some n := by
  have hdigits : Nat.ofDigitChars 10 ((slotName n).toList.drop 5) 0 = n := by
    rw [toList_slotName]
    exact Nat.ofDigitChars_ten_toDigits
  show (if slotName n = slotName (Nat.ofDigitChars 10 ((slotName n).toList.drop 5) 0) then _ else _) = _
  rw [hdigits, if_pos rfl]

/-- **No two slots have one name.** -/
theorem Expr.slot_injective : Function.Injective Expr.slot := by
  intro n n' heq
  have hslots := congrArg Expr.slot? heq
  rw [slot?_slot, slot?_slot] at hslots
  exact Option.some.inj hslots

namespace Runtime

variable {V : Type}

/-- The runtime whose values are the texts of how they have been worked out. -/
def traced : Runtime String where
  eval store value :=
    if value = .filterSlot then store.filtered
    else value.slot?.elim value.render store.slots
  apply name value argument := name ++ "(" ++ value ++ (argument.elim "" (", " ++ ·)) ++ ")"
  eval_filterSlot _ := if_pos rfl
  eval_slot store slot := by
    have hne : Expr.slot slot ≠ .filterSlot := nofun
    rw [if_neg hne, Expr.slot?_slot]
    rfl

/-- Carries an instruction out. -/
def step (runtime : Runtime V) (store : Store V) : Instruction → Store V
  | .load value => { store with filtered := runtime.eval store value }
  | .filter filtering => { store with
      filtered := runtime.apply filtering.name store.filtered
        (filtering.argument?.map (runtime.eval store)) }
  | .close => store
  | .keep slot => { store with slots := Function.update store.slots slot store.filtered }
  | .echo value => { store with shown := store.shown ++ [runtime.eval store value] }

/-- Carries instructions out, one after another. -/
def run (runtime : Runtime V) (store : Store V) (code : List Instruction) : Store V :=
  code.foldl runtime.step store

theorem run_append (runtime : Runtime V) (store : Store V) (code more : List Instruction) :
    runtime.run store (code ++ more) = runtime.run (runtime.run store code) more :=
  List.foldl_append

end Runtime

end Code

/-! ## Declared chains -/

/-- The filters that cannot do without an argument. -/
def FilterCall.needing : List String :=
  ["default", "truncate", "date", "add"]

/-- The argument that a filter is declared with: some need one, `join` has one to fall back on, and
the others work without, whatever they are given. -/
def FilterCall.argument? (call : FilterCall) : Option Expr :=
  if call.name ∈ needing then call.parameter
  else if call.name = "join" then some (call.parameter.getD (.literal "''"))
  else none

namespace Code.Runtime

variable {V : Type} (runtime : Runtime V)

/-- What a declared filter makes of the variable. -/
def filter (store : Store V) (call : FilterCall) : Store V :=
  { store with
    filtered := runtime.apply call.name store.filtered (call.argument?.map (runtime.eval store)) }

/-- **The value of a chain**: the filters applied to the base in declared order, the base and every
argument having the value that they have in the store at that point. -/
def chain (store : Store V) (base : Expr) (calls : List FilterCall) : V :=
  (calls.foldl runtime.filter { store with filtered := runtime.eval store base }).filtered

end Code.Runtime

/-! ## Meanings and names -/

namespace Reader

/-- A meaning is that of the filter of this name: it is there if the argument is that is needed, and
what it gives has the name and the argument that are declared. -/
structure IsNamed (name : String) (meaning : FilterCall → Option Filtering) : Prop where
  isSome : ∀ call, (meaning call).isSome = true ↔
    (name ∈ FilterCall.needing → call.parameter.isSome = true)
  declared : ∀ call filtering, call.name = name → meaning call = some filtering →
    filtering.name = name ∧ filtering.argument? = call.argument?

section

variable {name : String}

theorem isNamed_plain {filtering : Filtering}
    (h : filtering.name = name ∧ filtering.argument? = none ∧ name ∉ FilterCall.needing ∧
      name ≠ "join") : IsNamed name (plain filtering) := by
  obtain ⟨hname, hno, hother, hjoin⟩ := h
  refine ⟨fun call => iff_of_true rfl fun hmem => absurd hmem hother, ?_⟩
  intro call given hcall hmeaning
  obtain rfl := Option.some.inj hmeaning
  rw [FilterCall.argument?, hcall, if_neg hother, if_neg hjoin]
  exact ⟨hname, hno⟩

theorem isNamed_withArgument {filtering : Expr → Filtering}
    (hname : ∀ value, (filtering value).name = name)
    (hargument : ∀ value, (filtering value).argument? = some value)
    (hmem : name ∈ FilterCall.needing) : IsNamed name (withArgument filtering) := by
  refine ⟨fun call => ?_, fun call given hcall hmeaning => ?_⟩
  · rw [withArgument, Option.isSome_map]
    exact ⟨fun h _ => h, fun h => h hmem⟩
  · obtain ⟨value, hvalue, rfl⟩ := Option.map_eq_some_iff.1 hmeaning
    rw [FilterCall.argument?, hcall, if_pos hmem, hargument, hvalue]
    exact ⟨hname value, rfl⟩

theorem isNamed_join :
    IsNamed "join" fun call => some (.join (call.parameter.getD (.literal "''"))) := by
  refine ⟨fun call => iff_of_true rfl fun hmem => absurd hmem (by decide), ?_⟩
  intro call given hcall hmeaning
  obtain rfl := Option.some.inj hmeaning
  rw [FilterCall.argument?, hcall]
  exact ⟨rfl, rfl⟩

end

/-- **Every standard filter** does what its name and its argument say. -/
theorem isNamed_filters : ∀ entry ∈ filters, IsNamed entry.1 entry.2 := by
  have given {name : String} {filtering : Expr → Filtering}
      (hname : ∀ value, (filtering value).name = name)
      (hargument : ∀ value, (filtering value).argument? = some value)
      (hmem : decide (name ∈ FilterCall.needing) = true) : IsNamed name (withArgument filtering) :=
    isNamed_withArgument hname hargument (of_decide_eq_true hmem)
  simp only [filters, List.forall_mem_cons]
  exact ⟨isNamed_plain (by decide), isNamed_plain (by decide), isNamed_plain (by decide),
    isNamed_plain (by decide), isNamed_plain (by decide), isNamed_plain (by decide),
    given (fun _ => rfl) (fun _ => rfl) rfl, isNamed_join, isNamed_plain (by decide),
    isNamed_plain (by decide), given (fun _ => rfl) (fun _ => rfl) rfl,
    given (fun _ => rfl) (fun _ => rfl) rfl, isNamed_plain (by decide), isNamed_plain (by decide),
    isNamed_plain (by decide), given (fun _ => rfl) (fun _ => rfl) rfl, nofun⟩

/-- **A chain of standard filters has a meaning** if each has the argument that it needs. -/
theorem exists_filterings_iff {calls : List FilterCall}
    (h : ∀ call ∈ calls, (filters.lookup call.name).isSome = true) :
    (∃ chain, filterings calls = some chain) ↔
      ∀ call ∈ calls, call.name ∈ FilterCall.needing → call.parameter.isSome = true := by
  induction calls with
  | nil => exact iff_of_true ⟨[], rfl⟩ nofun
  | cons call calls ih =>
    obtain ⟨hcall, hcalls⟩ := List.forall_mem_cons.1 h
    obtain ⟨meaning, hlookup⟩ := Option.isSome_iff_exists.1 hcall
    have hnamed := isNamed_filters _ (mem_of_lookup hlookup)
    rw [List.forall_mem_cons, ← hnamed.isSome call, ← ih hcalls, Option.isSome_iff_exists]
    constructor
    · rintro ⟨chain, hchain⟩
      rw [filterings] at hchain
      obtain ⟨found, hfound, hchain⟩ := Option.bind_eq_some_iff.1 hchain
      obtain rfl := Option.some.inj (hlookup.symm.trans hfound)
      obtain ⟨filtering, hmeaning, hchain⟩ := Option.bind_eq_some_iff.1 hchain
      obtain ⟨more, hmore, -⟩ := Option.bind_eq_some_iff.1 hchain
      exact ⟨⟨filtering, hmeaning⟩, more, hmore⟩
    · rintro ⟨⟨filtering, hmeaning⟩, more, hmore⟩
      refine ⟨filtering :: more, ?_⟩
      rw [filterings, hlookup, hmore]
      exact congrArg (Option.bind · fun filtering => some (filtering :: more)) hmeaning

end Reader

namespace Code.Runtime

variable {V : Type} (runtime : Runtime V) {calls : List FilterCall} {filterings : List Filtering}

/-- Filters do in the code what they are declared to do. -/
theorem run_filterings (h : Reader.filterings calls = some filterings) (store : Store V) :
    runtime.run store (filterings.map .filter) = calls.foldl runtime.filter store := by
  induction calls generalizing filterings store with
  | nil =>
    obtain rfl := Option.some.inj h
    rfl
  | cons call calls ih =>
    rw [Reader.filterings] at h
    obtain ⟨meaning, hlookup, h⟩ := Option.bind_eq_some_iff.1 h
    obtain ⟨filtering, hmeaning, h⟩ := Option.bind_eq_some_iff.1 h
    obtain ⟨more, hmore, h⟩ := Option.bind_eq_some_iff.1 h
    obtain rfl := Option.some.inj h
    obtain ⟨hname, hargument⟩ :=
      (Reader.isNamed_filters _ (mem_of_lookup hlookup)).declared call filtering rfl hmeaning
    rw [List.foldl_cons, ← ih hmore]
    show runtime.run (runtime.step store (.filter filtering)) (more.map .filter) = _
    rw [step, hname, hargument]
    rfl

/-- Filters change nothing but the variable. -/
theorem foldl_filter (calls : List FilterCall) (store : Store V) :
    calls.foldl runtime.filter store =
      { store with filtered := (calls.foldl runtime.filter store).filtered } := by
  induction calls generalizing store with
  | nil => rfl
  | cons call calls ih => exact ih (runtime.filter store call)

end Code.Runtime

/-! ## Chains -/

/-- What the filters of a chain do, if each has what it needs. -/
def Variable.filterings (v : Variable) : List Filtering :=
  (Reader.filterings v.filters).getD []

/-- Every filter of the chain is a standard one. -/
def Variable.UsesStandard (v : Variable) : Prop :=
  ∀ call ∈ v.filters, (Reader.filters.lookup call.name).isSome = true

/-- Every filter of the chain that needs an argument has one. -/
def Variable.IsComplete (v : Variable) : Prop :=
  ∀ call ∈ v.filters, call.name ∈ FilterCall.needing → call.parameter.isSome = true

instance (v : Variable) : Decidable v.UsesStandard :=
  inferInstanceAs (Decidable (∀ call ∈ v.filters, (Reader.filters.lookup call.name).isSome = true))

instance (v : Variable) : Decidable v.IsComplete :=
  inferInstanceAs (Decidable (∀ call ∈ v.filters,
    call.name ∈ FilterCall.needing → call.parameter.isSome = true))

/-- The code that puts a value through its filters. -/
def Variable.chainCode (v : Variable) : List Instruction :=
  .load v.expr :: v.filterings.map .filter ++ [.close]

/-- The code that shows a value, put through its filters if there are any. -/
def Variable.showingCode (v : Variable) : List Instruction :=
  if v.hasFilters then v.chainCode ++ [.echo .filterSlot] else [.echo v.expr]

namespace Variable

variable {v : Variable}

/-- **A chain of standard filters has a meaning** if each has the argument that it needs. -/
theorem exists_filterings_iff (h : v.UsesStandard) :
    (∃ chain, Reader.filterings v.filters = some chain) ↔ v.IsComplete :=
  Reader.exists_filterings_iff h

theorem filterings_eq (h : v.UsesStandard) (hcomplete : v.IsComplete) :
    Reader.filterings v.filters = some v.filterings := by
  obtain ⟨chain, hchain⟩ := (exists_filterings_iff h).2 hcomplete
  rw [filterings, hchain]
  rfl

/-- A value without filters has all that they need. -/
theorem isComplete_of_plain (hplain : v.hasFilters = false) : v.IsComplete := by
  intro call hcall
  have hempty : v.filters.isEmpty = true := by simpa [hasFilters] using hplain
  rw [List.isEmpty_iff.1 hempty] at hcall
  cases hcall

end Variable

namespace Code.Runtime

variable {V : Type} (runtime : Runtime V) {v : Variable}

/-- **A chain** leaves its value in the variable, and nothing else. -/
theorem run_chainCode (h : v.UsesStandard) (hcomplete : v.IsComplete) (store : Store V) :
    runtime.run store v.chainCode =
      { store with filtered := runtime.chain store v.expr v.filters } := by
  unfold Variable.chainCode
  rw [run_append]
  show runtime.run { store with filtered := runtime.eval store v.expr } (v.filterings.map .filter) = _
  rw [runtime.run_filterings (v.filterings_eq h hcomplete), foldl_filter]
  rfl

/-- **A value is shown** as its chain makes it. -/
theorem run_showingCode (h : v.UsesStandard) (hcomplete : v.IsComplete) (store : Store V) :
    (runtime.run store v.showingCode).shown =
        store.shown ++ [runtime.chain store v.expr v.filters] ∧
      (runtime.run store v.showingCode).slots = store.slots := by
  unfold Variable.showingCode
  by_cases hfilters : v.hasFilters = true
  · rw [if_pos hfilters, run_append, runtime.run_chainCode h hcomplete]
    refine ⟨?_, rfl⟩
    show store.shown ++ [runtime.eval _ .filterSlot] = _
    rw [runtime.eval_filterSlot]
  · have hempty : v.filters = [] := by simpa [Variable.hasFilters] using hfilters
    rw [if_neg hfilters, hempty]
    exact ⟨rfl, rfl⟩

end Code.Runtime

/-! ## Parameters -/

namespace Tag

/-- How many of the parameters have filters. -/
def filtered (params : List Variable) : Nat :=
  params.countP (·.hasFilters)

/-- The parameters as the handler sees them: a slot stands for each that has filters, from the given
one on. -/
def withSlots (slots : Nat) : List Variable → List Variable
  | [] => []
  | param :: params =>
    if param.hasFilters then .ofSlot slots :: withSlots (slots + 1) params
    else param :: withSlots slots params

/-- The code that puts the parameters that have filters into their slots, from the given one on. -/
def fillingCode (slots : Nat) : List Variable → List Instruction
  | [] => []
  | param :: params =>
    if param.hasFilters then param.chainCode ++ .keep slots :: fillingCode (slots + 1) params
    else fillingCode slots params

variable {param : Variable} {params : List Variable}

theorem filtered_cons_of_pos (h : param.hasFilters = true) :
    filtered (param :: params) = filtered params + 1 :=
  List.countP_cons_of_pos h

theorem filtered_cons_of_neg (h : ¬ param.hasFilters = true) :
    filtered (param :: params) = filtered params :=
  List.countP_cons_of_neg h

theorem withSlots_append (slots : Nat) (before after : List Variable) :
    withSlots slots (before ++ after) =
      withSlots slots before ++ withSlots (slots + filtered before) after := by
  induction before generalizing slots with
  | nil => rfl
  | cons param before ih =>
    rw [List.cons_append, withSlots, withSlots]
    by_cases h : param.hasFilters = true
    · rw [if_pos h, if_pos h, ih, filtered_cons_of_pos h, Nat.add_right_comm, Nat.add_assoc]
      rfl
    · rw [if_neg h, if_neg h, ih, filtered_cons_of_neg h]
      rfl

theorem length_withSlots (slots : Nat) (params : List Variable) :
    (withSlots slots params).length = params.length := by
  induction params generalizing slots with
  | nil => rfl
  | cons param params ih =>
    rw [withSlots]
    split <;> exact congrArg (· + 1) (ih _)

/-- What the handler sees for a parameter: its slot, or the parameter itself. -/
theorem getElem?_withSlots (slots : Nat) (before after : List Variable) (param : Variable) :
    (withSlots slots (before ++ param :: after))[before.length]? =
      some (if param.hasFilters then .ofSlot (slots + filtered before) else param) := by
  rw [withSlots_append, List.getElem?_append_right (length_withSlots ..).le, length_withSlots,
    Nat.sub_self, withSlots]
  split <;> rfl

theorem fillingCode_append (slots : Nat) (before after : List Variable) :
    fillingCode slots (before ++ after) =
      fillingCode slots before ++ fillingCode (slots + filtered before) after := by
  induction before generalizing slots with
  | nil => rfl
  | cons param before ih =>
    rw [List.cons_append, fillingCode, fillingCode]
    by_cases h : param.hasFilters = true
    · rw [if_pos h, if_pos h, ih, filtered_cons_of_pos h, Nat.add_right_comm, Nat.add_assoc,
        List.append_assoc, List.cons_append]
    · rw [if_neg h, if_neg h, ih, filtered_cons_of_neg h]

end Tag

namespace Code.Runtime

open Tag

variable {V : Type} (runtime : Runtime V) {params : List Variable}

theorem run_fillingCode_cons {param : Variable} (hfilters : param.hasFilters = true)
    (h : param.UsesStandard) (hcomplete : param.IsComplete) (slots : Nat) (store : Store V) :
    runtime.run store (fillingCode slots (param :: params)) =
      runtime.run { store with
        filtered := runtime.chain store param.expr param.filters
        slots := Function.update store.slots slots (runtime.chain store param.expr param.filters) }
        (fillingCode (slots + 1) params) := by
  rw [fillingCode, if_pos hfilters, run_append, runtime.run_chainCode h hcomplete]
  rfl

variable (h : ∀ param ∈ params, param.UsesStandard ∧ param.IsComplete)
include h

/-- Whatever is filled, other slots keep what they hold, and nothing is shown. -/
theorem run_fillingCode (slots : Nat) (store : Store V) :
    (∀ slot, slot < slots ∨ slots + filtered params ≤ slot →
      (runtime.run store (fillingCode slots params)).slots slot = store.slots slot) ∧
    (runtime.run store (fillingCode slots params)).shown = store.shown := by
  induction params generalizing slots store with
  | nil => exact ⟨fun _ _ => rfl, rfl⟩
  | cons param params ih =>
    obtain ⟨hparam, hparams⟩ := List.forall_mem_cons.1 h
    by_cases hfilters : param.hasFilters = true
    · rw [runtime.run_fillingCode_cons hfilters hparam.1 hparam.2, filtered_cons_of_pos hfilters]
      obtain ⟨hslots, hshown⟩ := ih hparams (slots + 1) _
      refine ⟨fun slot hslot => ?_, hshown⟩
      have hne : slot ≠ slots := by omega
      rw [hslots slot (by omega)]
      exact Function.update_of_ne hne ..
    · rw [fillingCode, if_neg hfilters, filtered_cons_of_neg hfilters]
      exact ih hparams slots store

/-- **No chain spoils what an earlier one has kept.** Each parameter that has filters is found in its
slot in the end, its chain having been worked out in the store that the parameters before it left. -/
theorem slots_run_fillingCode (slots : Nat) (store : Store V) {before after : List Variable}
    {param : Variable} (hparams : params = before ++ param :: after)
    (hfilters : param.hasFilters = true) :
    (runtime.run store (fillingCode slots params)).slots (slots + filtered before) =
      runtime.chain (runtime.run store (fillingCode slots before)) param.expr param.filters := by
  subst hparams
  obtain ⟨-, hlater⟩ := List.forall_mem_append.1 h
  obtain ⟨hparam, hafter⟩ := List.forall_mem_cons.1 hlater
  rw [fillingCode_append, run_append,
    runtime.run_fillingCode_cons hfilters hparam.1 hparam.2,
    (runtime.run_fillingCode hafter _ _).1 _ (.inl (Nat.lt_succ_self _))]
  exact Function.update_self ..

end Code.Runtime

end TemplateCompiler
