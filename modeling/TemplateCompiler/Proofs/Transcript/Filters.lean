import TemplateCompiler.Proofs.Transcript.Mirrors
import TemplateCompiler.Standard

/-!
# Filters and parameters

The standard filters write what their meanings say, so a chain of filters on a value, and the
parameters of a tag that have filters, leave the segments that a reader knows of.
-/
namespace TemplateCompiler

variable {σ : Type} {job : Job} {before : List Warning} {run run' : Run σ} {reader : Reader}
  {desk : Desk UInt8}

/-- Tables of which one has, for each name, what is related to what the other has for it. -/
def Aligned {α β : Type} (R : α → β → Prop) : List (String × α) → List (String × β) → Prop :=
  List.Forall₂ fun a b => a.1 = b.1 ∧ R a.2 b.2

theorem Aligned.lookup {α β : Type} {R : α → β → Prop} {as : List (String × α)}
    {bs : List (String × β)} (h : Aligned R as bs) {name : String} {a : α}
    (ha : as.lookup name = some a) : ∃ b, bs.lookup name = some b ∧ R a b := by
  induction h with
  | nil => cases ha
  | @cons x y as bs hhead htail ih =>
    rw [List.lookup_cons] at ha ⊢
    rw [← hhead.1]
    split at ha
    · obtain rfl := Option.some.inj ha
      exact ⟨y.2, rfl, hhead.2⟩
    · exact ih ha

/-! ## One filter -/

/-- The handler of a filter writes the filtering that the filter means, and nothing else. -/
def Applies (handler : FilterHandler σ) (meaning : FilterCall → Option Code.Filtering) : Prop :=
  ∀ call position run run', handler call position run = .ok ⟨⟩ run' →
    ∃ filtering, meaning call = some filtering ∧
      Action.write filtering.render run = .ok ⟨⟩ run'

theorem applies_plain (dispatch : Dispatch σ) (filtering : Code.Filtering) :
    Applies (Standard.plain filtering dispatch) (Reader.plain filtering) :=
  fun _ _ _ _ hok => ⟨filtering, rfl, hok⟩

theorem applies_withArgument (dispatch : Dispatch σ) (filtering : Code.Expr → Code.Filtering) :
    Applies (Standard.withArgument filtering dispatch) (Reader.withArgument filtering) := by
  intro call position run run' hok
  obtain ⟨expr, mid, hargument, happly⟩ := bind_eq_ok.1 hok
  unfold Standard.argument at hargument
  unfold Reader.withArgument
  cases hparameter : call.parameter with
  | none =>
    rw [hparameter] at hargument
    exact absurd hargument Action.misuse_ne_ok
  | some value =>
    rw [hparameter] at hargument
    obtain ⟨rfl, rfl⟩ := pure_eq_ok.1 hargument
    exact ⟨_, rfl, happly⟩

theorem applies_join (dispatch : Dispatch σ) :
    Applies (Standard.join dispatch)
      fun call => some (.join (call.parameter.getD (.literal "''"))) :=
  fun _ _ _ _ hok => ⟨_, rfl, hok⟩

/-- The standard filters mean what they write. -/
theorem aligned_filters :
    Aligned (fun (handler : Dispatch σ → FilterHandler σ) meaning =>
      ∀ dispatch, Applies (handler dispatch) meaning) Standard.filters Reader.filters := by
  have plain {name : String} (filtering : Code.Filtering) :
      name = name ∧ ∀ dispatch : Dispatch σ,
        Applies (Standard.plain filtering dispatch) (Reader.plain filtering) :=
    ⟨rfl, fun dispatch => applies_plain dispatch filtering⟩
  have given {name : String} (filtering : Code.Expr → Code.Filtering) :
      name = name ∧ ∀ dispatch : Dispatch σ,
        Applies (Standard.withArgument filtering dispatch) (Reader.withArgument filtering) :=
    ⟨rfl, fun dispatch => applies_withArgument dispatch filtering⟩
  exact .cons (plain _) <| .cons (plain _) <| .cons (plain _) <| .cons (plain _) <|
    .cons (plain _) <| .cons (plain _) <| .cons (given _) <| .cons ⟨rfl, applies_join⟩ <|
    .cons (plain _) <| .cons (plain _) <| .cons (given _) <| .cons (given _) <|
    .cons (plain _) <| .cons (plain _) <| .cons (plain _) <| .cons (given _) .nil

/-! ## Chains of filters -/

/-- Where the handlers of filters are those of the standard library. -/
def Dispatch.FiltersMean (dispatch : Dispatch σ) : Prop :=
  ∀ name handler, dispatch.filter? name = some handler →
    ∃ meaning, Reader.filters.lookup name = some meaning ∧ Applies handler meaning

variable {dispatch : Dispatch σ}

/-- The run after the action is the one before, with a text written to the session. -/
def Action.Writes (text : String) (run run' : Run σ) : Prop :=
  ∃ pieces : List Bytes, pieces.flatten = Utf8.encode text ∧
    run' = { run with session := pieces.foldl Session.write run.session }

namespace Action

variable {first second text : String} {middle : Run σ} {u : PUnit}

theorem writes_nil (run : Run σ) : Writes "" run run :=
  ⟨[], rfl, rfl⟩

theorem Writes.trans (h : Writes first run middle) (h' : Writes second middle run') :
    Writes (first ++ second) run run' := by
  obtain ⟨pieces, hpieces, rfl⟩ := h
  obtain ⟨more, hmore, rfl⟩ := h'
  refine ⟨pieces ++ more, ?_, ?_⟩
  · rw [List.flatten_append, hpieces, hmore, Utf8.encode_append]
  · rw [List.foldl_append]

theorem writes_of_ok (h : write text run = .ok u run') : Writes text run run' := by
  obtain ⟨-, rfl⟩ := EStateM.Result.ok.inj h
  exact ⟨[Utf8.encode text], List.append_nil _, rfl⟩

/-- What is written is put on the desk. -/
theorem Writes.mirrors (h : Writes text run run') (hjob : job.Finishes)
    (hmirrors : Mirrors job before run reader desk) (hmode : reader.mode = .directives) :
    Mirrors job before run' reader (desk.put (Utf8.encode text)) := by
  obtain ⟨pieces, hpieces, rfl⟩ := h
  rw [← hpieces]
  clear hpieces
  induction pieces generalizing run desk with
  | nil =>
    rw [List.flatten_nil, Desk.put_nil]
    exact hmirrors
  | cons piece pieces ih =>
    have hfirst : Mirrors job before { run with session := run.session.write piece } reader
        (desk.put piece) :=
      hmirrors.session hmode ⟨rfl, rfl⟩ ((hmirrors.depicts_directives hmode).write hjob piece) rfl
    have hrest := ih hfirst
    rwa [Desk.put_put] at hrest

end Action

namespace Variable

variable {v : Variable} {u : PUnit}

theorem applyFilters_writes (hdispatch : dispatch.FiltersMean) {position : Nat}
    {calls : List FilterCall} (hok : applyFilters dispatch position calls run = .ok u run') :
    ∃ chain, Reader.filterings calls = some chain ∧
      Action.Writes (String.join (chain.map (·.render))) run run' := by
  induction calls generalizing position run with
  | nil =>
    obtain ⟨-, rfl⟩ := pure_eq_ok.1 hok
    exact ⟨[], rfl, Action.writes_nil run'⟩
  | cons call calls ih =>
    rw [applyFilters] at hok
    cases hfilter : dispatch.filter? call.name with
    | none =>
      rw [hfilter] at hok
      exact nomatch hok
    | some handler =>
      rw [hfilter] at hok
      obtain ⟨⟨⟩, mid, hfirst, hok⟩ := bind_eq_ok.1 hok
      obtain ⟨meaning, hlookup, happlies⟩ := hdispatch _ _ hfilter
      obtain ⟨filtering, hmeaning, hwrite⟩ := happlies _ _ _ _ hfirst
      obtain ⟨chain, hchain, hwrites⟩ := ih hok
      refine ⟨filtering :: chain, ?_, ?_⟩
      · rw [Reader.filterings, hlookup, hchain]
        show (meaning call).bind _ = _
        rw [hmeaning]
        rfl
      · rw [List.map_cons, String.join_cons]
        exact (Action.writes_of_ok hwrite).trans hwrites

theorem prepare_writes (hdispatch : dispatch.FiltersMean)
    (hok : v.prepare dispatch run = .ok u run') :
    ∃ chain, Reader.filterings v.filters = some chain ∧
      Action.Writes (Passage.chain v.expr chain) run run' := by
  rw [prepare] at hok
  obtain ⟨⟨⟩, first, hopen, hok⟩ := bind_eq_ok.1 hok
  obtain ⟨⟨⟩, second, hfilters, hclose⟩ := bind_eq_ok.1 hok
  obtain ⟨chain, hchain, hwrites⟩ := applyFilters_writes hdispatch hfilters
  exact ⟨chain, hchain,
    ((Action.writes_of_ok hopen).trans hwrites).trans (Action.writes_of_ok hclose)⟩

end Variable

theorem length_filterings {calls : List FilterCall} {chain : List Code.Filtering}
    (h : Reader.filterings calls = some chain) : chain.length = calls.length := by
  induction calls generalizing chain with
  | nil =>
    obtain rfl := Option.some.inj h
    rfl
  | cons call calls ih =>
    rw [Reader.filterings] at h
    obtain ⟨meaning, -, h⟩ := Option.bind_eq_some_iff.1 h
    obtain ⟨_, -, h⟩ := Option.bind_eq_some_iff.1 h
    obtain ⟨more, hmore, h⟩ := Option.bind_eq_some_iff.1 h
    obtain rfl := Option.some.inj h
    rw [List.length_cons, List.length_cons, ih hmore]

/-- **Showing a value** writes the segments of its chain and what shows the result. -/
theorem Variable.write_writes (hdispatch : dispatch.FiltersMean) {v : Variable} {u : PUnit}
    (hok : v.write dispatch run = .ok u run') :
    ∃ chain, Reader.filterings v.filters = some chain ∧
      Action.Writes (Passage.showing v.expr chain) run run' := by
  unfold write hasFilters at hok
  cases hfilters : v.filters with
  | nil =>
    rw [hfilters] at hok
    exact ⟨[], rfl, Action.writes_of_ok hok⟩
  | cons call calls =>
    rw [hfilters] at hok
    obtain ⟨⟨⟩, mid, hprepare, hecho⟩ := bind_eq_ok.1 hok
    obtain ⟨chain, hchain, hwrites⟩ := prepare_writes hdispatch hprepare
    rw [hfilters] at hchain
    have hne : chain.isEmpty = false := by
      rw [List.isEmpty_eq_false_iff, ← List.length_pos_iff, length_filterings hchain]
      exact Nat.succ_pos _
    refine ⟨chain, hchain, ?_⟩
    unfold Passage.showing
    rw [hne]
    exact hwrites.trans (Action.writes_of_ok hecho)

/-! ## Parameters -/

theorem fillSlot_ok (hjob : job.Finishes) (hdispatch : dispatch.FiltersMean)
    (hmode : reader.mode = .directives) {param slot : Variable}
    (h : Mirrors job before run reader desk) (hok : Tag.fillSlot dispatch param run = .ok slot run') :
    ∃ chain, Reader.filterings param.filters = some chain ∧
      (Variable.parameter reader.scene (Code.slotName reader.slots)).value? = some slot ∧
      Mirrors job before run' { reader with slots := reader.slots + 1 }
        (desk.put (Utf8.encode (Fill.render ⟨reader.slots, param.expr, chain⟩))) := by
  rw [Tag.fillSlot] at hok
  obtain ⟨⟨⟩, first, hprepare, hok⟩ := bind_eq_ok.1 hok
  obtain ⟨number, second, hnext, hok⟩ := bind_eq_ok.1 hok
  obtain ⟨⟨⟩, third, hemit, hread⟩ := bind_eq_ok.1 hok
  obtain ⟨chain, hchain, hwrites⟩ := Variable.prepare_writes hdispatch hprepare
  have hprepared := hwrites.mirrors hjob h hmode
  obtain ⟨rfl, hnumbered⟩ := Action.nextSlot_ok hprepared hnext
  have hassigned := Action.write_ok hjob hnumbered hmode hemit
  obtain ⟨hvalue, hdone⟩ :=
    Action.reading_ok hassigned (Variable.appends_read _ _ false) hread
  rw [Desk.put_put, ← Utf8.encode_append] at hdone
  exact ⟨chain, hchain, hvalue, hdone⟩

/-- **Filling slots** leaves the segments of the fills, and the slots in place of the
parameters. -/
theorem fillSlots_ok (hjob : job.Finishes) (hdispatch : dispatch.FiltersMean)
    (hmode : reader.mode = .directives) {params filled : List Variable}
    (h : Mirrors job before run reader desk)
    (hok : Tag.fillSlots dispatch params run = .ok filled run') :
    ∃ fills slots, Reader.fill reader.scene reader.slots params = some (fills, filled, slots) ∧
      Mirrors job before run' { reader with slots }
        (desk.put (Utf8.encode (String.join (fills.map (·.render))))) := by
  induction params generalizing run reader desk filled with
  | nil =>
    obtain ⟨rfl, rfl⟩ := pure_eq_ok.1 hok
    refine ⟨[], reader.slots, rfl, ?_⟩
    rw [show Utf8.encode (String.join (([] : List Fill).map (·.render))) = [] from rfl,
      Desk.put_nil]
    exact h
  | cons param params ih =>
    rw [Tag.fillSlots] at hok
    rw [Reader.fill]
    by_cases hfilters : param.hasFilters = true
    · rw [if_pos hfilters] at hok ⊢
      obtain ⟨slot, mid, hslot, hrest⟩ := bind_eq_ok.1 hok
      obtain ⟨more, last, hmore, hpure⟩ := bind_eq_ok.1 hrest
      obtain ⟨rfl, rfl⟩ := pure_eq_ok.1 hpure
      obtain ⟨chain, hchain, hvalue, hfilled⟩ := fillSlot_ok hjob hdispatch hmode h hslot
      have hmode' : ({ reader with slots := reader.slots + 1 } : Reader).mode = .directives := hmode
      obtain ⟨fills, slots, hfill, hdone⟩ := ih hmode' hfilled hmore
      have hscene : Reader.fill reader.scene (reader.slots + 1) params = some (fills, more, slots) :=
        hfill
      refine ⟨⟨reader.slots, param.expr, chain⟩ :: fills, slots, ?_, ?_⟩
      · rw [hchain, hvalue, hscene]
        rfl
      · rw [Desk.put_put, ← Utf8.encode_append] at hdone
        rw [List.map_cons, String.join_cons]
        exact hdone
    · rw [if_neg hfilters] at hok ⊢
      obtain ⟨same, mid, hsame, hrest⟩ := bind_eq_ok.1 hok
      obtain ⟨rfl, rfl⟩ := pure_eq_ok.1 hsame
      obtain ⟨more, last, hmore, hpure⟩ := bind_eq_ok.1 hrest
      obtain ⟨rfl, rfl⟩ := pure_eq_ok.1 hpure
      obtain ⟨fills, slots, hfill, hdone⟩ := ih hmode h hmore
      refine ⟨fills, slots, ?_, hdone⟩
      rw [hfill]
      rfl

end TemplateCompiler
