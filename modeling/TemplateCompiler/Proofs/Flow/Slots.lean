import TemplateCompiler.Proofs.Flow.Order

/-!
# Slots along runs

A tag is preceded by the steps that fill its slots, so a run that comes to the tag from the step
before has filled them. Only the next branch of a condition is come to from elsewhere: its slots are
filled at the end of the branch before, where no run that tries its condition has been. Hence every
run finds its slots assigned exactly if no such branch has slots (`Flow.inOrder_iff`).
-/
namespace TemplateCompiler

namespace Flow

open Segment Access

/-! ## Runs that find their slots -/

/-- The branches of a condition end where it ends. -/
theorem segments_branch : (flow : Flow .branch) →
    ∃ front close, flow.segments = front ++ [.tag (some .endIf) close]
  | endIf close => ⟨[], close, rfl⟩
  | elseIf condition own body other => by
    obtain ⟨front, close, hother⟩ := segments_branch other
    refine ⟨.tag (some (.elseIf condition)) own :: (body.segments ++ front), close, ?_⟩
    rw [segments, hother, List.cons_append, List.append_assoc]
  | otherwise own body close =>
    ⟨.tag (some .otherwise) own :: body.segments, close, rfl⟩

/-- Some further branch of a condition has slots. -/
def HasLateSlots (segments : List Segment) : Prop :=
  ∃ condition own, .tag (some (.elseIf condition)) own ∈ segments ∧ own ≠ []

theorem HasLateSlots.mono {first second : List Segment} (h : HasLateSlots first)
    (hsub : first ⊆ second) : HasLateSlots second := by
  obtain ⟨condition, own, hmem, hown⟩ := h
  exact ⟨condition, own, hsub hmem, hown⟩

/-- Whether the runs of a program find the slots of each tag assigned if no further branch in it has
some. The slots that are `ready` when code is come to must be assigned; branches are come to without
any. -/
def FindsSlots {role : Role} (flow : Flow role) : Prop :=
  ∀ ⦃ready done : List Nat⦄ ⦃tail : List Segment⦄ ⦃trace : List Access⦄,
    Prepared ready (flow.segments ++ tail) → (role = .code → ready ⊆ done) →
    ¬ HasLateSlots flow.segments → flow.Runs trace → InOrder (!·.isStray) done trace

/-- Code that is come to right after a tag needs no slots. -/
theorem FindsSlots.code {role : Role} {part : Flow .code} {flow : Flow role} (h : part.FindsSlots)
    (hpart : IsPart part flow) {tail : List Segment} (hprepared : Prepared [] (part.segments ++ tail))
    (hlate : ¬ HasLateSlots flow.segments) {trace : List Access} (hrun : part.Runs trace)
    (done : List Nat) : InOrder (!·.isStray) done trace :=
  h hprepared (fun _ => List.nil_subset done) (fun hpartLate => hlate (hpartLate.mono hpart.subset))
    hrun

/-- What is ready where a branch begins was made ready in the branch before, so it is of no use. -/
theorem FindsSlots.branch {role : Role} {part : Flow .branch} {flow : Flow role}
    (h : part.FindsSlots) (hpart : IsPart part flow) {ready : List Nat} {tail : List Segment}
    (hprepared : Prepared ready (part.segments ++ tail)) (hlate : ¬ HasLateSlots flow.segments)
    {trace : List Access} (hrun : part.Runs trace) (done : List Nat) :
    InOrder (!·.isStray) done trace :=
  h hprepared nofun (fun hpartLate => hlate (hpartLate.mono hpart.subset)) hrun

theorem findsSlots_straight {segment : Segment} {hstraight : segment.isStraight = true}
    {rest : Flow .code} (ih : rest.FindsSlots) : (straight segment hstraight rest).FindsSlots := by
  rintro ready done tail _ h hready hlate ⟨after, hafter, rfl⟩
  have hrest : ¬ HasLateSlots rest.segments := fun hrest => hlate (hrest.mono IsPart.straight.subset)
  cases segment with
  | neutral =>
    have hnext : Prepared [] (rest.segments ++ tail) := h
    exact ih.code .straight hnext hlate hafter done
  | fill slot vars =>
    have hnext : Prepared (slot :: ready) (rest.segments ++ tail) := h
    have hstray : InOrder (!·.isStray) done (vars.map stray) := by
      refine inOrder_of_forall fun access hmem hcounts => ?_
      obtain ⟨name, -, rfl⟩ := List.mem_map.1 hmem
      cases hcounts
    have hassign : InOrder (!·.isStray) done (.assign slot :: after) := by
      refine ⟨fun _ => trivial, ih hnext (fun hrole => ?_) hrest hafter⟩
      exact List.cons_subset_cons _ (hready hrole)
    show InOrder _ _ (vars.map stray ++ [.assign slot] ++ after)
    rw [List.append_assoc]
    exact hstray.append hassign
  | tag statement own =>
    obtain ⟨hsub, hnext⟩ := h
    exact (inOrder_tag (List.Subset.trans hsub (hready rfl)) statement).append
      (ih.code .straight hnext hlate hafter done)

theorem findsSlots_choice {condition : Code.Condition} {own : List Nat} {body : Flow .code}
    {other : Flow .branch} {rest : Flow .code} (ihBody : body.FindsSlots)
    (ihOther : other.FindsSlots) (ihRest : rest.FindsSlots) :
    (choice condition own body other rest).FindsSlots := by
  rintro ready done tail _ h hready hlate ⟨inner, after, hinner, hafter, rfl⟩
  simp only [segments, List.cons_append, List.append_assoc] at h
  obtain ⟨hsub, hnext⟩ := h
  obtain ⟨ready', hbranch⟩ := hnext.right
  have hbranches : InOrder (!·.isStray) done inner := by
    rcases hinner with hinner | hinner
    · exact ihBody.code .choiceBody hnext hlate hinner done
    · exact ihOther.branch .choiceOther hbranch hlate hinner done
  -- the rest is come to right after the tag at the end of the branches
  obtain ⟨front, close, hend⟩ := segments_branch other
  rw [hend, List.append_assoc] at hbranch
  have hrest := ihRest.code .choiceRest hbranch.after_tag hlate hafter done
  exact (inOrder_tag (List.Subset.trans hsub (hready rfl)) _).append (hbranches.append hrest)

theorem findsSlots_loop {list item : Code.Expr} {own : List Nat} {body : Flow .code}
    {close : List Nat} {rest : Flow .code} (ihBody : body.FindsSlots) (ihRest : rest.FindsSlots) :
    (loop list item own body close rest).FindsSlots := by
  rintro ready done tail _ h hready hlate ⟨rounds, after, hrounds, hafter, rfl⟩
  simp only [segments, List.cons_append, List.append_assoc] at h
  obtain ⟨hsub, hnext⟩ := h
  have hbody : InOrder (!·.isStray) done rounds.flatten := InOrder.flatten fun round hround =>
    ihBody.code .loopBody hnext hlate (hrounds round hround) done
  have hrest := ihRest.code .loopRest hnext.after_tag hlate hafter done
  exact (inOrder_tag (List.Subset.trans hsub (hready rfl)) _).append (hbody.append hrest)

theorem findsSlots_loopOr {list item : Code.Expr} {own : List Nat} {body : Flow .code}
    {between : List Nat} {other : Flow .code} {close : List Nat} {rest : Flow .code}
    (ihBody : body.FindsSlots) (ihOther : other.FindsSlots) (ihRest : rest.FindsSlots) :
    (loopOr list item own body between other close rest).FindsSlots := by
  rintro ready done tail _ h hready hlate ⟨inner, after, hinner, hafter, rfl⟩
  simp only [segments, List.cons_append, List.append_assoc] at h
  obtain ⟨hsub, hnext⟩ := h
  have hbetween := hnext.after_tag
  have hparts : InOrder (!·.isStray) done inner := by
    rcases hinner with ⟨rounds, -, hrounds, rfl⟩ | hinner
    · exact InOrder.flatten fun round hround =>
        ihBody.code .loopOrBody hnext hlate (hrounds round hround) done
    · exact ihOther.code .loopOrOther hbetween hlate hinner done
  have hrest := ihRest.code .loopOrRest hbetween.after_tag hlate hafter done
  exact (inOrder_tag (List.Subset.trans hsub (hready rfl)) _).append (hparts.append hrest)

theorem findsSlots_elseIf {condition : Code.Condition} {own : List Nat} {body : Flow .code}
    {other : Flow .branch} (ihBody : body.FindsSlots) (ihOther : other.FindsSlots) :
    (elseIf condition own body other).FindsSlots := by
  rintro ready done tail _ h - hlate ⟨inner, hinner, rfl⟩
  simp only [segments, List.cons_append, List.append_assoc] at h
  obtain ⟨-, hnext⟩ := h
  -- this is the one tag whose slots no run need have filled, and it has none
  have hnone : own = [] := by
    by_contra hown
    exact hlate ⟨condition, own, List.mem_cons_self, hown⟩
  subst hnone
  obtain ⟨ready', hbranch⟩ := hnext.right
  refine (inOrder_tag (List.nil_subset done) _).append ?_
  rcases hinner with hinner | hinner
  · exact ihBody.code .elseIfBody hnext hlate hinner done
  · exact ihOther.branch .elseIfOther hbranch hlate hinner done

theorem findsSlots_otherwise {own : List Nat} {body : Flow .code} {close : List Nat}
    (ihBody : body.FindsSlots) : (otherwise own body close).FindsSlots := by
  intro ready done tail trace h _ hlate hrun
  simp only [segments, List.cons_append, List.append_assoc] at h
  obtain ⟨-, hnext⟩ := h
  exact ihBody.code .otherwise hnext hlate hrun done

/-- **Slots are filled first**: where no further branch of a condition has slots, every run finds
the slots of each tag assigned. -/
theorem findsSlots {role : Role} (flow : Flow role) : flow.FindsSlots := by
  induction flow with
  | done | endIf close =>
    rintro _ _ _ trace - - - rfl
    trivial
  | straight segment hstraight rest ih => exact findsSlots_straight ih
  | choice condition own body other rest ihBody ihOther ihRest =>
    exact findsSlots_choice ihBody ihOther ihRest
  | loop list item own body close rest ihBody ihRest => exact findsSlots_loop ihBody ihRest
  | loopOr list item own body between other close rest ihBody ihOther ihRest =>
    exact findsSlots_loopOr ihBody ihOther ihRest
  | elseIf condition own body other ihBody ihOther => exact findsSlots_elseIf ihBody ihOther
  | otherwise own body close ihBody => exact findsSlots_otherwise ihBody

/-! ## Runs that miss a slot -/

/-- What a run does, a step of the program does. -/
theorem exists_segment_of_runs {role : Role} {flow : Flow role} {trace : List Access}
    {access : Access} (hrun : flow.Runs trace) (h : access ∈ trace) :
    ∃ segment ∈ flow.segments, access ∈ segment.accesses := by
  -- the step of a part is one of the whole
  have hpart {role role' : Role} {part : Flow role} {flow : Flow role'} (hpart : IsPart part flow)
      (h : ∃ segment ∈ part.segments, access ∈ segment.accesses) :
      ∃ segment ∈ flow.segments, access ∈ segment.accesses := by
    obtain ⟨segment, hmem, haccess⟩ := h
    exact ⟨segment, hpart.subset hmem, haccess⟩
  induction flow generalizing trace with
  | done | endIf close =>
    obtain rfl : trace = [] := hrun
    cases h
  | straight segment hstraight rest ih =>
    obtain ⟨after, hafter, rfl⟩ := hrun
    rcases List.mem_append.1 h with h | h
    · exact ⟨segment, List.mem_cons_self, h⟩
    · exact hpart .straight (ih hafter h)
  | choice condition own body other rest ihBody ihOther ihRest =>
    obtain ⟨inner, after, hinner, hafter, rfl⟩ := hrun
    rcases List.mem_append.1 h with h | h
    · exact ⟨_, List.mem_cons_self, h⟩
    · rcases List.mem_append.1 h with h | h
      · rcases hinner with hinner | hinner
        · exact hpart .choiceBody (ihBody hinner h)
        · exact hpart .choiceOther (ihOther hinner h)
      · exact hpart .choiceRest (ihRest hafter h)
  | loop list item own body close rest ihBody ihRest =>
    obtain ⟨rounds, after, hrounds, hafter, rfl⟩ := hrun
    rcases List.mem_append.1 h with h | h
    · exact ⟨_, List.mem_cons_self, h⟩
    · rcases List.mem_append.1 h with h | h
      · obtain ⟨round, hround, h⟩ := List.mem_flatten.1 h
        exact hpart .loopBody (ihBody (hrounds round hround) h)
      · exact hpart .loopRest (ihRest hafter h)
  | loopOr list item own body between other close rest ihBody ihOther ihRest =>
    obtain ⟨inner, after, hinner, hafter, rfl⟩ := hrun
    rcases List.mem_append.1 h with h | h
    · exact ⟨_, List.mem_cons_self, h⟩
    · rcases List.mem_append.1 h with h | h
      · rcases hinner with ⟨rounds, -, hrounds, rfl⟩ | hinner
        · obtain ⟨round, hround, h⟩ := List.mem_flatten.1 h
          exact hpart .loopOrBody (ihBody (hrounds round hround) h)
        · exact hpart .loopOrOther (ihOther hinner h)
      · exact hpart .loopOrRest (ihRest hafter h)
  | elseIf condition own body other ihBody ihOther =>
    obtain ⟨inner, hinner, rfl⟩ := hrun
    rcases List.mem_append.1 h with h | h
    · exact ⟨_, List.mem_cons_self, h⟩
    · rcases hinner with hinner | hinner
      · exact hpart .elseIfBody (ihBody hinner h)
      · exact hpart .elseIfOther (ihOther hinner h)
  | otherwise own body close ihBody =>
    exact hpart .otherwise (ihBody hrun h)

/-- Runs assign no slots but those that are filled in the program. -/
theorem fill_of_runs {role : Role} {flow : Flow role} {trace : List Access} {slot : Nat}
    (hrun : flow.Runs trace) (h : slot ∈ trace.flatMap assigned) :
    ∃ vars, .fill slot vars ∈ flow.segments := by
  obtain ⟨access, hmem, hslot⟩ := List.mem_flatMap.1 h
  obtain ⟨segment, hsegment, haccess⟩ := exists_segment_of_runs hrun hmem
  have hassigned : slot ∈ segment.accesses.flatMap assigned :=
    List.mem_flatMap.2 ⟨access, haccess, hslot⟩
  cases segment with
  | neutral => cases hassigned
  | fill filled vars =>
    rw [assigned_fill] at hassigned
    obtain rfl := List.mem_singleton.1 hassigned
    exact ⟨vars, hsegment⟩
  | tag statement own =>
    rw [assigned_tag] at hassigned
    cases hassigned

/-- Code does not begin with a further branch of a condition. -/
theorem nextTag_code (flow : Flow .code) (condition : Code.Condition) (own : List Nat) :
    nextTag flow.segments ≠ some (some (.elseIf condition), own) := by
  match flow with
  | done | choice .. | loop .. | loopOr .. => nofun
  | straight .neutral _ rest => exact nextTag_code rest condition own
  | straight (.fill ..) _ rest => exact nextTag_code rest condition own
  | straight (.tag none _) _ rest => nofun
  | straight (.tag (some statement) _) hstraight rest =>
    intro h
    obtain rfl : statement = .elseIf condition := by
      cases h
      rfl
    cases hstraight

/-- A run can come to a further branch of a condition with a slot of it not assigned. -/
def Misses {role : Role} (flow : Flow role) : Prop :=
  ∃ before slot after condition own, flow.Runs (before ++ .read slot :: after) ∧
    slot ∉ before.flatMap assigned ∧ .tag (some (.elseIf condition)) own ∈ flow.segments ∧
    slot ∈ own

/-- A part that misses a slot makes the whole miss it, if it can be come to without the slots of
its branches. -/
theorem Misses.of_part {role role' : Role} {part : Flow role} {flow : Flow role'} (h : part.Misses)
    (hpart : IsPart part flow) (front : List Access)
    (hruns : ∀ trace, part.Runs trace → ∃ back, flow.Runs (front ++ (trace ++ back)))
    (hfront : ∀ condition own slot, .tag (some (.elseIf condition)) own ∈ part.segments →
      slot ∈ own → slot ∉ front.flatMap assigned) : flow.Misses := by
  obtain ⟨before, slot, after, condition, own, hrun, hnot, htag, hslot⟩ := h
  obtain ⟨back, hwhole⟩ := hruns _ hrun
  refine ⟨front ++ before, slot, after ++ back, condition, own, ?_, ?_, hpart.subset htag, hslot⟩
  · simpa using hwhole
  · rw [List.flatMap_append, List.mem_append, not_or]
    exact ⟨hfront condition own slot htag hslot, hnot⟩

theorem hasLateSlots_append {first second : List Segment} :
    HasLateSlots (first ++ second) ↔ HasLateSlots first ∨ HasLateSlots second := by
  simp only [HasLateSlots, List.mem_append, or_and_right, exists_or]

theorem HasLateSlots.of_cons {segment : Segment} {segments : List Segment}
    (h : HasLateSlots (segment :: segments))
    (hne : ∀ condition own, segment ≠ .tag (some (.elseIf condition)) own) :
    HasLateSlots segments := by
  obtain ⟨condition, own, hmem, hown⟩ := h
  exact ⟨condition, own, (List.mem_cons.1 hmem).resolve_left (hne condition own).symm, hown⟩

/-- What follows the first branch of a condition begins with a tag. -/
theorem exists_cons_branch (flow : Flow .branch) :
    ∃ statement own rest, flow.segments = .tag statement own :: rest := by
  cases flow with
  | endIf | elseIf | otherwise => exact ⟨_, _, _, rfl⟩

/-- Slots of further branches are read there. -/
def ReadsLateSlots (segments : List Segment) : Prop :=
  ∀ condition own, .tag (some (.elseIf condition)) own ∈ segments →
    ∀ slot ∈ own, Code.slotName slot ∈ (Code.Statement.elseIf condition).vars

theorem ReadsLateSlots.mono {first second : List Segment} (h : ReadsLateSlots second)
    (hsub : first ⊆ second) : ReadsLateSlots first :=
  fun condition own hmem => h condition own (hsub hmem)

/-- A part without slots of further branches does not assign those of what follows it. -/
theorem not_assigned_of_not_hasLateSlots {role : Role} {part : Flow role}
    {trace : List Access} {last : Option Code.Statement} {close : List Nat} {tail : List Segment}
    (htidy : IsTidy (part.segments ++ .tag last close :: tail)) (hrun : part.Runs trace)
    (hnot : ¬ HasLateSlots (part.segments ++ [.tag last close])) {condition : Code.Condition}
    {own : List Nat} {slot : Nat} (htag : .tag (some (.elseIf condition)) own ∈ tail)
    (hslot : slot ∈ own) : slot ∉ trace.flatMap assigned := by
  intro hassigned
  obtain ⟨vars, hfill⟩ := fill_of_runs hrun hassigned
  have hpart := htidy.mem_left hfill
    (List.mem_append_right _ (List.mem_cons_of_mem _ htag)) hslot
  exact hnot ⟨condition, own, hpart, List.ne_nil_of_mem hslot⟩

/-- Whether a program misses a slot if a further branch in it has some. -/
def MissesLate {role : Role} (flow : Flow role) : Prop :=
  ∀ tail, IsTidy (flow.segments ++ tail) → ReadsLateSlots flow.segments →
    HasLateSlots flow.segments → flow.Misses

/-- A late slot of a part that can be come to right after a tag of the whole. -/
theorem MissesLate.after_tag {role role' : Role} {part : Flow role} {flow : Flow role'}
    (h : part.MissesLate) (hpart : IsPart part flow) {tail : List Segment}
    (htidy : IsTidy (part.segments ++ tail)) (hreads : ReadsLateSlots flow.segments)
    (hlate : HasLateSlots part.segments) (statement : Option Code.Statement) (own : List Nat)
    (hruns : ∀ trace, part.Runs trace →
      ∃ back, flow.Runs (accesses (.tag statement own) ++ (trace ++ back))) : flow.Misses :=
  (h tail htidy (hreads.mono hpart.subset) hlate).of_part hpart _ hruns fun _ _ slot _ _ => by
    rw [assigned_tag]
    exact List.not_mem_nil

theorem missesLate_straight {segment : Segment} {hstraight : segment.isStraight = true}
    {rest : Flow .code} (ih : rest.MissesLate) : (straight segment hstraight rest).MissesLate := by
  intro tail htidy hreads hlate
  have hne : ∀ condition own, segment ≠ .tag (some (.elseIf condition)) own := by
    rintro condition own rfl
    cases hstraight
  have hrest : IsTidy (rest.segments ++ tail) := IsTidy.of_cons htidy
  refine (ih tail hrest (hreads.mono IsPart.straight.subset) (hlate.of_cons hne)).of_part .straight
    segment.accesses (fun trace hrun => ⟨[], trace, hrun, by rw [List.append_nil]⟩)
    fun condition own slot htag hslot hassigned => ?_
  cases segment with
  | neutral => cases hassigned
  | tag statement own =>
    rw [assigned_tag] at hassigned
    cases hassigned
  | fill filled vars =>
    -- the slot would belong to the tag that comes next, which is not a further branch
    rw [assigned_fill] at hassigned
    obtain rfl := List.mem_singleton.1 hassigned
    obtain ⟨found, hfound⟩ := exists_nextTag htag
    obtain ⟨⟨statement, own', hnext, hslot'⟩, -⟩ := htidy.owned
    change nextTag (rest.segments ++ tail) = _ at hnext
    rw [nextTag_append hfound] at hnext
    obtain rfl := Option.some.inj hnext
    obtain ⟨rfl, rfl⟩ := hrest.unique _ _ _ _ slot (List.mem_append_left _ htag)
      (List.mem_append_left _ (mem_of_nextTag hfound)) hslot hslot'
    exact nextTag_code rest condition own hfound

theorem missesLate_choice {condition : Code.Condition} {own : List Nat} {body : Flow .code}
    {other : Flow .branch} {rest : Flow .code} (ihBody : body.MissesLate)
    (ihOther : other.MissesLate) (ihRest : rest.MissesLate) :
    (choice condition own body other rest).MissesLate := by
  intro tail htidy hreads hlate
  simp only [segments, List.cons_append, List.append_assoc] at htidy
  have hbody : IsTidy (body.segments ++ (other.segments ++ (rest.segments ++ tail))) :=
    IsTidy.of_cons htidy
  obtain ⟨inner, hinner⟩ := exists_runs body
  obtain ⟨after, hafter⟩ := exists_runs rest
  have hall := hlate.of_cons (by simp)
  rw [hasLateSlots_append, hasLateSlots_append] at hall
  by_cases hlateBody : HasLateSlots body.segments
  · exact ihBody.after_tag .choiceBody hbody hreads hlateBody _ _
      fun trace hrun => ⟨after, trace, after, .inl hrun, hafter, rfl⟩
  by_cases hlateOther : HasLateSlots other.segments
  · exact ihOther.after_tag .choiceOther hbody.right hreads hlateOther _ _
      fun trace hrun => ⟨after, trace, after, .inr hrun, hafter, rfl⟩
  -- the first branch assigns none of the slots that are missed after the condition
  have hlateRest := hall.resolve_left (not_or.2 ⟨hlateBody, hlateOther⟩)
  refine (ihRest tail hbody.right.right (hreads.mono IsPart.choiceRest.subset) hlateRest).of_part
    .choiceRest (accesses (.tag (some (.ifThen condition)) own) ++ inner)
    (fun trace hrun => ⟨[], inner, trace, .inl hinner, hrun, by simp⟩) fun c o slot htag hslot => ?_
  rw [List.flatMap_append, assigned_tag, List.nil_append]
  obtain ⟨last, close, more, hother⟩ := exists_cons_branch other
  rw [hother, List.cons_append] at hbody
  refine not_assigned_of_not_hasLateSlots hbody hinner ?_
    (List.mem_append_right _ (List.mem_append_left _ htag)) hslot
  rw [hasLateSlots_append, not_or]
  refine ⟨hlateBody, fun hlast => hlateOther ?_⟩
  obtain ⟨c, o, hmem, ho⟩ := hlast
  exact ⟨c, o, by rw [hother, List.mem_singleton.1 hmem]; exact List.mem_cons_self, ho⟩

theorem missesLate_loop {list item : Code.Expr} {own : List Nat} {body : Flow .code}
    {close : List Nat} {rest : Flow .code} (ihBody : body.MissesLate) (ihRest : rest.MissesLate) :
    (loop list item own body close rest).MissesLate := by
  intro tail htidy hreads hlate
  simp only [segments, List.cons_append, List.append_assoc] at htidy
  have hbody : IsTidy (body.segments ++ _) := IsTidy.of_cons htidy
  have hrest : IsTidy (rest.segments ++ tail) := hbody.right.of_cons
  obtain ⟨after, hafter⟩ := exists_runs rest
  have hall := hlate.of_cons (by simp)
  rw [hasLateSlots_append] at hall
  rcases hall with hlateBody | hlateRest
  · -- one round is enough
    refine ihBody.after_tag .loopBody hbody hreads hlateBody _ _ fun trace hrun =>
      ⟨after, [trace], after, fun round hround => ?_, hafter, by simp; rfl⟩
    rwa [List.mem_singleton.1 hround]
  · -- and the rest can be come to without any
    have hlateRest := hlateRest.of_cons (by simp)
    exact ihRest.after_tag .loopRest hrest hreads hlateRest _ _ fun trace hrun =>
      ⟨[], [], trace, fun round hround => absurd hround List.not_mem_nil, hrun, by simp; rfl⟩

theorem missesLate_loopOr {list item : Code.Expr} {own : List Nat} {body : Flow .code}
    {between : List Nat} {other : Flow .code} {close : List Nat} {rest : Flow .code}
    (ihBody : body.MissesLate) (ihOther : other.MissesLate) (ihRest : rest.MissesLate) :
    (loopOr list item own body between other close rest).MissesLate := by
  intro tail htidy hreads hlate
  simp only [segments, List.cons_append, List.append_assoc] at htidy
  have hbody : IsTidy (body.segments ++ _) := IsTidy.of_cons htidy
  have hother : IsTidy (other.segments ++ .tag (some (.endFor true)) close ::
      (rest.segments ++ tail)) := hbody.right.of_cons
  have hrest : IsTidy (rest.segments ++ tail) := hother.right.of_cons
  obtain ⟨inner, hinner⟩ := exists_runs other
  obtain ⟨after, hafter⟩ := exists_runs rest
  have hall := hlate.of_cons (by simp)
  rw [hasLateSlots_append] at hall
  rcases hall with hlateBody | hall
  · refine ihBody.after_tag .loopOrBody hbody hreads hlateBody _ _ fun trace hrun =>
      ⟨after, trace, after, .inl ⟨[trace], List.cons_ne_nil _ _, fun round hround => ?_, by simp⟩,
        hafter, rfl⟩
    rwa [List.mem_singleton.1 hround]
  have hall := hall.of_cons (by simp)
  rw [hasLateSlots_append] at hall
  by_cases hlateOther : HasLateSlots other.segments
  · exact ihOther.after_tag .loopOrOther hother hreads hlateOther _ _
      fun trace hrun => ⟨after, trace, after, .inr hrun, hafter, rfl⟩
  -- the code for the empty list assigns none of the slots that are missed after the loop
  have hlateRest := (hall.resolve_left hlateOther).of_cons (by simp)
  refine (ihRest tail hrest (hreads.mono IsPart.loopOrRest.subset) hlateRest).of_part .loopOrRest
    (accesses (.tag (some (.forEach list item)) own) ++ inner)
    (fun trace hrun => ⟨[], inner, trace, .inr hinner, hrun, by simp⟩) fun c o slot htag hslot => ?_
  rw [List.flatMap_append, assigned_tag, List.nil_append]
  refine not_assigned_of_not_hasLateSlots hother hinner ?_ (List.mem_append_left _ htag) hslot
  rw [hasLateSlots_append, not_or]
  refine ⟨hlateOther, fun hlast => ?_⟩
  obtain ⟨c, o, hmem, -⟩ := hlast
  cases List.mem_singleton.1 hmem

theorem missesLate_elseIf {condition : Code.Condition} {own : List Nat} {body : Flow .code}
    {other : Flow .branch} (ihBody : body.MissesLate) (ihOther : other.MissesLate) :
    (elseIf condition own body other).MissesLate := by
  intro tail htidy hreads hlate
  simp only [segments, List.cons_append, List.append_assoc] at htidy
  have hbody : IsTidy (body.segments ++ (other.segments ++ tail)) := IsTidy.of_cons htidy
  obtain ⟨inner, hinner⟩ := exists_runs body
  cases own with
  | cons slot own =>
    -- the branch itself is come to with nothing assigned
    have hvar := hreads condition _ List.mem_cons_self slot List.mem_cons_self
    obtain ⟨more, hmore⟩ := exists_cons_accesses own hvar
    exact ⟨[], slot, more ++ inner, condition, slot :: own,
      ⟨inner, .inl hinner, by rw [hmore]; rfl⟩, List.not_mem_nil, List.mem_cons_self,
      List.mem_cons_self⟩
  | nil =>
    have hall : HasLateSlots (body.segments ++ other.segments) := by
      obtain ⟨c, o, hmem, ho⟩ := hlate
      rcases List.mem_cons.1 hmem with heq | hmem
      · cases heq
        exact absurd rfl ho
      · exact ⟨c, o, hmem, ho⟩
    rw [hasLateSlots_append] at hall
    rcases hall with hlateBody | hlateOther
    · exact ihBody.after_tag .elseIfBody hbody hreads hlateBody _ _
        fun trace hrun => ⟨[], trace, .inl hrun, by rw [List.append_nil]⟩
    · exact ihOther.after_tag .elseIfOther hbody.right hreads hlateOther _ _
        fun trace hrun => ⟨[], trace, .inr hrun, by rw [List.append_nil]⟩

theorem missesLate_otherwise {own : List Nat} {body : Flow .code} {close : List Nat}
    (ihBody : body.MissesLate) : (otherwise own body close).MissesLate := by
  intro tail htidy hreads hlate
  simp only [segments, List.cons_append, List.append_assoc] at htidy
  have hbody : IsTidy (body.segments ++ _) := IsTidy.of_cons htidy
  have hall := hlate.of_cons (by simp)
  rw [hasLateSlots_append] at hall
  have hlateBody : HasLateSlots body.segments := by
    refine hall.resolve_right ?_
    rintro ⟨c, o, hmem, -⟩
    cases List.mem_singleton.1 hmem
  exact (ihBody _ hbody (hreads.mono IsPart.otherwise.subset) hlateBody).of_part .otherwise []
    (fun trace hrun => ⟨[], by rwa [List.nil_append, List.append_nil]⟩)
    fun _ _ _ _ _ => List.not_mem_nil

/-- **A further branch comes too late**: if one has slots, there is a run that comes to it with one
of them not assigned. -/
theorem missesLate {role : Role} (flow : Flow role) : flow.MissesLate := by
  induction flow with
  | done => exact fun _ _ _ hlate => absurd hlate nofun
  | endIf close =>
    rintro _ _ _ ⟨condition, own, hmem, -⟩
    cases List.mem_singleton.1 hmem
  | straight segment hstraight rest ih => exact missesLate_straight ih
  | choice condition own body other rest ihBody ihOther ihRest =>
    exact missesLate_choice ihBody ihOther ihRest
  | loop list item own body close rest ihBody ihRest => exact missesLate_loop ihBody ihRest
  | loopOr list item own body between other close rest ihBody ihOther ihRest =>
    exact missesLate_loopOr ihBody ihOther ihRest
  | elseIf condition own body other ihBody ihOther => exact missesLate_elseIf ihBody ihOther
  | otherwise own body close ihBody => exact missesLate_otherwise ihBody

/-! ## When slots are found -/

/-- **Slots along runs**: every run finds the slots of each tag assigned exactly if no further branch
of a condition has slots. -/
theorem inOrder_iff {flow : Flow .code} (hprepared : Prepared [] flow.segments)
    (htidy : IsTidy flow.segments) (hreads : ReadsLateSlots flow.segments) :
    (∀ trace, flow.Runs trace → InOrder (!·.isStray) [] trace) ↔ ¬ HasLateSlots flow.segments := by
  refine ⟨fun hall hlate => ?_, fun hnot trace hrun => ?_⟩
  · rw [← List.append_nil flow.segments] at htidy
    obtain ⟨before, slot, after, -, -, hrun, hmiss, -⟩ :=
      missesLate flow [] htidy hreads hlate
    exact not_inOrder rfl List.not_mem_nil hmiss (hall _ hrun)
  · rw [← List.append_nil flow.segments] at hprepared
    exact findsSlots flow hprepared (fun _ => List.nil_subset _) hnot hrun

/-- Steps that name no slot of their own accord. -/
def NamesNoSlot (segments : List Segment) : Prop :=
  ∀ segment ∈ segments, ∀ name, .stray name ∈ segment.accesses → ∀ slot, name ≠ Code.slotName slot

/-- Where no slot is named, what the template reads of its own accord does not matter. -/
theorem NamesNoSlot.inOrder {flow : Flow .code} (h : NamesNoSlot flow.segments)
    {trace : List Access} (hrun : flow.Runs trace) : InOrder isStray [] trace := by
  refine inOrder_of_forall fun access hmem hcounts => ?_
  cases access with
  | assign | read => cases hcounts
  | stray name =>
    obtain ⟨segment, hsegment, haccess⟩ := exists_segment_of_runs hrun hmem
    exact fun slot hslot => absurd hslot (h segment hsegment name haccess slot)

/-- Every run finds all that it reads exactly if it finds the slots of each tag, and what the
template names of its own accord. -/
theorem inOrder_all {flow : Flow .code} :
    (∀ trace, flow.Runs trace → InOrder (fun _ => true) [] trace) ↔
      (∀ trace, flow.Runs trace → InOrder (!·.isStray) [] trace) ∧
        ∀ trace, flow.Runs trace → InOrder isStray [] trace := by
  have hsplit : (fun _ => true) = fun access : Access => !access.isStray || access.isStray := by
    funext access
    cases access.isStray <;> rfl
  simp only [hsplit, inOrder_or, forall_and]

end Flow

end TemplateCompiler
