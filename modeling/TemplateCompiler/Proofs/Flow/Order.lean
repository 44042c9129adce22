import TemplateCompiler.Proofs.Flow.Basic

/-!
# The order of accesses

A read finds its slot if the slot was assigned before (`Access.InOrder`). In an artifact the steps
that fill the slots of a tag come right before it (`Segment.Prepared`), and a slot belongs to one
tag (`Segment.IsTidy`).
-/
namespace TemplateCompiler

/-! ## Accesses in order -/

namespace Access

/-- The slots that an access assigns. -/
def assigned : Access → List Nat
  | assign slot => [slot]
  | _ => []

/-- Whether an access reads a variable that the template names itself. -/
def isStray : Access → Bool
  | stray _ => true
  | _ => false

/-- Whether an access finds the slot that it reads among those that were assigned before. -/
def Finds (done : List Nat) : Access → Prop
  | assign _ => True
  | read slot => slot ∈ done
  | stray name => ∀ slot, name = Code.slotName slot → slot ∈ done

/-- Whether all accesses that count find their slots, `done` being assigned before. -/
def InOrder (counts : Access → Bool) : List Nat → List Access → Prop
  | _, [] => True
  | done, access :: rest =>
    (counts access = true → access.Finds done) ∧ InOrder counts (access.assigned ++ done) rest

variable {counts : Access → Bool} {done more : List Nat} {first second : List Access}

theorem Finds.mono {access : Access} (h : access.Finds done) (hsub : done ⊆ more) :
    access.Finds more := by
  cases access with
  | assign => trivial
  | read slot => exact hsub h
  | stray name => exact fun slot hslot => hsub (h slot hslot)

theorem InOrder.mono (h : InOrder counts done first) (hsub : done ⊆ more) :
    InOrder counts more first := by
  induction first generalizing done more with
  | nil => trivial
  | cons access rest ih =>
    refine ⟨fun hcounts => (h.1 hcounts).mono hsub, ih h.2 ?_⟩
    exact List.append_subset.2 ⟨List.subset_append_left _ _,
      List.Subset.trans hsub (List.subset_append_right _ _)⟩

theorem InOrder.append (h : InOrder counts done first) (h' : InOrder counts done second) :
    InOrder counts done (first ++ second) := by
  induction first generalizing done with
  | nil => exact h'
  | cons access rest ih =>
    exact ⟨h.1, ih h.2 (h'.mono (List.subset_append_right _ _))⟩

theorem InOrder.flatten {rounds : List (List Access)}
    (h : ∀ round ∈ rounds, InOrder counts done round) : InOrder counts done rounds.flatten := by
  induction rounds with
  | nil => trivial
  | cons round rounds ih =>
    exact (h round List.mem_cons_self).append (ih fun r hr => h r (List.mem_cons_of_mem _ hr))

theorem inOrder_of_forall {trace : List Access}
    (h : ∀ access ∈ trace, counts access = true → access.Finds done) :
    InOrder counts done trace := by
  induction trace generalizing done with
  | nil => trivial
  | cons access rest ih =>
    refine ⟨h access List.mem_cons_self, ih fun other hmem hcounts => ?_⟩
    exact (h other (List.mem_cons_of_mem _ hmem) hcounts).mono (List.subset_append_right _ _)

/-- What counts together is in order if each part is. -/
theorem inOrder_or {counts' : Access → Bool} {trace : List Access} :
    InOrder (fun access => counts access || counts' access) done trace ↔
      InOrder counts done trace ∧ InOrder counts' done trace := by
  induction trace generalizing done with
  | nil => simp [InOrder]
  | cons access rest ih =>
    rw [InOrder, InOrder, InOrder, ih]
    simp only [Bool.or_eq_true, or_imp]
    tauto

/-- A read that counts does not find a slot that was not assigned. -/
theorem not_inOrder {slot : Nat} (hcounts : counts (.read slot) = true) (hdone : slot ∉ done)
    (hfirst : slot ∉ first.flatMap assigned) :
    ¬ InOrder counts done (first ++ .read slot :: second) := by
  induction first generalizing done with
  | nil => exact fun h => hdone (h.1 hcounts)
  | cons access rest ih =>
    rw [List.flatMap_cons, List.mem_append, not_or] at hfirst
    refine fun h => ih ?_ hfirst.2 h.2
    rw [List.mem_append, not_or]
    exact ⟨hfirst.1, hdone⟩

end Access

namespace Segment

/-! ## Steps before a tag -/

/-- Whether every tag follows right after the steps that fill its slots, `ready` being filled right
before. -/
def Prepared : List Nat → List Segment → Prop
  | _, [] => True
  | _, .neutral :: rest => Prepared [] rest
  | ready, .fill slot _ :: rest => Prepared (slot :: ready) rest
  | ready, .tag _ own :: rest => own ⊆ ready ∧ Prepared [] rest

theorem Prepared.right {ready : List Nat} {first second : List Segment}
    (h : Prepared ready (first ++ second)) : ∃ ready, Prepared ready second := by
  induction first generalizing ready with
  | nil => exact ⟨ready, h⟩
  | cons segment first ih =>
    cases segment with
    | neutral =>
      have hrest : Prepared [] (first ++ second) := h
      exact ih hrest
    | fill slot vars =>
      have hrest : Prepared (slot :: ready) (first ++ second) := h
      exact ih hrest
    | tag statement own => exact ih h.2

theorem Prepared.after_tag {ready own : List Nat} {first second : List Segment}
    {statement : Option Code.Statement}
    (h : Prepared ready (first ++ .tag statement own :: second)) : Prepared [] second := by
  obtain ⟨ready, htag⟩ := h.right
  exact htag.2

/-- The tag that comes next. -/
def nextTag : List Segment → Option (Option Code.Statement × List Nat)
  | [] => none
  | .tag statement own :: _ => some (statement, own)
  | _ :: rest => nextTag rest

theorem nextTag_append {first second : List Segment} {found : Option Code.Statement × List Nat}
    (h : nextTag first = some found) : nextTag (first ++ second) = some found := by
  induction first with
  | nil => cases h
  | cons segment first ih =>
    cases segment with
    | neutral | fill => exact ih h
    | tag statement own => exact h

theorem mem_of_nextTag {segments : List Segment} {statement : Option Code.Statement}
    {own : List Nat} (h : nextTag segments = some (statement, own)) :
    .tag statement own ∈ segments := by
  induction segments with
  | nil => cases h
  | cons segment segments ih =>
    cases segment with
    | neutral | fill => exact List.mem_cons_of_mem _ (ih h)
    | tag statement own =>
      cases h
      exact List.mem_cons_self

theorem exists_nextTag {segments : List Segment} {statement : Option Code.Statement}
    {own : List Nat} (h : .tag statement own ∈ segments) :
    ∃ found, nextTag segments = some found := by
  induction segments with
  | nil => cases h
  | cons segment segments ih =>
    cases segment with
    | neutral | fill => exact ih ((List.mem_cons.1 h).resolve_left Segment.noConfusion)
    | tag first slots => exact ⟨_, rfl⟩

/-- Whether every slot that is filled belongs to the tag that comes next. -/
def Owned : List Segment → Prop
  | [] => True
  | .fill slot _ :: rest =>
    (∃ statement own, nextTag rest = some (statement, own) ∧ slot ∈ own) ∧ Owned rest
  | _ :: rest => Owned rest

theorem Owned.right {first second : List Segment} (h : Owned (first ++ second)) : Owned second := by
  induction first with
  | nil => exact h
  | cons segment first ih =>
    cases segment with
    | neutral | tag => exact ih h
    | fill slot vars => exact ih h.2

/-- A slot belongs to one tag, and it is filled right before. -/
structure IsTidy (segments : List Segment) : Prop where
  owned : Owned segments
  unique : ∀ statement own statement' own' slot, .tag statement own ∈ segments →
    .tag statement' own' ∈ segments → slot ∈ own → slot ∈ own' →
      statement = statement' ∧ own = own'

theorem IsTidy.right {first second : List Segment} (h : IsTidy (first ++ second)) :
    IsTidy second where
  owned := h.owned.right
  unique statement own statement' own' slot hmem hmem' :=
    h.unique statement own statement' own' slot (List.mem_append_right _ hmem)
      (List.mem_append_right _ hmem')

theorem IsTidy.of_cons {segment : Segment} {segments : List Segment}
    (h : IsTidy (segment :: segments)) : IsTidy segments := by
  rw [← List.singleton_append] at h
  exact h.right

/-- A slot that is filled in a part which ends with a tag belongs to a tag of that part. -/
theorem IsTidy.mem_left {first second : List Segment} {statement last : Option Code.Statement}
    {own close : List Nat} {slot : Nat} {vars : List String}
    (h : IsTidy (first ++ .tag last close :: second)) (hfill : .fill slot vars ∈ first)
    (htag : .tag statement own ∈ first ++ .tag last close :: second)
    (hslot : slot ∈ own) : .tag statement own ∈ first ++ [.tag last close] := by
  obtain ⟨before, after, rfl⟩ := List.append_of_mem hfill
  have howned : Owned (before ++ .fill slot vars :: (after ++ .tag last close :: second)) := by
    have howned := h.owned
    rwa [List.append_assoc] at howned
  obtain ⟨⟨found, own', hnext, hslot'⟩, -⟩ := howned.right
  have hpart : nextTag (after ++ [.tag last close]) = some (found, own') := by
    have hlast : .tag last close ∈ after ++ [.tag last close] :=
      List.mem_append_right _ List.mem_cons_self
    obtain ⟨other, hother⟩ := exists_nextTag hlast
    have hwhole : nextTag (after ++ [.tag last close] ++ second) = some other :=
      nextTag_append hother
    rw [List.append_assoc] at hwhole
    rw [hother, ← hwhole]
    exact hnext
  have hmem := mem_of_nextTag hpart
  have hwhole : .tag found own' ∈
      (before ++ .fill slot vars :: after) ++ .tag last close :: second := by
    simp only [List.mem_append, List.mem_cons, List.not_mem_nil, or_false] at hmem ⊢
    tauto
  obtain ⟨rfl, rfl⟩ := h.unique _ _ _ _ slot htag hwhole hslot hslot'
  rw [List.append_assoc]
  exact List.mem_append_right _ (List.mem_cons_of_mem _ hmem)

/-- A tag finds the slots that were filled for it. -/
theorem inOrder_tag {done own : List Nat} (h : own ⊆ done) (statement : Option Code.Statement) :
    Access.InOrder (!·.isStray) done (accesses (.tag statement own)) := by
  cases statement with
  | none => trivial
  | some statement =>
    refine Access.inOrder_of_forall fun access hmem hcounts => ?_
    rcases List.mem_append.1 hmem with hmem | hmem
    · obtain ⟨slot, hslot, rfl⟩ := List.mem_map.1 hmem
      exact h (List.mem_filter.1 hslot).1
    · obtain ⟨name, -, rfl⟩ := List.mem_map.1 hmem
      cases hcounts

/-- A tag that reads its first slot does so first. -/
theorem exists_cons_accesses {statement : Code.Statement} {slot : Nat} (own : List Nat)
    (h : Code.slotName slot ∈ statement.vars) :
    ∃ more, accesses (.tag (some statement) (slot :: own)) = .read slot :: more := by
  rw [accesses, List.filter_cons, if_pos (decide_eq_true h)]
  exact ⟨_, rfl⟩

/-- What fills a slot assigns it and no other. -/
theorem assigned_fill (slot : Nat) (vars : List String) :
    (accesses (.fill slot vars)).flatMap Access.assigned = [slot] := by
  simp [accesses, Access.assigned, List.flatMap_map]

/-- A tag assigns no slot. -/
theorem assigned_tag (statement : Option Code.Statement) (own : List Nat) :
    (accesses (.tag statement own)).flatMap Access.assigned = [] := by
  cases statement with
  | none => rfl
  | some statement =>
    simp [accesses, Access.assigned, List.flatMap_map]

end Segment

end TemplateCompiler
