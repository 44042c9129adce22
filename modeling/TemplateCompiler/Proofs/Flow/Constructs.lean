import TemplateCompiler.Proofs.Flow.Basic

/-!
# Constructs

Going through the segments of an artifact, conditions and loops are opened and closed
(`Segment.Scans`). Segments in which everything is closed in order are a structured program exactly
if no condition has a branch after its last one (`Segment.exists_flow_iff`).
-/
namespace TemplateCompiler

/-- What is open in the code. -/
inductive Construct where
  /-- A condition, and whether its last branch has begun. -/
  | condition (last : Bool)
  /-- A loop, and whether its code for the empty list has begun. -/
  | loop (hasNone : Bool)
  deriving DecidableEq, Repr

namespace Segment

/-- What a segment makes of the open constructs, the innermost first. If the scan is strict, no
branch can follow the last one. -/
inductive Shifts (strict : Bool) : Segment → List Construct → List Construct → Prop
  | straight {segment : Segment} {opened : List Construct} (h : segment.isStraight = true) :
    Shifts strict segment opened opened
  | ifThen {condition : Code.Condition} {own : List Nat} {opened : List Construct} :
    Shifts strict (.tag (some (.ifThen condition)) own) opened (.condition false :: opened)
  | elseIf {condition : Code.Condition} {own : List Nat} {last : Bool} {opened : List Construct}
    (h : strict = true → last = false) :
    Shifts strict (.tag (some (.elseIf condition)) own) (.condition last :: opened)
      (.condition last :: opened)
  | otherwise {own : List Nat} {last : Bool} {opened : List Construct}
    (h : strict = true → last = false) :
    Shifts strict (.tag (some .otherwise) own) (.condition last :: opened)
      (.condition true :: opened)
  | endIf {own : List Nat} {last : Bool} {opened : List Construct} :
    Shifts strict (.tag (some .endIf) own) (.condition last :: opened) opened
  | forEach {list item : Code.Expr} {own : List Nat} {opened : List Construct} :
    Shifts strict (.tag (some (.forEach list item)) own) opened (.loop false :: opened)
  | forNone {own : List Nat} {opened : List Construct} :
    Shifts strict (.tag (some .forNone) own) (.loop false :: opened) (.loop true :: opened)
  | endFor {hasNone : Bool} {own : List Nat} {opened : List Construct} :
    Shifts strict (.tag (some (.endFor hasNone)) own) (.loop hasNone :: opened) opened

/-- What segments make of the open constructs. -/
inductive Scans (strict : Bool) : List Segment → List Construct → List Construct → Prop
  | nil {opened : List Construct} : Scans strict [] opened opened
  | cons {segment : Segment} {segments : List Segment} {opened middle last : List Construct}
    (h : segment.Shifts strict opened middle) (hrest : Scans strict segments middle last) :
    Scans strict (segment :: segments) opened last

variable {strict : Bool} {first second segments : List Segment} {segment : Segment}
  {opened middle last : List Construct}

theorem Shifts.scans (h : segment.Shifts strict opened last) : Scans strict [segment] opened last :=
  .cons h .nil

theorem Scans.append (h : Scans strict first opened middle) (h' : Scans strict second middle last) :
    Scans strict (first ++ second) opened last := by
  induction h with
  | nil => exact h'
  | cons hshift _ ih => exact .cons hshift (ih h')

theorem Scans.exists_of_append (h : Scans strict (first ++ second) opened last) :
    ∃ middle, Scans strict first opened middle ∧ Scans strict second middle last := by
  induction first generalizing opened with
  | nil => exact ⟨opened, .nil, h⟩
  | cons segment first ih =>
    cases h with
    | cons hshift hrest =>
      obtain ⟨middle, hfirst, hsecond⟩ := ih hrest
      exact ⟨middle, .cons hshift hfirst, hsecond⟩

theorem Shifts.unique (h : segment.Shifts strict opened middle)
    (h' : segment.Shifts strict opened last) : middle = last := by
  cases h with
  | straight hstraight =>
    cases h' with
    | straight => rfl
    | _ => cases hstraight
  | _ =>
    cases h' with
    | straight hstraight => cases hstraight
    | _ => rfl

theorem Scans.unique (h : Scans strict segments opened middle)
    (h' : Scans strict segments opened last) : middle = last := by
  induction h with
  | nil =>
    cases h'
    rfl
  | cons hshift _ ih =>
    cases h' with
    | cons hshift' hrest' =>
      obtain rfl := hshift.unique hshift'
      exact ih hrest'

/-- Segments that neither open nor close anything. -/
theorem scans_straight (h : ∀ segment ∈ segments, segment.isStraight = true)
    (opened : List Construct) : Scans strict segments opened opened := by
  induction segments with
  | nil => exact .nil
  | cons segment segments ih =>
    obtain ⟨hfirst, hrest⟩ := List.forall_mem_cons.1 h
    exact .cons (.straight hfirst) (ih hrest)

/-- What is open outside of segments stays open around them. -/
theorem Shifts.weaken (h : segment.Shifts strict opened last) (outer : List Construct) :
    segment.Shifts strict (opened ++ outer) (last ++ outer) := by
  cases h with
  | straight h => exact .straight h
  | ifThen => exact .ifThen
  | elseIf h => exact .elseIf h
  | otherwise h => exact .otherwise h
  | endIf => exact .endIf
  | forEach => exact .forEach
  | forNone => exact .forNone
  | endFor => exact .endFor

theorem Scans.weaken (h : Scans strict segments opened last) (outer : List Construct) :
    Scans strict segments (opened ++ outer) (last ++ outer) := by
  induction h with
  | nil => exact .nil
  | cons hshift _ ih => exact .cons (hshift.weaken outer) ih

end Segment

open Segment

/-- A program leaves open what was open, and the rest of a condition closes it. -/
theorem Flow.scans {role : Flow.Role} (flow : Flow role) (strict : Bool) (opened : List Construct) :
    Scans strict flow.segments
      (match role with
        | .code => opened
        | .branch => .condition false :: opened) opened := by
  induction flow generalizing opened with
  | done => exact .nil
  | straight segment h rest ih => exact .cons (.straight h) (ih opened)
  | choice condition own body other rest ihBody ihOther ihRest =>
    exact .cons .ifThen (((ihBody _).append (ihOther opened)).append (ihRest opened))
  | loop list item own body close rest ihBody ihRest =>
    exact .cons .forEach ((ihBody _).append (.cons .endFor (ihRest opened)))
  | loopOr list item own body between other close rest ihBody ihOther ihRest =>
    exact .cons .forEach ((ihBody _).append
      (.cons .forNone ((ihOther _).append (.cons .endFor (ihRest opened)))))
  | endIf close => exact .cons .endIf .nil
  | elseIf condition own body other ihBody ihOther =>
    exact .cons (.elseIf fun _ => rfl) ((ihBody _).append (ihOther opened))
  | otherwise own body close ihBody =>
    exact .cons (.otherwise fun _ => rfl) ((ihBody _).append (.cons .endIf .nil))

namespace Segment

/-! ## Branches after the last one -/

/-- Whether a segment begins a further branch of a condition. -/
def isBranch : Segment → Bool
  | tag (some (.elseIf _)) _ => true
  | tag (some .otherwise) _ => true
  | _ => false

/-- Whether a condition has a branch after its last one. -/
def HasStrayBranch (segments : List Segment) : Prop :=
  ∃ (before : List Segment) (own : List Nat) (body : Flow .code) (further : Segment)
    (after : List Segment), further.isBranch = true ∧
    segments = before ++ .tag (some .otherwise) own :: (body.segments ++ further :: after)

theorem HasStrayBranch.cons (h : HasStrayBranch segments) (segment : Segment) :
    HasStrayBranch (segment :: segments) := by
  obtain ⟨before, own, body, further, after, hbranch, rfl⟩ := h
  exact ⟨segment :: before, own, body, further, after, hbranch, rfl⟩

/-- After a last branch, no strict scan passes another one. -/
theorem Scans.not_hasStrayBranch (h : Scans true segments opened last) :
    ¬ HasStrayBranch segments := by
  rintro ⟨before, own, body, further, after, hbranch, rfl⟩
  obtain ⟨middle, -, hrest⟩ := h.exists_of_append
  cases hrest with
  | cons hshift hrest =>
    cases hshift with
    | straight hstraight => cases hstraight
    | otherwise =>
      obtain ⟨inner, hbody, hfurther⟩ := hrest.exists_of_append
      obtain rfl := hbody.unique (body.scans true _)
      cases hfurther with
      | cons hshift _ =>
        cases hshift with
        | elseIf hlast => exact nomatch hlast rfl
        | otherwise hlast => exact nomatch hlast rfl
        | straight hstraight =>
          unfold isBranch at hbranch
          split at hbranch <;> first | cases hstraight | cases hbranch
        | _ => cases hbranch

end Segment

/-! ## From segments to programs -/

/-- Segments that continue a construct, up to its end. -/
def Construct.Closes : Construct → List Segment → Prop
  | condition false, part =>
    ∃ (body : Flow .code) (other : Flow .branch), part = body.segments ++ other.segments
  | condition true, part =>
    ∃ (body : Flow .code) (close : List Nat),
      part = body.segments ++ [.tag (some .endIf) close]
  | loop false, part =>
    ∃ body : Flow .code,
      (∃ close, part = body.segments ++ [.tag (some (.endFor false)) close]) ∨
      ∃ (between : List Nat) (other : Flow .code) (close : List Nat),
        part = body.segments ++ .tag (some .forNone) between ::
          (other.segments ++ [.tag (some (.endFor true)) close])
  | loop true, part =>
    ∃ (other : Flow .code) (close : List Nat),
      part = other.segments ++ [.tag (some (.endFor true)) close]

/-- Segments that continue all open constructs up to their ends and then are a program, unless one
of the conditions gets a branch after its last one. -/
def Construct.Finishes : List Construct → List Segment → Prop
  | [], segments => ∃ flow : Flow .code, flow.segments = segments
  | construct :: opened, segments =>
    (∃ part rest, segments = part ++ rest ∧ construct.Closes part ∧ Finishes opened rest) ∨
      construct = .condition true ∧ ∃ (body : Flow .code) (further : Segment)
        (after : List Segment), further.isBranch = true ∧
        segments = body.segments ++ further :: after

/-- Whether segments can stand in front of every program. -/
def Flow.Leads (front : List Segment) : Prop :=
  ∀ flow : Flow .code, ∃ whole : Flow .code, whole.segments = front ++ flow.segments

namespace Construct

variable {construct : Construct} {opened : List Construct} {front part segments : List Segment}

theorem Closes.lead (hfront : Flow.Leads front) (h : construct.Closes part) :
    construct.Closes (front ++ part) := by
  match construct, h with
  | .condition false, ⟨body, other, heq⟩ =>
    obtain ⟨whole, hwhole⟩ := hfront body
    exact ⟨whole, other, by rw [heq, hwhole, List.append_assoc]⟩
  | .condition true, ⟨body, close, heq⟩ =>
    obtain ⟨whole, hwhole⟩ := hfront body
    exact ⟨whole, close, by rw [heq, hwhole, List.append_assoc]⟩
  | .loop false, ⟨body, .inl ⟨close, heq⟩⟩ =>
    obtain ⟨whole, hwhole⟩ := hfront body
    exact ⟨whole, .inl ⟨close, by rw [heq, hwhole, List.append_assoc]⟩⟩
  | .loop false, ⟨body, .inr ⟨between, other, close, heq⟩⟩ =>
    obtain ⟨whole, hwhole⟩ := hfront body
    exact ⟨whole, .inr ⟨between, other, close, by rw [heq, hwhole, List.append_assoc]⟩⟩
  | .loop true, ⟨other, close, heq⟩ =>
    obtain ⟨whole, hwhole⟩ := hfront other
    exact ⟨whole, close, by rw [heq, hwhole, List.append_assoc]⟩

theorem Finishes.lead (hfront : Flow.Leads front) (h : Finishes opened segments) :
    Finishes opened (front ++ segments) := by
  cases opened with
  | nil =>
    obtain ⟨flow, rfl⟩ := h
    exact hfront flow
  | cons construct opened =>
    rcases h with ⟨part, rest, rfl, hcloses, hrest⟩ | ⟨rfl, body, further, after, hbranch, rfl⟩
    · exact .inl ⟨front ++ part, rest, (List.append_assoc _ _ _).symm, hcloses.lead hfront, hrest⟩
    · obtain ⟨whole, hwhole⟩ := hfront body
      refine .inr ⟨rfl, whole, further, after, hbranch, ?_⟩
      rw [hwhole, List.append_assoc]

/-- What closes an open condition or loop makes it whole. -/
theorem leads_choice {condition : Code.Condition} {own : List Nat}
    (h : (Construct.condition false).Closes part) :
    Flow.Leads (.tag (some (.ifThen condition)) own :: part) := by
  obtain ⟨body, other, rfl⟩ := h
  exact fun flow => ⟨.choice condition own body other flow, rfl⟩

theorem leads_loop {list item : Code.Expr} {own : List Nat}
    (h : (Construct.loop false).Closes part) :
    Flow.Leads (.tag (some (.forEach list item)) own :: part) := by
  obtain ⟨body, ⟨close, rfl⟩ | ⟨between, other, close, rfl⟩⟩ := h
  · exact fun flow => ⟨.loop list item own body close flow, by simp [Flow.segments]⟩
  · exact fun flow => ⟨.loopOr list item own body between other close flow, by
      simp [Flow.segments]⟩

/-- A segment in front of what continues the innermost construct. -/
theorem Finishes.cons {construct' : Construct} {segment : Segment}
    (h : Finishes (construct :: opened) segments) (hlast : construct ≠ .condition true)
    (hcloses : ∀ part, construct.Closes part → construct'.Closes (segment :: part)) :
    Finishes (construct' :: opened) (segment :: segments) := by
  obtain ⟨part, rest, rfl, hpart, hrest⟩ := h.resolve_right fun h => hlast h.1
  exact .inl ⟨segment :: part, rest, rfl, hcloses part hpart, hrest⟩

/-- A segment that closes the innermost construct. -/
theorem Finishes.close {segment : Segment} (h : Finishes opened segments)
    (hcloses : construct.Closes [segment]) : Finishes (construct :: opened) (segment :: segments) :=
  .inl ⟨[segment], segments, rfl, hcloses, h⟩

/-- Segments after which nothing is open finish what was open before, or a condition among them has
a branch after its last one. -/
theorem finishes_of_scans (h : Scans false segments opened []) :
    Finishes opened segments ∨ HasStrayBranch segments := by
  -- from the segment in front: what follows it is read first, with what the segment leaves open
  induction segments generalizing opened with
  | nil =>
    cases h
    exact .inl ⟨.done, rfl⟩
  | cons segment segments ih =>
    obtain _ | ⟨hshift, hrest⟩ := h
    -- a branch that strays further on strays here too
    refine (ih hrest).elim (fun hfinishes => ?_) fun hstray => .inr (hstray.cons segment)
    cases hshift with
    | straight hstraight =>
      have hlead : Flow.Leads [segment] := fun flow => ⟨.straight segment hstraight flow, rfl⟩
      exact .inl (hfinishes.lead hlead)
    | ifThen =>
      obtain ⟨part, rest, rfl, hpart, hfinishes⟩ := hfinishes.resolve_right (by simp)
      exact .inl (hfinishes.lead (leads_choice hpart))
    | @elseIf condition own last opened =>
      cases last with
      | false =>
        refine .inl (hfinishes.cons (by simp) ?_)
        rintro _ ⟨body, other, rfl⟩
        exact ⟨.done, .elseIf condition own body other, rfl⟩
      -- a branch where the last one has begun: astray as soon as that `else` is met
      | true => exact .inl (.inr ⟨rfl, .done, _, segments, rfl, rfl⟩)
    | @otherwise own last opened =>
      cases last with
      | true => exact .inl (.inr ⟨rfl, .done, _, segments, rfl, rfl⟩)
      | false =>
        rcases hfinishes with ⟨_, rest, rfl, ⟨body, close, rfl⟩, hfinishes⟩ |
          ⟨-, body, further, after, hbranch, rfl⟩
        · exact .inl (.inl ⟨_, rest, rfl, ⟨.done, .otherwise own body close, rfl⟩, hfinishes⟩)
        · exact .inr ⟨[], own, body, further, after, hbranch, rfl⟩
    | @endIf own last =>
      refine .inl (hfinishes.close ?_)
      cases last with
      | false => exact ⟨.done, .endIf own, rfl⟩
      | true => exact ⟨.done, own, rfl⟩
    | forEach =>
      obtain ⟨part, rest, rfl, hpart, hfinishes⟩ := hfinishes.resolve_right (by simp)
      exact .inl (hfinishes.lead (leads_loop hpart))
    | @forNone own =>
      refine .inl (hfinishes.cons (by simp) ?_)
      rintro _ ⟨other, close, rfl⟩
      exact ⟨.done, .inr ⟨own, other, close, rfl⟩⟩
    | @endFor hasNone own =>
      refine .inl (hfinishes.close ?_)
      cases hasNone with
      | false => exact ⟨.done, .inl ⟨own, rfl⟩⟩
      | true => exact ⟨.done, own, rfl⟩

end Construct

/-- **Structured programs**: where everything that is opened is closed in order, segments are a
program exactly if no condition has a branch after its last one. -/
theorem Segment.exists_flow_iff {segments : List Segment} (h : Scans false segments [] []) :
    (∃ flow : Flow .code, flow.segments = segments) ↔ ¬ HasStrayBranch segments := by
  constructor
  · rintro ⟨flow, rfl⟩
    exact (flow.scans true []).not_hasStrayBranch
  · exact (Construct.finishes_of_scans h).resolve_right

end TemplateCompiler
