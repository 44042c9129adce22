import Mathlib.Data.List.Induction
import TemplateCompiler.Proofs.Outcome

/-!
# Words of paired tags

Paired tags are brackets of several kinds, with tags between two of a pair that divide what stands
there. A word of brackets is read with a stack of the kinds that are open (`follow`), and the first
bracket that does not fit is its fault (`trace`). Reading comes to the end of a word exactly if the word
is balanced but for openers that are left over, and these are then what the stack holds
(`follow_iff`, `trace_ok_iff`, `trace_error_iff`).
-/
namespace TemplateCompiler

/-- What a paired tag does. -/
inductive Bracket where
  | opens (kind : String)
  | closes (kind : String)
  /-- It stands between the two tags of a pair, and in no pair inside of it. -/
  | divides (kind : String)
  deriving DecidableEq, Repr

namespace Bracket

/-- Why a paired tag does not fit. -/
inductive Fault where
  /-- It closes another kind than that of the innermost open tag. -/
  | mismatch (innermost : String)
  /-- It closes, and no tag is open. -/
  | unopened
  /-- It divides another kind than that of the innermost open tag. -/
  | notNested (kind : String)
  deriving DecidableEq, Repr

/-- What is wrong with a tag where the given kinds are open, the innermost first. -/
def fault? (stack : List String) : Bracket → Option Fault
  | opens _ => none
  | closes kind =>
    match stack with
    | [] => some .unopened
    | top :: _ => if top = kind then none else some (.mismatch top)
  | divides kind => if stack.head? = some kind then none else some (.notNested kind)

/-- What is open after a tag that fits. -/
def next (stack : List String) : Bracket → List String
  | opens kind => kind :: stack
  | closes _ => stack.tail
  | divides _ => stack

/-- What is open after a word, if all of its tags fit. -/
def follow (stack : List String) : List Bracket → Option (List String)
  | [] => some stack
  | bracket :: word =>
    match bracket.fault? stack with
    | some _ => none
    | none => follow (bracket.next stack) word

/-! ## Balanced words -/

/-- Words in which every pair is complete, to be read where `top` is the kind of the innermost open
tag. -/
inductive Balanced : Option String → List Bracket → Prop
  | nil (top : Option String) : Balanced top []
  | divide {kind : String} {word : List Bracket} (h : Balanced (some kind) word) :
    Balanced (some kind) (divides kind :: word)
  | pair {top : Option String} {kind : String} {body word : List Bracket}
    (hbody : Balanced (some kind) body) (h : Balanced top word) :
    Balanced top (opens kind :: (body ++ closes kind :: word))

/-- Words that are balanced but for the openers that are left over, the last one first. -/
inductive Leaves : List String → List Bracket → Prop
  | balanced {word : List Bracket} (h : Balanced none word) : Leaves [] word
  | opened {stack : List String} {kind : String} {before after : List Bracket}
    (hbefore : Leaves stack before) (hafter : Balanced (some kind) after) :
    Leaves (kind :: stack) (before ++ opens kind :: after)

variable {stack stack' : List String} {top : Option String} {word word' : List Bracket}

theorem Balanced.append (h : Balanced top word) (h' : Balanced top word') :
    Balanced top (word ++ word') := by
  induction h with
  | nil => exact h'
  | divide _ ih => exact .divide (ih h')
  | pair hbody _ _ ih =>
    rw [List.cons_append, List.append_assoc, List.cons_append]
    exact .pair hbody (ih h')

theorem Leaves.append (h : Leaves stack word) (h' : Balanced stack.head? word') :
    Leaves stack (word ++ word') := by
  cases h with
  | balanced hword => exact .balanced (hword.append h')
  | opened hbefore hafter =>
    rw [List.append_assoc, List.cons_append]
    exact .opened hbefore (hafter.append h')

/-- **One more tag**: if it fits, what it leaves open is left over by the longer word. -/
theorem Leaves.concat (h : Leaves stack word) {bracket : Bracket}
    (hfits : bracket.fault? stack = none) : Leaves (bracket.next stack) (word ++ [bracket]) := by
  cases bracket with
  | opens kind => exact .opened h (.nil _)
  | closes kind =>
    cases h with
    | balanced => cases hfits
    | @opened stack top before after hbefore hafter =>
      obtain rfl : top = kind := by
        by_contra hne
        rw [fault?, if_neg hne] at hfits
        cases hfits
      -- the opener is left over no longer, and with what follows it makes a pair
      rw [List.append_assoc, List.cons_append]
      exact hbefore.append (.pair hafter (.nil _))
  | divides kind =>
    have hhead : stack.head? = some kind := by
      by_contra hne
      rw [fault?, if_neg hne] at hfits
      cases hfits
    exact h.append (hhead ▸ .divide (.nil _))

/-! ## Reading a word -/

theorem follow_append : follow stack (word ++ word') = (follow stack word).bind (follow · word') := by
  induction word generalizing stack with
  | nil => rfl
  | cons bracket word ih =>
    rw [List.cons_append, follow, follow]
    cases bracket.fault? stack with
    | some fault => rfl
    | none => exact ih

/-- A balanced word leaves open what was open before. -/
theorem Balanced.follow (h : Balanced stack.head? word) : follow stack word = some stack := by
  generalize hhead : stack.head? = top at h
  induction h generalizing stack with
  | nil => rfl
  | divide _ ih => rw [Bracket.follow, fault?, if_pos hhead]; exact ih hhead
  | @pair top kind body word _ _ ihbody ih =>
    show Bracket.follow (kind :: stack) (body ++ closes kind :: word) = _
    rw [follow_append, ihbody rfl, Option.bind_some, Bracket.follow, fault?, if_pos rfl]
    exact ih hhead

/-- **Words of brackets**: reading comes to the end exactly if the word is balanced but for what is
open then. -/
theorem follow_iff : follow [] word = some stack ↔ Leaves stack word := by
  constructor
  · intro h
    -- what is left over changes at the end of a word, so induction takes the last bracket off
    induction word using List.reverseRecOn generalizing stack with
    | nil =>
      obtain rfl := Option.some.inj h
      exact .balanced (.nil _)
    | append_singleton word bracket ih =>
      rw [follow_append] at h
      obtain ⟨middle, hmiddle, hlast⟩ := Option.bind_eq_some_iff.1 h
      rw [follow] at hlast
      cases hfits : bracket.fault? middle with
      | some fault =>
        rw [hfits] at hlast
        cases hlast
      | none =>
        rw [hfits] at hlast
        obtain rfl := Option.some.inj hlast
        exact (ih hmiddle).concat hfits
  · intro h
    induction h with
    | balanced hword => exact Balanced.follow hword
    | opened _ hafter ih =>
      rw [follow_append, ih, Option.bind_some]
      exact @Balanced.follow (_ :: _) _ hafter

theorem leaves_nil_iff : Leaves [] word ↔ Balanced none word := by
  refine ⟨fun h => ?_, .balanced⟩
  cases h
  assumption

theorem Leaves.unique (h : Leaves stack word) (h' : Leaves stack' word) : stack = stack' :=
  Option.some.inj ((follow_iff.2 h).symm.trans (follow_iff.2 h'))

/-- What is left over has been opened. -/
theorem Leaves.mem (h : Leaves stack word) : ∀ kind ∈ stack, opens kind ∈ word := by
  induction h with
  | balanced => nofun
  | opened _ _ ih =>
    intro kind hkind
    rcases List.mem_cons.1 hkind with rfl | hrest
    · exact List.mem_append_right _ List.mem_cons_self
    · exact List.mem_append_left _ (ih kind hrest)

/-! ## Tags and their lines -/

/-- The paired tags by name. -/
def table : List (String × Bracket) :=
  [("if", .opens "if"), ("elseif", .divides "if"), ("else", .divides "if"), ("endif", .closes "if"),
    ("for", .opens "for"), ("empty", .divides "for"), ("endfor", .closes "for"),
    ("with", .opens "with"), ("endwith", .closes "with"),
    ("block", .opens "block"), ("endblock", .closes "block"),
    ("literal", .opens "literal"), ("endliteral", .closes "literal"),
    ("comment", .opens "comment"), ("endcomment", .closes "comment")]

/-- The kinds of the pairs. -/
def kinds : List String :=
  ["if", "for", "with", "block", "literal", "comment"]

/-- What a tag of this name does, if it is a paired one. -/
def ofTag? (name : String) : Option Bracket :=
  table.lookup name

/-- The paired ones among tags that stand on lines. -/
def ofTags (tags : List (Nat × String)) : List Bracket :=
  tags.filterMap fun tag => ofTag? tag.2

/-- What is wrong with a tag, if it is a paired one that does not fit. -/
def faultOf? (stack : List String) (name : String) : Option Fault :=
  (ofTag? name).bind (·.fault? stack)

/-- What is open after a tag. -/
def nextOf (stack : List String) (name : String) : List String :=
  (ofTag? name).elim stack (·.next stack)

/-- What is open after tags that stand on lines, or the first of them that does not fit. -/
def trace (stack : List String) : List (Nat × String) → Except (Nat × String × Fault) (List String)
  | [] => .ok stack
  | (line, name) :: tags =>
    match faultOf? stack name with
    | some fault => .error (line, name, fault)
    | none => trace (nextOf stack name) tags

/-- The first tag that does not fit, where the tags before it have left their openers open. -/
def Faults (tags : List (Nat × String)) (line : Nat) (name : String) (fault : Fault) : Prop :=
  ∃ before after stack, tags = before ++ (line, name) :: after ∧ Leaves stack (ofTags before) ∧
    faultOf? stack name = some fault

variable {tags : List (Nat × String)} {line : Nat} {name : String} {fault : Fault}

theorem mem_kinds {kind : String} (h : opens kind ∈ ofTags tags) : kind ∈ kinds := by
  obtain ⟨tag, -, htag⟩ := List.mem_filterMap.1 h
  have htable : ∀ entry ∈ table, ∀ kind, entry.2 = opens kind → kind ∈ kinds := by
    simp [table, kinds]
  exact htable _ (mem_of_lookup htag) kind rfl

theorem follow_ofTags_cons : follow stack (ofTags ((line, name) :: tags)) =
    match faultOf? stack name with
    | some _ => none
    | none => follow (nextOf stack name) (ofTags tags) := by
  unfold ofTags faultOf? nextOf
  rw [List.filterMap_cons]
  cases ofTag? name <;> rfl

theorem trace_ok : trace stack tags = .ok stack' ↔ follow stack (ofTags tags) = some stack' := by
  induction tags generalizing stack with
  | nil => exact ⟨fun h => congrArg some (Except.ok.inj h), fun h => congrArg _ (Option.some.inj h)⟩
  | cons tag tags ih =>
    obtain ⟨line, name⟩ := tag
    rw [trace, follow_ofTags_cons]
    cases faultOf? stack name with
    | some fault => exact ⟨nofun, nofun⟩
    | none => exact ih

theorem trace_error : trace stack tags = .error (line, name, fault) ↔
    ∃ before after stack', tags = before ++ (line, name) :: after ∧
      follow stack (ofTags before) = some stack' ∧ faultOf? stack' name = some fault := by
  induction tags generalizing stack with
  | nil =>
    refine ⟨nofun, ?_⟩
    rintro ⟨before, after, stack', heq, -⟩
    exact absurd heq.symm (by simp)
  | cons tag tags ih =>
    obtain ⟨line', name'⟩ := tag
    rw [trace]
    cases hfault : faultOf? stack name' with
    | some fault' =>
      constructor
      · intro h
        obtain ⟨rfl, rfl, rfl⟩ : line' = line ∧ name' = name ∧ fault' = fault := by simpa using h
        exact ⟨[], tags, stack, rfl, rfl, hfault⟩
      · rintro ⟨before, after, stack', heq, hfollow, hlast⟩
        cases before with
        | nil =>
          obtain ⟨htag, -⟩ := List.cons.inj heq
          obtain ⟨rfl, rfl⟩ := Prod.mk.inj htag
          obtain rfl := Option.some.inj hfollow
          rw [Option.some.inj (hfault.symm.trans hlast)]
        | cons first before =>
          obtain ⟨rfl, -⟩ := List.cons.inj heq
          rw [follow_ofTags_cons, hfault] at hfollow
          cases hfollow
    | none =>
      -- a tag that fits stands before the fault, in the rest as in the whole
      dsimp only
      rw [ih]
      constructor
      · rintro ⟨before, after, stack', rfl, hfollow, hlast⟩
        refine ⟨(line', name') :: before, after, stack', rfl, ?_, hlast⟩
        rw [follow_ofTags_cons, hfault]
        exact hfollow
      · rintro ⟨before, after, stack', heq, hfollow, hlast⟩
        cases before with
        | nil =>
          obtain ⟨htag, -⟩ := List.cons.inj heq
          obtain ⟨rfl, rfl⟩ := Prod.mk.inj htag
          obtain rfl := Option.some.inj hfollow
          rw [hfault] at hlast
          cases hlast
        | cons first before =>
          obtain ⟨rfl, rfl⟩ := List.cons.inj heq
          rw [follow_ofTags_cons, hfault] at hfollow
          exact ⟨before, after, stack', rfl, hfollow, hlast⟩

/-- What is met goes on from what was open before, unless a tag did not fit. -/
theorem trace_append_eq (stack : List String) (tags tags' : List (Nat × String)) :
    trace stack (tags ++ tags') = (trace stack tags).bind (trace · tags') := by
  induction tags generalizing stack with
  | nil => rfl
  | cons tag tags ih =>
    obtain ⟨line, name⟩ := tag
    rw [List.cons_append, trace, trace]
    cases faultOf? stack name with
    | some fault => rfl
    | none => exact ih _

theorem trace_append (h : trace stack tags = .ok stack') (tags' : List (Nat × String)) :
    trace stack (tags ++ tags') = trace stack' tags' := by
  rw [trace_append_eq, h]
  rfl

theorem trace_append_error {found : Nat × String × Fault} (h : trace stack tags = .error found)
    (tags' : List (Nat × String)) : trace stack (tags ++ tags') = .error found := by
  rw [trace_append_eq, h]
  rfl

/-- **The end of a word**: all tags fit exactly if they are balanced but for what is open then. -/
theorem trace_ok_iff : trace [] tags = .ok stack ↔ Leaves stack (ofTags tags) :=
  trace_ok.trans follow_iff

/-- **The first fault** is where reading stops. -/
theorem trace_error_iff :
    trace [] tags = .error (line, name, fault) ↔ Faults tags line name fault := by
  rw [trace_error]
  simp only [follow_iff]
  exact Iff.rfl

/-- No reading that comes to the end meets a tag that does not fit. -/
theorem Faults.not_leaves (h : Faults tags line name fault) : ¬ Leaves stack (ofTags tags) := by
  intro hleaves
  have hboth := (trace_error_iff.2 h).symm.trans (trace_ok_iff.2 hleaves)
  cases hboth

theorem Faults.unique {line' : Nat} {name' : String} {fault' : Fault}
    (h : Faults tags line name fault) (h' : Faults tags line' name' fault') :
    line' = line ∧ name' = name ∧ fault' = fault := by
  have hboth := (trace_error_iff.2 h').symm.trans (trace_error_iff.2 h)
  simpa using hboth

end Bracket

end TemplateCompiler
