import TemplateCompiler.Markup.Directive
import TemplateCompiler.Markup.RawCode
import TemplateCompiler.Source

/-!
# Feeds

A feed is what is left to read of a source: the rest of the current line and the lines after it.
`Feed.step` takes the next piece off it, and `Feed.size_lt_of_step` says that there is less left
afterwards, which is why every source comes to an end.
-/
namespace TemplateCompiler

/-- The first directive that counts in a reading. -/
def Reading.find? (reading : Reading) (line : Bytes) : Option Markup.Directive :=
  match reading with
  | .directives => Markup.Directive.first? line
  | .verbatim (some marker) => Markup.Directive.findMarker? marker line
  | .verbatim none => none

theorem Reading.ne_nil_of_find? {reading : Reading} {line : Bytes} {d : Markup.Directive}
    (h : reading.find? line = some d) : line ≠ [] := by
  unfold Reading.find? at h
  split at h
  · exact Markup.Directive.ne_nil_of_firstFrom h
  · exact Markup.Directive.ne_nil_of_findMarkerFrom h
  · simp at h

/-- What is left to read of a source. -/
structure Feed where
  /-- The rest of the current line. -/
  line : Bytes
  /-- Whether the line has not been checked for raw code yet. -/
  unchecked : Bool
  /-- The lines after the current one. -/
  rest : List Bytes
  deriving DecidableEq, Repr

namespace Feed

/-- The feed of a whole text. -/
def ofText (text : Bytes) : Feed :=
  ⟨[], false, Bytes.lines text⟩

/-- Whether nothing is left. -/
def atEnd (feed : Feed) : Bool :=
  feed.line.isEmpty && feed.rest.isEmpty

/-- How much is left: lines count first, then the check, then the bytes of the line. -/
def size (feed : Feed) : Nat × Nat × Nat :=
  (feed.rest.length, feed.unchecked.toNat, feed.line.length)

/-- The next piece of a feed, and what is left after it. -/
inductive Step where
  | done
  /-- A new line begins. -/
  | newLine (after : Feed)
  /-- The line has been checked for raw code, and its markers replaced. -/
  | checked (after : Feed)
  /-- The line has an executable marker. -/
  | forbidden
  /-- The rest of the line has no directive. -/
  | text (content : Bytes) (after : Feed)
  /-- A directive, and the text before it. -/
  | directive (before : Bytes) (d : Markup.Directive) (after : Feed)

/-- What is left after a step, if there is anything to go on with. -/
def Step.after? : Step → Option Feed
  | newLine after | checked after | text _ after | directive _ _ after => some after
  | done | forbidden => none

/-- Takes the next piece. A line is checked for raw code once, when directives are first looked for
in it; text that is copied verbatim is not checked. -/
def step (reading : Reading) (feed : Feed) : Step :=
  match feed.line, feed.rest with
  | [], [] => .done
  | [], line :: rest => .newLine ⟨line, true, rest⟩
  | line, rest =>
    if reading = .directives ∧ feed.unchecked = true then
      match Markup.RawCode.check line with
      | .executable _ => .forbidden
      | .clean => .checked ⟨line, false, rest⟩
      | .defused line => .checked ⟨line, false, rest⟩
    else
      match reading.find? line with
      | none => .text line ⟨[], feed.unchecked, rest⟩
      | some d => .directive (line.take d.start) d ⟨line.drop d.stop, feed.unchecked, rest⟩

theorem size_lt_of_step {reading : Reading} {feed after : Feed}
    (h : (feed.step reading).after? = some after) : Prod.Lex (· < ·) (Prod.Lex (· < ·) (· < ·))
      after.size feed.size := by
  obtain ⟨line, unchecked, rest⟩ := feed
  simp only [step] at h
  split at h
  · simp [Step.after?] at h
  · obtain rfl := Option.some.inj h
    exact Prod.Lex.left _ _ (by simp)
  · next hne =>
    split at h
    · next hc =>
      obtain ⟨-, rfl⟩ := hc
      split at h
      · simp [Step.after?] at h
      all_goals
        obtain rfl := Option.some.inj h
        exact Prod.Lex.right _ (Prod.Lex.left _ _ (by simp))
    · split at h
      · obtain rfl := Option.some.inj h
        refine Prod.Lex.right _ (Prod.Lex.right _ ?_)
        cases line with
        | nil => cases rest <;> simp_all
        | cons b more => simp
      · next d hd =>
        obtain rfl := Option.some.inj h
        refine Prod.Lex.right _ (Prod.Lex.right _ ?_)
        have := List.length_pos_iff.2 (Reading.ne_nil_of_find? hd)
        have := d.start_lt_stop
        simp only [List.length_drop]
        omega

end Feed

end TemplateCompiler
