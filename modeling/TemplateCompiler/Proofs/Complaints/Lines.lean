import TemplateCompiler.Proofs.RawCode.Exact
import TemplateCompiler.Proofs.RawCode.Extent
import TemplateCompiler.Proofs.Rendering.Verbatim
import TemplateCompiler.Proofs.Scanning.Grammar

/-!
# Lines of a text that is being read

A feed is what is left of a text, but for markers that have been printed in its first line
(`Feed.Stands`). It goes on from line to line as the number does that counts them, so that number is the
one of the line in which the next directive opens, or in which the next executable marker stands
(`Feed.Stands.directive`, `Feed.Stands.forbidden`).
-/
namespace TemplateCompiler

open Markup Markup.RawCode

/-! ## Cutting into lines -/

namespace Bytes

/-- The line on which a byte of a text stands. Lines are counted from one. -/
def lineAt (text : Bytes) (offset : Nat) : Nat :=
  1 + breaks (text.take offset)

theorem breaks_append (front rest : Bytes) : breaks (front ++ rest) = breaks front + breaks rest :=
  List.count_append

theorem lines_of_notMem {text : Bytes} (h : 0x0a ∉ text) : (lines text).tail = [] := by
  cases text with
  | nil => rfl
  | cons b rest =>
    have hlines := lines_append h (List.cons_ne_nil b rest) []
    rw [List.append_nil] at hlines
    rw [hlines]
    rfl

/-- **Lines** are cut after each break: before a line there is one for each line before it, and in front
of something else on the line there is none. -/
theorem breaks_of_lines {text front here : Bytes} {done rest : List Bytes}
    (h : lines text = done ++ (front ++ here) :: rest) (hne : here ≠ []) :
    breaks (done.flatten ++ front) = done.length := by
  induction done generalizing text with
  | nil =>
    -- a break ends its line, so it is not in front of what else is on the line
    have hfirst : firstLine text = front ++ here := by
      rw [firstLine, h]
      rfl
    rw [List.flatten_nil, List.nil_append]
    refine List.count_eq_zero.2 fun hmem => ?_
    rcases firstLine_cases text with ⟨hnone, hline⟩ | ⟨x, y, hx, -, hline⟩
    · rw [← hline, hfirst] at hnone
      exact hnone (List.mem_append_left _ hmem)
    · rw [hfirst] at hline
      obtain ⟨last, hlast⟩ := List.eq_nil_or_concat here |>.resolve_left hne
      obtain ⟨more, rfl⟩ := hlast
      rw [List.concat_eq_append, ← List.append_assoc] at hline
      obtain ⟨rfl, -⟩ := List.append_inj' hline rfl
      exact hx (List.mem_append_left _ hmem)
  | cons line done ih =>
    rcases firstLine_cases text with ⟨hnone, -⟩ | ⟨x, y, hx, rfl, -⟩
    · have htail := lines_of_notMem hnone
      rw [h, List.cons_append, List.tail_cons] at htail
      exact absurd htail (by simp)
    · rw [lines_append_break hx, List.cons_append] at h
      obtain ⟨rfl, hrest⟩ := List.cons.inj h
      have hbreak : breaks (x ++ [0x0a]) = 1 := by
        rw [breaks_append, breaks, List.count_eq_zero.2 hx]
        rfl
      rw [List.flatten_cons, List.append_assoc, breaks_append, hbreak, ih hrest, List.length_cons,
        Nat.add_comm]

end Bytes

/-! ## Steps of a feed -/

namespace Feed

/-- What a step finds, and what it leaves. -/
inductive Steps (reading : Reading) : Feed → Step → Prop
  | done {unchecked : Bool} : Steps reading ⟨[], unchecked, []⟩ .done
  | newLine {unchecked : Bool} {line : Bytes} {rest : List Bytes} :
    Steps reading ⟨[], unchecked, line :: rest⟩ (.newLine ⟨line, true, rest⟩)
  | forbidden {line : Bytes} {rest : List Bytes} {offset : Nat} (hreading : reading = .directives)
    (hcheck : check line = .executable offset) : Steps reading ⟨line, true, rest⟩ .forbidden
  | checked {line after : Bytes} {rest : List Bytes} (hreading : reading = .directives)
    (hcheck : check line = .clean ∧ after = line ∨ check line = .defused after) :
    Steps reading ⟨line, true, rest⟩ (.checked ⟨after, false, rest⟩)
  | text {line : Bytes} {unchecked : Bool} {rest : List Bytes}
    (hchecked : reading = .directives → unchecked = false) :
    Steps reading ⟨line, unchecked, rest⟩ (.text line ⟨[], unchecked, rest⟩)
  | directive {line : Bytes} {unchecked : Bool} {rest : List Bytes} {d : Directive}
    (hchecked : reading = .directives → unchecked = false)
    (hfind : reading.find? line = some d) :
    Steps reading ⟨line, unchecked, rest⟩
      (.directive (line.take d.start) d ⟨line.drop d.stop, unchecked, rest⟩)

theorem steps_step (reading : Reading) (feed : Feed) : Steps reading feed (feed.step reading) := by
  obtain ⟨line, unchecked, rest⟩ := feed
  unfold step
  dsimp only
  split
  · exact .done
  · exact .newLine
  · split
    · next hdirectives =>
      obtain ⟨hreading, rfl⟩ := hdirectives
      split
      · next hcheck => exact .forbidden hreading hcheck
      · next hcheck => exact .checked hreading (.inl ⟨hcheck, rfl⟩)
      · next hcheck => exact .checked hreading (.inr hcheck)
    · next hdirectives =>
      have hchecked (hreading : reading = .directives) : unchecked = false :=
        Bool.eq_false_iff.2 fun hunchecked => hdirectives ⟨hreading, hunchecked⟩
      split
      · exact .text hchecked
      · next d hfind => exact .directive hchecked hfind

/-! ## Where a feed stands -/

/-- The feed is what is left of the text where its line of this number is being read, and where no line
is read yet at zero. A line that has been checked has its markers printed. -/
inductive Stands (text : Bytes) : Nat → Feed → Prop
  | begins : Stands text 0 (ofText text)
  | within {done rest : List Bytes} {front here line : Bytes} {unchecked : Bool}
    (hlines : Bytes.lines text = done ++ (front ++ here) :: rest)
    (hline : if unchecked then line = here else Prints here line) :
    Stands text (done.length + 1) ⟨line, unchecked, rest⟩

/-- The directive, which comes next in the line, opens at this byte of the text: from there on the text
is the rest of the line, its markers printed or not, and then the other lines. -/
structure Opens (feed : Feed) (text : Bytes) (d : Directive) (offset : Nat) : Prop where
  opener : d.opener.bytes <+: text.drop offset
  left : ∃ here, text.drop offset = here ++ feed.rest.flatten ∧
    (feed.line.drop d.start = here ∨ Prints here (feed.line.drop d.start))

/-- The first executable marker of the rest of the line stands at this byte of the text. -/
structure Forbids (feed : Feed) (text : Bytes) (offset : Nat) : Prop where
  marker : ExecutableAt text offset
  first : ∃ start i, offset = start + i ∧ text.drop start = feed.line ++ feed.rest.flatten ∧
    IsLeast {i | ExecutableAt feed.line i} i

end Feed

/-! ## Openers and markers -/

/-- A marker is not changed by what comes after its line. -/
theorem Markup.RawCode.ExecutableAt.append {line : Bytes} {i : Nat} (h : ExecutableAt line i)
    (more : Bytes) : ExecutableAt (line ++ more) i := by
  have hdrop (j : Nat) : line.drop j <+: (line ++ more).drop j := by
    rw [List.drop_append]
    exact List.prefix_append _ _
  exact ⟨h.1.imp (·.trans (hdrop _)) (·.trans (hdrop _)),
    h.2.imp (·.trans (hdrop _)) (.imp (·.trans (hdrop _)) (·.trans (hdrop _)))⟩

theorem Markup.Directive.findMarkerFrom_opener {marker : String} {offset : Nat} {line : Bytes}
    {d : Directive} (h : findMarkerFrom marker offset line = some d) :
    ∃ front rest, line = front ++ (d.opener.bytes ++ rest) ∧ d.start = offset + front.length := by
  obtain ⟨front, b, c, rest, rfl, hopener, hread⟩ := findMarkerFrom_reads h
  obtain ⟨c, hnext, hbytes⟩ := opener?_eq_some_iff.1 hopener
  obtain rfl := Option.some.inj hnext
  dsimp only [readMarker?] at hread
  split at hread
  · obtain rfl := Option.some.inj hread
    exact ⟨front, rest, by rw [hbytes]; rfl, rfl⟩
  · cases hread

/-- What is found begins with its opener. -/
theorem Reading.find?_opener {reading : Reading} {line : Bytes} {d : Directive}
    (h : reading.find? line = some d) : d.opener.bytes <+: line.drop d.start := by
  unfold Reading.find? at h
  split at h
  · have hspec := Directive.firstFrom_spec (List.drop_zero (l := line))
    rw [show Directive.firstFrom 0 line = some d from h] at hspec
    obtain ⟨_, _, _, _, hwritten⟩ := hspec.2.1
    exact hwritten.text_eq ▸ List.prefix_append _ _
  · obtain ⟨front, rest, rfl, hstart⟩ := Directive.findMarkerFrom_opener h
    rw [hstart, Nat.zero_add, List.drop_left]
    exact List.prefix_append _ _
  · cases h

/-- An opener is printed as it is. -/
theorem Markup.RawCode.Prints.opener {text line : Bytes} {kind : Kind} (h : Prints text line)
    (hopener : kind.bytes <+: line) : kind.bytes <+: text := by
  obtain ⟨rest, rfl⟩ := hopener
  cases kind with
  | tag =>
    obtain ⟨_, rfl, hrest⟩ := h.cons (by decide)
    obtain ⟨more, rfl, -⟩ := hrest.cons (by decide)
    exact ⟨more, rfl⟩
  | «variable» =>
    obtain ⟨_, rfl, hrest⟩ := h.cons (by decide)
    obtain ⟨more, rfl, -⟩ := hrest.cons (by decide)
    exact ⟨more, rfl⟩

/-! ## Steps where a feed stands -/

namespace Feed

variable {text : Bytes} {n : Nat} {feed : Feed} {reading : Reading}

/-- What is left of a text is the rest of a line and the other lines. -/
theorem drop_of_lines {done rest : List Bytes} {front here : Bytes}
    (h : Bytes.lines text = done ++ (front ++ here) :: rest) :
    text.drop (done.flatten ++ front).length = here ++ rest.flatten := by
  have htext := Bytes.flatten_lines text
  rw [h, List.flatten_append, List.flatten_cons, List.append_assoc, ← List.append_assoc] at htext
  rw [← htext, List.drop_left]

theorem lineAt_of_lines {done rest : List Bytes} {front here : Bytes}
    (h : Bytes.lines text = done ++ (front ++ here) :: rest) (hne : here ≠ []) :
    done.length + 1 = Bytes.lineAt text (done.flatten ++ front).length := by
  have htext := Bytes.flatten_lines text
  rw [h, List.flatten_append, List.flatten_cons, List.append_assoc, ← List.append_assoc] at htext
  rw [Bytes.lineAt]
  conv_rhs => rw [← htext, List.take_left, Bytes.breaks_of_lines h hne]
  exact Nat.add_comm _ _

/-- A line in which a directive is found is cut before and after it, and so is what it prints. -/
theorem exists_cut {line here : Bytes} {unchecked : Bool} {d : Directive}
    (hline : if unchecked then line = here else Prints here line)
    (hfind : reading.find? line = some d) :
    ∃ front unit back, here = front ++ (unit ++ back) ∧ d.opener.bytes <+: unit ++ back ∧
      (line.drop d.start = unit ++ back ∨ Prints (unit ++ back) (line.drop d.start)) ∧
      (if unchecked then line.drop d.stop = back else Prints back (line.drop d.stop)) := by
  have hopener := Reading.find?_opener hfind
  obtain ⟨before, written, after, rfl, hstands⟩ := Reading.find?_stands hfind
  have hstart : d.start = before.length := hstands.start.trans (Nat.zero_add _)
  have hstop : d.stop = (before ++ written).length := by
    rw [hstands.stop, hstart, List.length_append]
  have hback : (before ++ (written ++ after)).drop d.stop = after := by
    rw [hstop, ← List.append_assoc, List.drop_left]
  rw [hstart, List.drop_left] at hopener ⊢
  rw [hback]
  cases unchecked with
  | true => exact ⟨before, written, after, hline.symm, hopener, .inl rfl, rfl⟩
  | false =>
    -- the directive stands between edges, and there the line is cut as its text is
    obtain ⟨hopen, hclose⟩ := hstands.edges
    obtain ⟨front, rest, rfl, -, hrest⟩ := Prints.split hline (.inr hopen)
    obtain ⟨unit, back, rfl, -, hprinted⟩ := hrest.split hclose
    exact ⟨front, unit, back, rfl, hrest.opener hopener, .inr hrest, hprinted⟩

/-- **Steps** go on in the line, or to the next one. -/
theorem Stands.step (h : Stands text n feed) (reading : Reading) :
    match feed.step reading with
    | .done | .forbidden => True
    | .newLine after => Stands text (n + 1) after
    | .checked after | .text _ after | .directive _ _ after => Stands text n after := by
  have hsteps := steps_step reading feed
  generalize feed.step reading = step at hsteps ⊢
  cases h with
  | begins =>
    unfold ofText at hsteps
    generalize hlines : Bytes.lines text = lines at hsteps
    cases hsteps with
    | done => exact True.intro
    | @newLine _ line rest =>
      have hfirst : Bytes.lines text = [] ++ ([] ++ line) :: rest := hlines
      exact .within hfirst rfl
    | text => exact hlines ▸ .begins
    | directive _ hfind => exact absurd rfl (Reading.ne_nil_of_find? hfind)
  | @within done rest front here line unchecked hlines hline =>
    cases hsteps with
    | done | forbidden => exact True.intro
    | @newLine _ next rest =>
      have hmore : Bytes.lines text = (done ++ [front ++ here]) ++ ([] ++ next) :: rest := by
        rw [hlines, List.append_assoc]
        rfl
      have hstands : Stands text _ ⟨next, true, rest⟩ := .within hmore rfl
      rwa [List.length_append] at hstands
    | checked hreading hcheck =>
      obtain rfl : line = here := hline
      exact .within hlines (prints_of_check hcheck)
    | text =>
      -- nothing is left of the line, and what is left prints nothing
      rw [← List.append_nil (front ++ here)] at hlines
      refine .within hlines ?_
      split
      · rfl
      · exact ⟨[], .nil, rfl, rfl⟩
    | @directive _ _ _ d _ hfind =>
      obtain ⟨before, unit, back, rfl, -, -, hback⟩ := exists_cut hline hfind
      rw [← List.append_assoc, ← List.append_assoc] at hlines
      exact .within hlines hback

/-- **Directives**: the next one opens on the line that is being counted. -/
theorem Stands.directive {before : Bytes} {d : Directive} {after : Feed} (h : Stands text n feed)
    (hstep : feed.step reading = .directive before d after) :
    ∃ offset, feed.Opens text d offset ∧ n = Bytes.lineAt text offset := by
  have hsteps := steps_step reading feed
  rw [hstep] at hsteps
  cases hsteps with
  | @directive line unchecked rest _ _ hfind =>
    cases h with
    | begins => exact absurd rfl (Reading.ne_nil_of_find? hfind)
    | @within done _ front here _ _ hlines hline =>
      obtain ⟨before, unit, back, rfl, hopener, hleft, -⟩ := exists_cut hline hfind
      rw [← List.append_assoc] at hlines
      have hdrop := drop_of_lines hlines
      have hne : unit ++ back ≠ [] := by
        rintro hnil
        rw [hnil, List.prefix_nil] at hopener
        cases hkind : d.opener <;> rw [hkind] at hopener <;> cases hopener
      refine ⟨_, ⟨?_, unit ++ back, hdrop, hleft⟩, lineAt_of_lines hlines hne⟩
      rw [hdrop]
      exact hopener.trans (List.prefix_append _ _)

/-- **Executable markers**: one that is refused stands on the line that is being counted. -/
theorem Stands.forbidden (h : Stands text n feed) (hstep : feed.step reading = .forbidden) :
    reading = .directives ∧ ∃ offset, feed.Forbids text offset ∧ n = Bytes.lineAt text offset := by
  have hsteps := steps_step reading feed
  rw [hstep] at hsteps
  cases hsteps with
  | @forbidden line rest i hreading hcheck =>
    refine ⟨hreading, ?_⟩
    cases h with
    | @within done _ front here _ _ hlines hline =>
      obtain rfl : line = here := hline
      have hleast := check_eq_executable.1 hcheck
      have hlt : i < line.length := (List.getElem?_eq_some_iff.1 hleast.1.1.byte).1
      have htext : text = done.flatten ++ front ++ (line ++ rest.flatten) := by
        rw [← Bytes.flatten_lines text, hlines, List.flatten_append, List.flatten_cons]
        simp only [List.append_assoc]
      -- the marker cuts its line into what stands before it and the rest, which is not empty
      have hcut : Bytes.lines text = done ++ ((front ++ line.take i) ++ line.drop i) :: rest := by
        rw [List.append_assoc, List.take_append_drop, hlines]
      have hlength : (done.flatten ++ (front ++ line.take i)).length =
          (done.flatten ++ front).length + i := by
        simp only [List.length_append, List.length_take_of_le hlt.le]
        omega
      refine ⟨_, ⟨?_, _, i, rfl, drop_of_lines hlines, hleast⟩, hlength ▸ lineAt_of_lines hcut ?_⟩
      · rw [htext, executableAt_append]
        exact hleast.1.append _
      · rwa [ne_eq, List.drop_eq_nil_iff, not_le]

/-- Where directives are looked for in a line that has not been checked, an executable marker is
refused. -/
theorem not_executableAt_of_step (hstep : feed.step .directives ≠ .forbidden)
    (hunchecked : feed.unchecked = true) (i : Nat) : ¬ ExecutableAt feed.line i := by
  intro hexecutable
  have hleast : IsLeast {i | ExecutableAt feed.line i} (Nat.find ⟨i, hexecutable⟩) :=
    ⟨Nat.find_spec _, fun j hj => Nat.find_min' _ hj⟩
  have hcheck := check_eq_executable.2 hleast
  have hsteps := steps_step .directives feed
  generalize feed.step .directives = step at hstep hsteps
  cases hsteps with
  | done | newLine => exact not_markerAt_nil hexecutable.1
  | forbidden => exact hstep rfl
  | checked _ hpassed =>
    rcases hpassed with ⟨hclean, -⟩ | hdefused
    · exact nomatch hcheck.symm.trans hclean
    · exact nomatch hcheck.symm.trans hdefused
  | text hchecked => exact nomatch (hchecked rfl).symm.trans hunchecked
  | directive hchecked => exact nomatch (hchecked rfl).symm.trans hunchecked

/-- At the end the last line has been read. -/
theorem Stands.atEnd (h : Stands text n feed) (hend : feed.atEnd = true) :
    n = (Bytes.lines text).length := by
  unfold Feed.atEnd at hend
  obtain ⟨-, hrest⟩ := Bool.and_eq_true_iff.1 hend
  have hnil := List.isEmpty_iff.1 hrest
  cases h with
  | begins => exact (congrArg List.length hnil).symm
  | within hlines hline =>
    obtain rfl := hnil
    rw [hlines, List.length_append]
    rfl

end Feed

end TemplateCompiler
