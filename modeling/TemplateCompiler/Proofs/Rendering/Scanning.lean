import TemplateCompiler.Proofs.RawCode.Extent

/-!
# Scanning a line

A line may be scanned in one go (`Directive.all`), or its first directive may be taken off again and
again and what is left be scanned anew (`Directive.rescan`). Both find the same directives
(`rescan_eq_all`), which stand one after another in the line.
-/
namespace TemplateCompiler.Markup.Directive

/-! ## Moving directives -/

/-- The directive as it is seen from so many bytes before. -/
def shift (d : Directive) (bytes : Nat) : Directive :=
  { d with
    start := bytes + d.start
    stop := bytes + d.stop
    start_lt_stop := Nat.add_lt_add_left d.start_lt_stop bytes }

theorem read?_shift (bytes start : Nat) (opener : Kind) (text : Bytes) :
    read? (bytes + start) opener text = (read? start opener text).map (·.shift bytes) := by
  unfold read?
  dsimp only
  split
  · rfl
  · simp only [Option.map_some, shift, Nat.add_assoc]

theorem firstFrom_shift (bytes offset : Nat) (line : Bytes) :
    firstFrom (bytes + offset) line = (firstFrom offset line).map (·.shift bytes) := by
  induction line generalizing offset with
  | nil => rfl
  | cons b rest ih =>
    unfold firstFrom
    cases hopener : opener? b rest.head? with
    | none => exact ih (offset + 1)
    | some kind =>
      simp only [Option.bind_some, read?_shift]
      cases hread : read? offset kind rest.tail with
      | none => exact ih (offset + 1)
      | some d => rfl

/-- Where a directive is found depends on where the line begins. -/
theorem firstFrom_eq (offset : Nat) (line : Bytes) :
    firstFrom offset line = (first? line).map (·.shift offset) :=
  firstFrom_shift offset 0 line

/-! ## Scanning anew -/

/-- Takes the first directive off again and again, `buffer` being what is left from the given offset
on. -/
def rescanFrom (offset : Nat) (buffer : Bytes) : List Directive :=
  match h : first? buffer with
  | none => []
  | some d =>
    have := length_sub_stop_lt h
    d.shift offset :: rescanFrom (offset + d.stop) (buffer.drop d.stop)
termination_by buffer.length
decreasing_by
  rw [List.length_drop]
  exact this

/-- The directives of a line, each of them found as the first one of what is left. -/
def rescan (line : Bytes) : List Directive :=
  rescanFrom 0 line

theorem allFrom_of_none {offset : Nat} {line : Bytes} (h : first? line = none) :
    allFrom offset line = [] := by
  have hfirst : firstFrom offset line = none := by
    rw [firstFrom_eq, h]
    rfl
  unfold allFrom
  split
  · rfl
  · next heq =>
    rw [hfirst] at heq
    cases heq

theorem allFrom_of_some {offset : Nat} {line : Bytes} {d : Directive} (h : first? line = some d) :
    allFrom offset line = d.shift offset :: allFrom (offset + d.stop) (line.drop d.stop) := by
  have hfirst : firstFrom offset line = some (d.shift offset) := by
    rw [firstFrom_eq, h]
    rfl
  rw [allFrom]
  split
  · next heq =>
    rw [hfirst] at heq
    cases heq
  · next found heq =>
    obtain rfl : d.shift offset = found := Option.some.inj (hfirst.symm.trans heq)
    have hstop : (d.shift offset).stop - offset = d.stop := Nat.add_sub_cancel_left ..
    simp only [hstop]
    rfl

theorem rescanFrom_eq (offset : Nat) (buffer : Bytes) :
    rescanFrom offset buffer = allFrom offset buffer := by
  rw [rescanFrom]
  split
  · next h => rw [allFrom_of_none h]
  · next d h =>
    have := length_sub_stop_lt h
    rw [allFrom_of_some h, rescanFrom_eq (offset + d.stop) (buffer.drop d.stop)]
termination_by buffer.length
decreasing_by
  rw [List.length_drop]
  exact this

/-- **Rescanning**: what is left of a line, scanned anew after each directive, gives the directives
that one scan of the whole line finds. -/
theorem rescan_eq_all (line : Bytes) : rescan line = all line :=
  rescanFrom_eq 0 line

/-! ## Where directives stand -/

theorem first?_stands {line : Bytes} {d : Directive} (h : first? line = some d) :
    d.stop ≤ line.length ∧ (d.closer = .lineEnd → atLineEnd (line.drop d.stop) = true) := by
  obtain ⟨before, written, after, rfl, hstands⟩ := firstFrom_eq_some h
  have hstop : d.stop = (before ++ written).length := by
    rw [hstands.stop, hstands.start, List.length_append, Nat.zero_add]
  rw [← List.append_assoc, hstop]
  refine ⟨?_, fun hcloser => ?_⟩
  · exact (List.prefix_append _ after).length_le
  · rw [List.drop_left]
    exact hstands.broken hcloser

/-- The directives that are found from an offset on stand there one after another. One without a
closer goes on to the end of its line. -/
theorem allFrom_stand (offset : Nat) (line : Bytes) :
    (allFrom offset line).Pairwise (fun d e => d.stop ≤ e.start) ∧
      ∀ d ∈ allFrom offset line, offset ≤ d.start ∧ d.stop ≤ offset + line.length ∧
        (d.closer = .lineEnd → atLineEnd (line.drop (d.stop - offset)) = true) := by
  cases hfirst : first? line with
  | none =>
    rw [allFrom_of_none hfirst]
    exact ⟨.nil, nofun⟩
  | some d =>
    have := length_sub_stop_lt hfirst
    obtain ⟨hordered, hrest⟩ := allFrom_stand (offset + d.stop) (line.drop d.stop)
    obtain ⟨hstop, hbroken⟩ := first?_stands hfirst
    rw [allFrom_of_some hfirst]
    refine ⟨.cons (fun e he => (hrest e he).1) hordered, fun e he => ?_⟩
    rcases List.mem_cons.1 he with rfl | he
    · refine ⟨Nat.le_add_right _ _, Nat.add_le_add_left hstop _, fun hcloser => ?_⟩
      rw [show (d.shift offset).stop - offset = d.stop from Nat.add_sub_cancel_left ..]
      exact hbroken hcloser
    · obtain ⟨hstart, hend, hlast⟩ := hrest e he
      rw [List.length_drop] at hend
      refine ⟨by omega, by omega, fun hcloser => ?_⟩
      have hlast := hlast hcloser
      have hlt := e.start_lt_stop
      rwa [List.drop_drop, show d.stop + (e.stop - (offset + d.stop)) = e.stop - offset by omega]
        at hlast
termination_by line.length
decreasing_by
  rw [List.length_drop]
  exact this

/-- **Directives of a line** stand one after another within it. One without a closer goes on to the
end of its line, and what breaks the line is not a part of it. -/
theorem all_stand (line : Bytes) :
    (all line).Pairwise (fun d e => d.stop ≤ e.start) ∧
      ∀ d ∈ all line, d.stop ≤ line.length ∧
        (d.closer = .lineEnd → atLineEnd (line.drop d.stop) = true) := by
  obtain ⟨hordered, hall⟩ := allFrom_stand 0 line
  refine ⟨hordered, fun d hd => ?_⟩
  obtain ⟨-, hstop, hbroken⟩ := hall d hd
  rw [Nat.zero_add] at hstop
  exact ⟨hstop, hbroken⟩

end TemplateCompiler.Markup.Directive
