import TemplateCompiler.Proofs.Path.Names
import TemplateCompiler.Proofs.Path.Spelling
import TemplateCompiler.Proofs.Path.Starting

/-!
# Cleaning as a normal form

A cleaned path has no detours left (`IsNormal`), and it leads to the same place as the path it was made
from, whatever directory one starts from. The place says all: paths that lead to the same from
everywhere are cleaned to one and the same text (`clean_eq_iff`).
-/
namespace TemplateCompiler.Path

/-- A path without detours: it is `.` or has no `.`, no slash is repeated or comes last, and whatever
stands before a `..` is a `..` itself. -/
structure IsNormal (path : Path) : Prop where
  noHere : path.text = "." ∨ ['.'] ∉ path.pieces
  noRepeatedSlash : ¬ ['/', '/'] <:+: path.text.toList
  noTrailingSlash : path.text = "/" ∨ path.text.toList.getLast? ≠ some '/'
  upsFirst : ∀ front back, path.pieces = front ++ ['.', '.'] :: back →
    ∀ piece ∈ front, piece = ['.', '.']

/-- What cleaning makes of a path. -/
structure CleansUp (path : Path) : Prop where
  place : ∀ start, path.clean.placeFrom start = path.placeFrom start
  normal : path.clean.IsNormal
  idempotent : path.clean.clean = path.clean
  canonical : ∀ other : Path, path.clean = other.clean ↔
    ∀ start, IsDirectory start → path.placeFrom start = other.placeFrom start

variable {stack stack' above below names names' parts : List Part} {path : Path}

/-! ## Slashes -/

/-- Slashes that are repeated or come last leave an empty piece that is not the first. -/
theorem IsNormal.of_pieces (hhere : ['.'] ∉ path.pieces) (hempty : [] ∉ path.pieces.tail)
    (hups : ∀ front back, path.pieces = front ++ ['.', '.'] :: back →
      ∀ piece ∈ front, piece = ['.', '.']) : path.IsNormal := by
  have hafter (front back : List Char) (htext : path.text.toList = front ++ '/' :: back)
      (hback : [] ∈ back.splitOn '/') : [] ∈ path.pieces.tail := by
    rw [pieces, htext, List.splitOn_append_cons_self]
    obtain ⟨piece, more, hsplit⟩ := List.exists_cons_of_ne_nil (List.splitOn_ne_nil '/' front)
    rw [hsplit, List.cons_append, List.tail_cons]
    exact List.mem_append_right _ hback
  refine ⟨.inr hhere, ?_, .inr fun hlast => ?_, hups⟩
  · rintro ⟨front, back, htext⟩
    refine hempty (hafter front ('/' :: back) (by simp [← htext]) ?_)
    have hsplit := List.splitOn_append_cons_self (a := '/') [] back
    rw [List.nil_append] at hsplit
    rw [hsplit]
    exact List.mem_append_left _ List.mem_cons_self
  · obtain ⟨front, htext⟩ := List.getLast?_eq_some_iff.1 hlast
    exact hempty (hafter front [] htext List.mem_cons_self)

/-! ## Cleaned paths -/

theorem Stacked.ups_below (h : Stacked (above ++ .up :: below)) : ∀ p ∈ below, p = .up := by
  induction above with
  | nil =>
    cases h with
    | up hups => exact hups
  | cons part above ih => exact ih h.tail

/-- A stack of parts is written without detours. -/
theorem isNormal_ofParts (h : Stacked parts.reverse) (hne : parts ≠ []) (hroot : parts ≠ [.root]) :
    (ofParts parts).IsNormal := by
  have hpieces := pieces_ofParts h hne hroot
  have htail : ∀ p ∈ parts.tail, p = .up ∨ ∃ text, p = .name text ∧ IsName text := by
    rcases h.shape with ⟨names, rfl, hnames⟩ | hall
    · exact fun p hp => .inr (hnames p hp)
    · exact fun p hp => hall p (List.mem_of_mem_tail hp)
  refine .of_pieces ?_ ?_ fun front back heq => ?_
  · rw [hpieces]
    intro hmem
    obtain ⟨p, hp, htext⟩ := List.mem_map.1 hmem
    rcases h.isPart hp with rfl | rfl | ⟨text, rfl, hname⟩
    · exact absurd htext (by decide)
    · exact absurd htext (by decide)
    · exact (isName_iff.1 hname).2.1 htext
  · rw [hpieces, ← List.map_tail]
    intro hmem
    obtain ⟨p, hp, htext⟩ := List.mem_map.1 hmem
    exact (Part.ofPiece_text (htail p hp)).2.2 htext
  · rw [hpieces] at heq
    obtain ⟨before, rest, rfl, rfl, hrest⟩ := List.map_eq_append_iff.1 heq
    obtain ⟨part, after, rfl, htext, -⟩ := List.map_eq_cons_iff.1 hrest
    obtain rfl : part = .up := by
      rcases h.isPart (List.mem_append_right _ List.mem_cons_self) with rfl | rfl | ⟨text, rfl, hname⟩
      · exact absurd htext (by decide)
      · rfl
      · exact absurd htext (isName_iff.1 hname).2.2.1
    rw [List.reverse_append, List.reverse_cons, List.append_assoc, List.singleton_append] at h
    intro piece hpiece
    obtain ⟨p, hp, rfl⟩ := List.mem_map.1 hpiece
    rw [h.ups_below p (List.mem_reverse.2 hp)]
    rfl

theorem isNormal_clean (path : Path) : path.clean.IsNormal := by
  -- `.` and `/` are the paths whose parts leave no piece of their own
  by_cases hnil : cleanParts path.parts = []
  · rw [clean_of_cleanParts_eq_nil hnil]
    refine ⟨.inl rfl, by decide, .inr (by decide), fun front back hpieces => ?_⟩
    exact absurd (hpieces ▸ by simp : ['.', '.'] ∈ pieces ⟨"."⟩) (by decide)
  · rw [clean_eq_ofParts hnil]
    by_cases hroot : cleanParts path.parts = [.root]
    · rw [hroot]
      refine ⟨.inr (by decide), by decide, .inl rfl, fun front back hpieces => ?_⟩
      exact absurd (hpieces ▸ by simp : ['.', '.'] ∈ (ofParts [.root]).pieces) (by decide)
    · exact isNormal_ofParts (stacked_cleanParts path) hnil hroot

theorem placeFrom_clean (start : Place) (path : Path) :
    path.clean.placeFrom start = path.placeFrom start := by
  rw [placeFrom_eq_reach, placeFrom_eq_reach, cleanParts_clean]

/-! ## Telling stacks apart by where they lead to -/

theorem names_eq_of_texts (h : ∀ p ∈ names, ∃ text, p = .name text)
    (h' : ∀ p ∈ names', ∃ text, p = .name text) (heq : names.map Part.text = names'.map Part.text) :
    names = names' := by
  rw [← map_name_map_text h, heq, map_name_map_text h']

/-- From below a directory whose name it does not have, a stack on `..`s leads elsewhere than one on
the root. -/
theorem reach_root_ne {text : String} (h : ∀ p ∈ names, ∃ text, p = .name text)
    (h' : ∀ p ∈ names', ∃ text, p = .name text) (hfresh : text ∉ names.map Part.text) (climbs : Nat) :
    reach (List.replicate (climbs + 1) text) (names ++ [.root]) ≠
      reach (List.replicate (climbs + 1) text) (names' ++ List.replicate climbs .up) := by
  rw [reach_names h, reach_names h', reach_ups, Nat.add_sub_cancel_left]
  intro heq
  refine hfresh (List.mem_reverse.1 ?_)
  rw [show (names.map Part.text).reverse = [] ++ (names.map Part.text).reverse from rfl]
  exact heq ▸ List.mem_cons_self

/-- **Stacks are told apart** by where they lead to. -/
theorem Stacked.eq_of_reach (h : Stacked stack) (h' : Stacked stack')
    (hreach : ∀ start, IsDirectory start → reach start stack = reach start stack') :
    stack = stack' := by
  obtain ⟨names, front, rfl, hnames, hfront⟩ := h.exists_names
  obtain ⟨names', front', rfl, hnames', hfront'⟩ := h'.exists_names
  obtain ⟨text, hname, hfresh⟩ := exists_fresh (names ++ names')
  rw [List.map_append, List.mem_append, not_or] at hfresh
  have hdirectory (depth : Nat) : IsDirectory (List.replicate depth text) :=
    fun t ht => List.eq_of_mem_replicate ht ▸ hname
  rcases hfront with rfl | ⟨climbs, rfl⟩ <;> rcases hfront' with rfl | ⟨climbs', rfl⟩
  · have heq := hreach [] nofun
    rw [reach_names hnames, reach_names hnames'] at heq
    rw [names_eq_of_texts hnames hnames' (List.reverse_inj.1 (List.append_cancel_left heq))]
  · exact absurd (hreach _ (hdirectory _)) (reach_root_ne hnames hnames' hfresh.1 climbs')
  · exact absurd (hreach _ (hdirectory _)).symm (reach_root_ne hnames' hnames hfresh.2 climbs)
  · -- how much of a long way up is left tells how far a stack climbs
    have heq := hreach _ (hdirectory (climbs + climbs'))
    rw [reach_names hnames, reach_names hnames', reach_ups, reach_ups, Nat.add_sub_cancel_left,
      Nat.add_sub_cancel_right] at heq
    have hcount := congrArg (List.count text) heq
    rw [List.count_append, List.count_append, List.count_replicate_self, List.count_replicate_self,
      List.count_eq_zero_of_not_mem (fun hmem => hfresh.1 (List.mem_reverse.1 hmem)),
      List.count_eq_zero_of_not_mem (fun hmem => hfresh.2 (List.mem_reverse.1 hmem))] at hcount
    obtain rfl : climbs' = climbs := hcount
    rw [names_eq_of_texts hnames hnames' (List.reverse_inj.1 (List.append_cancel_left heq))]

/-- Paths are cleaned to the same text exactly if they lead to the same from every directory. -/
theorem clean_eq_iff (p q : Path) :
    p.clean = q.clean ↔ ∀ start, IsDirectory start → p.placeFrom start = q.placeFrom start := by
  constructor
  · intro h start _
    rw [← placeFrom_clean, h, placeFrom_clean]
  · intro h
    refine clean_eq_of_cleanParts_eq (List.reverse_inj.1 ?_)
    refine (stacked_cleanParts p).eq_of_reach (stacked_cleanParts q) fun start hstart => ?_
    rw [← placeFrom_eq_reach, ← placeFrom_eq_reach, h start hstart]

/-- **Cleaning** keeps the place that a path leads to and leaves no detours; it changes nothing when it
is done again, and what it leaves says nothing but the place. -/
theorem cleansUp (path : Path) : path.CleansUp where
  place start := placeFrom_clean start path
  normal := isNormal_clean path
  idempotent := clean_clean path
  canonical other := clean_eq_iff path other

example : clean ⟨"app/.//view/../../../site/view/"⟩ = ⟨"../site/view"⟩ := by decide

end TemplateCompiler.Path
