import TemplateCompiler.Text.Quotes

/-!
# Text in quotes

Which quote is open after a text (`Text.quoteOpen`), and what splitting and searching make of a text
in which no delimiter stands outside quotes: they pass over it (`splitUnquotedFrom_append`,
`findUnquoted?_append`).
-/
namespace TemplateCompiler.Text

variable {current : Option Char} {quote delimiter : Char} {text rest body : List Char}

/-! ## Quotes that are open -/

theorem quoteAfter_none {c : Char} (h : isQuote c = false) :
    quoteAfter isQuote none c = none := by
  rw [quoteAfter, h]
  rfl

theorem quoteAfter_of_isQuote (h : isQuote quote = true) :
    quoteAfter isQuote none quote = some quote := by
  rw [quoteAfter, h]
  rfl

theorem quoteAfter_ne {c : Char} (h : c ≠ quote) :
    quoteAfter isQuote (some quote) c = some quote := by
  rw [quoteAfter, beq_false_of_ne h]
  rfl

theorem quoteAfter_self : quoteAfter isQuote (some quote) quote = none := by
  rw [quoteAfter, beq_self_eq_true]
  rfl

theorem isQuote_of_isBlank {c : Char} (h : isBlank c = true) : isQuote c = false := by
  rw [Bool.eq_false_iff]
  intro hquote
  simp only [isQuote, Bool.or_eq_true, beq_iff_eq] at hquote
  rcases hquote with rfl | rfl
  · revert h
    decide
  · revert h
    decide

theorem isBlank_of_isQuote (h : isQuote quote = true) : isBlank quote = false := by
  rw [Bool.eq_false_iff]
  intro hblank
  rw [isQuote_of_isBlank hblank] at h
  cases h

/-- The quote that is open after a text, `current` being the one open before it. -/
def quoteOpen (current : Option Char) (text : List Char) : Option Char :=
  text.foldl (quoteAfter isQuote) current

@[simp] theorem quoteOpen_cons (current : Option Char) (c : Char) (text : List Char) :
    quoteOpen current (c :: text) = quoteOpen (quoteAfter isQuote current c) text := rfl

@[simp] theorem quoteOpen_append (current : Option Char) (text rest : List Char) :
    quoteOpen current (text ++ rest) = quoteOpen (quoteOpen current text) rest :=
  List.foldl_append

/-- What has no quotes changes nothing about the open one. -/
theorem foldl_quoteAfter_plain {α : Type} [BEq α] [LawfulBEq α] {isQuote : α → Bool}
    {current : Option α} {plain : List α} (hcurrent : ∀ c ∈ current, isQuote c = true)
    (h : ∀ c ∈ plain, isQuote c = false) : plain.foldl (quoteAfter isQuote) current = current := by
  induction plain with
  | nil => rfl
  | cons c plain ih =>
    obtain ⟨hc, hplain⟩ := List.forall_mem_cons.1 h
    have hstep : quoteAfter isQuote current c = current := by
      cases current with
      | none => simp [quoteAfter, hc]
      | some quote =>
        have hne : c ≠ quote := by
          rintro rfl
          rw [hcurrent c rfl] at hc
          cases hc
        simp [quoteAfter, hne]
    rw [List.foldl_cons, hstep, ih hplain]

/-- Text without quotes opens none. -/
theorem quoteOpen_plain (h : ∀ c ∈ text, isQuote c = false) : quoteOpen none text = none :=
  foldl_quoteAfter_plain (fun _ hc => nomatch hc) h

/-- A quote stays open where it does not stand again. -/
theorem quoteOpen_of_not_mem (h : quote ∉ text) : quoteOpen (some quote) text = some quote := by
  induction text with
  | nil => rfl
  | cons c text ih =>
    have hne : c ≠ quote := fun heq => h (heq ▸ List.mem_cons_self)
    rw [quoteOpen_cons, quoteAfter_ne hne]
    exact ih fun hmem => h (List.mem_cons_of_mem _ hmem)

/-- A quoted text closes its own quote. -/
theorem quoteOpen_quoted (hquote : isQuote quote = true) (h : quote ∉ body) :
    quoteOpen none (quote :: (body ++ [quote])) = none := by
  rw [quoteOpen_cons, quoteAfter_of_isQuote hquote, quoteOpen_append, quoteOpen_of_not_mem h]
  exact quoteAfter_self

/-! ## Splitting -/

theorem splitUnquotedFrom_ne_nil (delimiter : Char) (current : Option Char) (text : List Char) :
    splitUnquotedFrom delimiter current text ≠ [] := by
  cases text with
  | nil => exact List.cons_ne_nil _ _
  | cons c rest =>
    rw [splitUnquotedFrom]
    split
    · exact List.cons_ne_nil _ _
    · cases splitUnquotedFrom delimiter (quoteAfter isQuote current c) rest <;>
        exact List.cons_ne_nil _ _

theorem consFirst_eq_singleton {c : Char} {pieces : List (List Char)} (hne : pieces ≠ [])
    (h : consFirst c pieces = [c :: text]) : pieces = [text] := by
  cases pieces with
  | nil => exact absurd rfl hne
  | cons piece more =>
    obtain ⟨hpiece, rfl⟩ := List.cons.inj h
    rw [(List.cons.inj hpiece).2]

theorem foldr_consFirst (text piece : List Char) (more : List (List Char)) :
    text.foldr consFirst (piece :: more) = (text ++ piece) :: more := by
  induction text with
  | nil => rfl
  | cons c text ih =>
    rw [List.foldr_cons, ih]
    rfl

/-- **Splitting passes over** a text that is not split by itself. -/
theorem splitUnquotedFrom_append (h : splitUnquotedFrom delimiter current text = [text])
    (rest : List Char) : splitUnquotedFrom delimiter current (text ++ rest) =
      text.foldr consFirst (splitUnquotedFrom delimiter (quoteOpen current text) rest) := by
  induction text generalizing current with
  | nil => rfl
  | cons c text ih =>
    rw [splitUnquotedFrom] at h
    rw [List.cons_append, splitUnquotedFrom]
    split at h
    · cases h
    · next hcut =>
      rw [if_neg hcut, ih (consFirst_eq_singleton (splitUnquotedFrom_ne_nil _ _ _) h)]
      rfl

theorem splitUnquotedFrom_delimiter (h : isQuote delimiter = false) (rest : List Char) :
    splitUnquotedFrom delimiter none (delimiter :: rest) =
      [] :: splitUnquotedFrom delimiter none rest := by
  simp [splitUnquotedFrom, h]

theorem splitUnquotedFrom_plain (h : ∀ c ∈ text, isQuote c = false ∧ c ≠ delimiter) :
    splitUnquotedFrom delimiter none text = [text] := by
  induction text with
  | nil => rfl
  | cons c text ih =>
    obtain ⟨⟨hquote, hne⟩, htext⟩ := List.forall_mem_cons.1 h
    rw [splitUnquotedFrom, quoteAfter_none hquote, ih htext]
    simp [hne, consFirst]

/-- Nothing is split while a quote is open. -/
theorem splitUnquotedFrom_open (h : quote ∉ body) :
    splitUnquotedFrom delimiter (some quote) (body ++ [quote]) = [body ++ [quote]] := by
  induction body with
  | nil => simp [splitUnquotedFrom, consFirst]
  | cons c body ih =>
    have hne : c ≠ quote := fun heq => h (heq ▸ List.mem_cons_self)
    rw [List.cons_append, splitUnquotedFrom, quoteAfter_ne hne,
      ih fun hmem => h (List.mem_cons_of_mem _ hmem)]
    rfl

theorem splitUnquotedFrom_quoted (hquote : isQuote quote = true) (h : quote ∉ body) :
    splitUnquotedFrom delimiter none (quote :: (body ++ [quote])) = [quote :: (body ++ [quote])] := by
  rw [splitUnquotedFrom, quoteAfter_of_isQuote hquote, splitUnquotedFrom_open h]
  simp [hquote, consFirst]

/-! ## Searching -/

theorem findUnquoted?_plain (h : ∀ c ∈ text, isQuote c = false ∧ c ≠ delimiter) :
    findUnquoted? delimiter text = none := by
  unfold findUnquoted?
  induction text with
  | nil => rfl
  | cons c text ih =>
    obtain ⟨⟨hquote, hne⟩, htext⟩ := List.forall_mem_cons.1 h
    rw [findUnquotedFrom, quoteAfter_none hquote, ih htext]
    simp [hne]

/-- What is searched for is found after a text that has neither it nor quotes. -/
theorem findUnquoted?_append (hdelimiter : isQuote delimiter = false)
    (h : ∀ c ∈ text, isQuote c = false ∧ c ≠ delimiter) (rest : List Char) :
    findUnquoted? delimiter (text ++ delimiter :: rest) = some text.length := by
  unfold findUnquoted?
  induction text with
  | nil => simp [findUnquotedFrom, hdelimiter]
  | cons c text ih =>
    obtain ⟨⟨hquote, hne⟩, htext⟩ := List.forall_mem_cons.1 h
    rw [List.cons_append, findUnquotedFrom, quoteAfter_none hquote, ih htext]
    simp [hne]

end TemplateCompiler.Text
