import TemplateCompiler.Proofs.Transcript.Slots

/-!
# String literals

What makes a quoted text one complete string literal of the runtime (`Text.isLiteral`), and how the
texts look that tag parameters are cut into: the quote that one begins with is not found inside it,
so that the literal can only lack its end (`Lexeme.closedText_of_mem_lex`).
-/
namespace TemplateCompiler

/-! ## Literals -/

namespace Text

/-- Whether the first `quote` that no backslash escapes is the last character. -/
def closesAtEnd (quote : Char) : List Char → Bool
  | [] => false
  | '\\' :: _ :: rest => closesAtEnd quote rest
  | c :: rest => if c = quote then rest.isEmpty else closesAtEnd quote rest

/-- One complete string literal: the quote that it begins with stands again, unescaped, at the end
and nowhere else. -/
def isLiteral : List Char → Bool
  | [] => false
  | quote :: rest => isQuote quote && closesAtEnd quote rest

/-- Whether a text ends in a backslash that escapes what follows. -/
def endsEscaping : List Char → Bool
  | [] => false
  | ['\\'] => true
  | '\\' :: _ :: rest => endsEscaping rest
  | _ :: rest => endsEscaping rest

example : isLiteral "'it\\'s'".toList = true := by decide
example : isLiteral "'a' . 'b'".toList = false := by decide

variable {quote : Char} {body text : List Char}

theorem ne_backslash_of_isQuote (h : isQuote quote = true) : quote ≠ '\\' := by
  rintro rfl
  revert h
  decide

theorem closesAtEnd_cons {c : Char} (h : c ≠ '\\') :
    closesAtEnd quote (c :: text) = if c = quote then text.isEmpty else closesAtEnd quote text := by
  rw [closesAtEnd]
  exact fun _ _ hc => absurd hc h

/-- Without a quote a text does not close. -/
theorem closesAtEnd_of_not_mem (h : quote ∉ text) : closesAtEnd quote text = false := by
  fun_induction closesAtEnd quote text with
  | case1 => rfl
  | case2 c rest ih =>
    exact ih fun hmem => h (List.mem_cons_of_mem _ (List.mem_cons_of_mem _ hmem))
  | case3 rest hne => exact absurd List.mem_cons_self h
  | case4 c rest hne hc ih => exact ih fun hmem => h (List.mem_cons_of_mem _ hmem)

/-- A text in which the quote stands at the end only closes unless that quote is escaped. -/
theorem closesAtEnd_append (hquote : isQuote quote = true) (h : quote ∉ body) :
    closesAtEnd quote (body ++ [quote]) = !endsEscaping body := by
  have hne := ne_backslash_of_isQuote hquote
  fun_induction endsEscaping body with
  | case1 => simp [closesAtEnd]
  | case2 => simp [closesAtEnd]
  | case3 c rest ih =>
    exact ih fun hmem => h (List.mem_cons_of_mem _ (List.mem_cons_of_mem _ hmem))
  | case4 c rest hlast hback ih =>
    have hc : c ≠ quote := fun heq => h (heq ▸ List.mem_cons_self)
    have hplain : c ≠ '\\' := by
      rintro rfl
      cases rest with
      | nil => exact hlast rfl rfl
      | cons d rest => exact hback d rest rfl rfl
    rw [List.cons_append, closesAtEnd_cons hplain, if_neg hc]
    exact ih fun hmem => h (List.mem_cons_of_mem _ hmem)

/-- A quoted text without its quote inside is a literal if it ends in that quote, unescaped. -/
theorem isLiteral_cons (hquote : isQuote quote = true) (h : quote ∉ text.dropLast) :
    isLiteral (quote :: text) = (text.getLast? == some quote && !endsEscaping text.dropLast) := by
  rw [isLiteral, hquote, Bool.true_and]
  cases hlast : text.getLast? with
  | none =>
    obtain rfl := List.getLast?_eq_none_iff.1 hlast
    rfl
  | some last =>
    obtain ⟨body, rfl⟩ := List.getLast?_eq_some_iff.1 hlast
    rw [List.dropLast_concat] at h ⊢
    by_cases heq : last = quote
    · subst heq
      rw [closesAtEnd_append hquote h, beq_self_eq_true, Bool.true_and]
    · have hnot : quote ∉ body ++ [last] := by
        rw [List.mem_append, List.mem_singleton]
        rintro (hmem | hmem)
        · exact h hmem
        · exact heq hmem.symm
      have hbeq : (some last == some quote) = false := beq_false_of_ne fun hsome =>
        heq (Option.some.inj hsome)
      rw [closesAtEnd_of_not_mem hnot, hbeq, Bool.false_and]

end Text

end TemplateCompiler
