import Mathlib.Data.List.TakeWhile
import SeedPeg.Definition

/-!
# Quotation

When a string that stands as a definition is a literal, and which. A text is enclosed in quotes if one
of the two quotes, which does not occur in it, stands before and behind it (`Encloses`). A string that
encloses a text is the literal of that text, and a string that is no literal names a rule. There is one
more form of literals: a line feed may follow the second quote, and then this quote belongs to the
literal (`Quotes`). So the literal that is read from a string has the quote in it that opens the string
exactly if the string ends with a line feed (`quoted_strings_are_literals`).
-/

namespace SeedPeg

/-- A string is a text with a quote before and behind it that does not occur in the text. -/
structure Encloses (s : String) (quote : Char) (text : String) : Prop where
  kind : quote = Text.singleQuote ∨ quote = Text.doubleQuote
  absent : quote ∉ text.toList
  spelled : s.toList = quote :: text.toList ++ [quote]

/-- The text of the literal that a string is read as. -/
inductive Quotes (s : String) : String → Prop where
  | closed {quote text} : Encloses s quote text → Quotes s text
  /-- The second quote belongs to the literal if a line feed follows it. -/
  | ended {whole quote text} : Encloses whole quote text → s = whole.push '\n' →
      Quotes s (text.push quote)

/-! ## Quotes -/

section

variable {quote : Char} {cs text : List Char} {s t : String}

/-- A text without the quote ends where the quote comes. -/
theorem dropWhile_until (absent : quote ∉ text) (rest : List Char) :
    (text ++ quote :: rest).dropWhile (· ≠ quote) = quote :: rest := by
  have other : ∀ c ∈ text, decide (c ≠ quote) = true := by
    rintro c member
    exact decide_eq_true fun same => absent (same ▸ member)
  rw [List.dropWhile_append_of_pos other, List.dropWhile_cons_of_neg (by simp)]

theorem isQuotedWith_iff :
    isQuotedWith quote cs = true ↔
      ∃ text, quote ∉ text ∧ (cs = quote :: text ++ [quote] ∨ cs = quote :: text ++ [quote, '\n']) := by
  constructor
  · intro quoted
    cases cs with
    | nil => cases quoted
    | cons first rest =>
      simp only [isQuotedWith, Bool.and_eq_true, Bool.or_eq_true, beq_iff_eq] at quoted
      obtain ⟨rfl, tail⟩ := quoted
      refine ⟨rest.takeWhile (· ≠ first), fun member => ?_, ?_⟩
      · simpa using List.mem_takeWhile_imp member
      · have parts := rest.takeWhile_append_dropWhile (p := (· ≠ first))
        rcases tail with tail | tail <;> rw [tail] at parts
        · exact .inl (by rw [List.cons_append, parts])
        · exact .inr (by rw [List.cons_append, parts])
  · rintro ⟨text, absent, rfl | rfl⟩
    · simp only [isQuotedWith, List.cons_append, dropWhile_until absent]
      simp
    · simp only [isQuotedWith, List.cons_append, dropWhile_until absent]
      simp

theorem isQuoted_iff : isQuoted s.toList = true ↔ ∃ text, Quotes s text := by
  rw [isQuoted, Bool.or_eq_true, isQuotedWith_iff, isQuotedWith_iff]
  constructor
  · have quotes {quote : Char} (kind : quote = Text.singleQuote ∨ quote = Text.doubleQuote)
        (found : ∃ text, quote ∉ text ∧
          (s.toList = quote :: text ++ [quote] ∨ s.toList = quote :: text ++ [quote, '\n'])) :
        ∃ text, Quotes s text := by
      obtain ⟨text, absent, spelled | spelled⟩ := found
      · exact ⟨.ofList text, .closed ⟨kind, by simpa using absent, by simpa using spelled⟩⟩
      · have enclosed : Encloses (.ofList (quote :: text ++ [quote])) quote (.ofList text) :=
          ⟨kind, by simpa using absent, by simp⟩
        exact ⟨_, .ended enclosed (String.toList_injective (by simpa using spelled))⟩
    rintro (found | found)
    · exact quotes (.inl rfl) found
    · exact quotes (.inr rfl) found
  · rintro ⟨_, ⟨⟨kind, absent, spelled⟩⟩ | ⟨⟨kind, absent, spelled⟩, rfl⟩⟩
    · rcases kind with rfl | rfl
      · exact .inl ⟨_, absent, .inl spelled⟩
      · exact .inr ⟨_, absent, .inl spelled⟩
    · rcases kind with rfl | rfl
      · exact .inl ⟨_, absent, .inr (by simp [spelled])⟩
      · exact .inr ⟨_, absent, .inr (by simp [spelled])⟩

/-- The text of a literal is the string without its first and its last character. -/
theorem Quotes.cut (quotes : Quotes s t) : String.ofList (s.toList.drop 1).dropLast = t := by
  cases quotes with
  | closed enclosed => simp [enclosed.spelled]
  | ended enclosed ends =>
    subst ends
    refine String.toList_injective ?_
    rw [String.toList_push, enclosed.spelled, List.cons_append, List.cons_append, List.drop_one,
      List.tail_cons, List.dropLast_concat, String.toList_ofList, String.toList_push]

theorem Expr.ofString_eq_terminal_iff : Expr.ofString s = .terminal (.str t) ↔ Quotes s t := by
  rw [Expr.ofString]
  by_cases quoted : isQuoted s.toList = true
  · obtain ⟨text, quotes⟩ := isQuoted_iff.mp quoted
    rw [if_pos quoted, quotes.cut]
    constructor
    · intro same
      cases same
      exact quotes
    · intro other
      rw [← quotes.cut, other.cut]
  · rw [if_neg quoted]
    exact ⟨nofun, fun quotes => absurd (isQuoted_iff.mpr ⟨t, quotes⟩) quoted⟩

theorem Expr.ofString_eq_rule_iff : Expr.ofString s = .rule (.str s) ↔ ∀ text, ¬ Quotes s text := by
  rw [← not_exists, ← isQuoted_iff, Expr.ofString]
  by_cases quoted : isQuoted s.toList = true <;> simp [quoted]

/-- Quotes are characters of their own, so a line feed is not one. -/
theorem Encloses.ne_lineFeed {text : String} (enclosed : Encloses s quote text) : quote ≠ '\n' := by
  rcases enclosed.kind with rfl | rfl <;> decide

/-- The quote that opens a string is in the text of its literal only if a line feed ends the string. -/
theorem Quotes.opening_mem_iff (quotes : Quotes s t) (opened : s.toList.head? = some quote) :
    quote ∈ t.toList ↔ s.toList.getLast? = some '\n' := by
  cases quotes with
  | closed enclosed =>
    have other := enclosed.ne_lineFeed
    obtain ⟨_, absent, spelled⟩ := enclosed
    rw [spelled] at opened
    cases opened
    rw [spelled, List.getLast?_concat]
    simp [absent, other]
  | ended enclosed ends =>
    subst ends
    rw [String.toList_push, enclosed.spelled] at opened
    cases opened
    simp

end

/-- A string is a literal exactly if it is a text in quotes, where a line feed may follow the second quote;
    any other string names a rule. The quote that opens the string is in the literal exactly if there
    is that line feed. -/
theorem quoted_strings_are_literals (s : String) :
    (∀ text, Expr.ofDefinition (.str s) = .ok (.terminal (.str text)) ↔ Quotes s text) ∧
      (Expr.ofDefinition (.str s) = .ok (.rule (.str s)) ↔ ∀ text, ¬ Quotes s text) ∧
      ∀ quote text, Quotes s text → s.toList.head? = some quote →
        (quote ∈ text.toList ↔ s.toList.getLast? = some '\n') := by
  refine ⟨fun text => ?_, ?_, fun quote text quotes opened => quotes.opening_mem_iff opened⟩
  · rw [Expr.ofDefinition, Except.ok.injEq, Expr.ofString_eq_terminal_iff]
  · rw [Expr.ofDefinition, Except.ok.injEq, Expr.ofString_eq_rule_iff]

/-- Not only texts in quotes are literals: behind the second quote a line feed is overlooked, and what is
    read is not the text in the quotes. -/
theorem line_feed_is_overlooked :
    ¬ ∀ text, Expr.ofDefinition (.str "'a'\n") = .ok (.terminal (.str text)) ↔
      ∃ quote, Encloses "'a'\n" quote text := by
  intro only
  obtain ⟨quote, enclosed⟩ := (only "a'").mp (by rfl)
  have last := congrArg List.getLast? enclosed.spelled
  rw [List.getLast?_concat] at last
  exact enclosed.ne_lineFeed (Option.some.inj last).symm

end SeedPeg
