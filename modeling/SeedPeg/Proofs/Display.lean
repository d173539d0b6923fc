import Mathlib
import SeedPeg.Value.Display
import SeedPeg.Proofs.Equality
import SeedPeg.Proofs.Escape
import SeedPeg.Proofs.Quotation

/-!
# Displays

The display of an expression over strings determines it (`displays_are_unambiguous`), whatever quotes,
brackets and commas are in its literals. A display begins with the name of a kind, which has no bracket in
it, then comes a bracket, what the expression is built from, and a bracket again. If two displays with what
follows them agree, then the names do, the parts one after the other, and what follows
(`Expr.Textual.separates`): by induction, since what follows a part is the rest of the display that it
stands in.
-/

namespace SeedPeg

/-- What stands before a separator that does not occur in it, and what stands behind, is determined. -/
theorem append_cons_unique {separator : Char} {before before' after after' : List Char}
    (absent : separator ∉ before) (absent' : separator ∉ before')
    (same : before ++ separator :: after = before' ++ separator :: after') :
    before = before' ∧ after = after' := by
  have rest := congrArg (List.dropWhile (· ≠ separator)) same
  rw [dropWhile_until absent, dropWhile_until absent'] at rest
  cases rest
  exact ⟨List.append_cancel_right same, rfl⟩

namespace Expr

/-- The names of the kinds of expressions. -/
def kindNames : List String :=
  ["Terminal", "RuleApplication", "Sequence", "Choice", "Repetition", "OneOrMore", "ZeroOrOne", "And", "Not",
    "Expression"]

/-- What stands in the brackets of a display. -/
def inner : Expr → String
  | .terminal literal => literal.display
  | .rule name => name.display
  | .sequence items => commaSeparated (displayAll items)
  | .choice alternatives => commaSeparated (displayAll alternatives)
  | .star element | .plus element | .optional element | .ahead element | .notAhead element =>
    element.display
  | .bare | .plain _ => ""

/-- What stands behind the first of some displays that are separated. -/
def further (items : List Expr) : List Char := items.flatMap fun item => ',' :: ' ' :: item.display.toList

section

variable {e f : Expr} {items others : List Expr} {u v : List Char}

/-- A display is the name of the kind and, in brackets, what stands there. -/
theorem Textual.display_eq (textual : e.Textual) :
    ∃ kind ∈ kindNames, e.kindName? = some kind ∧
      e.display.toList = kind.toList ++ '(' :: (e.inner.toList ++ [')']) := by
  cases textual <;> unfold display <;> simp [kindNames, kindName?, inner]

theorem no_bracket : ∀ kind ∈ kindNames, '(' ∉ kind.toList := by decide

theorem begins_apart : ∀ kind ∈ kindNames, kind.toList.head? ≠ some ')' ∧ kind.toList ≠ [] := by decide

/-- A display does not begin with the bracket that ends another one. -/
theorem Textual.display_apart (textual : e.Textual) : ')' :: u ≠ e.display.toList ++ v := by
  obtain ⟨kind, member, _, shown⟩ := textual.display_eq
  obtain ⟨first, some⟩ := begins_apart kind member
  rw [shown]
  cases letters : kind.toList with
  | nil => exact absurd letters some
  | cons letter rest =>
    rintro ⟨⟩
    exact first (by rw [letters]; rfl)

/-- If two displays with what follows them agree, so do the kinds, and what stands in the brackets with what
    follows it. -/
theorem Textual.split (textual : e.Textual) (textual' : f.Textual)
    (same : e.display.toList ++ u = f.display.toList ++ v) :
    e.kindName? = f.kindName? ∧ e.inner.toList ++ ')' :: u = f.inner.toList ++ ')' :: v := by
  obtain ⟨kind, member, named, shown⟩ := textual.display_eq
  obtain ⟨kind', member', named', shown'⟩ := textual'.display_eq
  rw [shown, shown'] at same
  simp only [List.append_assoc, List.cons_append, List.nil_append] at same
  obtain ⟨kinds, rest⟩ := append_cons_unique (no_bracket kind member) (no_bracket kind' member') same
  rw [named, named', String.toList_inj.mp kinds]
  exact ⟨rfl, rest⟩

theorem toList_commaSeparated (e : Expr) (items : List Expr) :
    (commaSeparated (displayAll (e :: items))).toList = e.display.toList ++ further items := by
  induction items generalizing e with
  | nil => simp [commaSeparated, displayAll, further]
  | cons item items ih =>
    have rest := ih item
    simp only [commaSeparated, displayAll, String.toList_intercalate, List.map_cons] at rest ⊢
    rw [List.intercalate_cons_cons, rest]
    simp [further]

/-- Whether the display of an expression, with what follows it, is that of no other expression over strings
    with anything that follows. -/
def Separates (e : Expr) : Prop :=
  ∀ {f : Expr} {u v : List Char}, f.Textual → e.display.toList ++ u = f.display.toList ++ v → e = f ∧ u = v

theorem further_unambiguous (each : ∀ item ∈ items, item.Separates)
    (textual : ∀ other ∈ others, other.Textual)
    (same : further items ++ ')' :: u = further others ++ ')' :: v) : items = others ∧ u = v := by
  induction items generalizing others with
  | nil =>
    cases others with
    | nil => exact ⟨rfl, (List.cons.inj same).2⟩
    | cons other others => cases (List.cons.inj same).1
  | cons item items ih =>
    cases others with
    | nil => cases (List.cons.inj same).1
    | cons other others =>
      simp only [further, List.flatMap_cons, List.cons_append, List.append_assoc, List.cons.injEq,
        true_and] at same
      obtain ⟨rfl, rest⟩ := each item List.mem_cons_self (textual other List.mem_cons_self) same
      obtain ⟨rfl, rfl⟩ := ih (fun item member => each item (List.mem_cons_of_mem _ member))
        (fun other member => textual other (List.mem_cons_of_mem _ member)) rest
      exact ⟨rfl, rfl⟩

theorem listed_unambiguous (first : ∀ item ∈ items, item.Textual) (each : ∀ item ∈ items, item.Separates)
    (textual : ∀ other ∈ others, other.Textual)
    (same : (commaSeparated (displayAll items)).toList ++ ')' :: u =
      (commaSeparated (displayAll others)).toList ++ ')' :: v) : items = others ∧ u = v := by
  cases items with
  | nil =>
    cases others with
    | nil => exact ⟨rfl, (List.cons.inj same).2⟩
    | cons other others =>
      rw [toList_commaSeparated, List.append_assoc] at same
      exact absurd same (textual other List.mem_cons_self).display_apart
  | cons item items =>
    cases others with
    | nil =>
      rw [toList_commaSeparated, List.append_assoc] at same
      exact absurd same.symm (first item List.mem_cons_self).display_apart
    | cons other others =>
      simp only [toList_commaSeparated, List.append_assoc] at same
      obtain ⟨rfl, rest⟩ := each item List.mem_cons_self (textual other List.mem_cons_self) same
      obtain ⟨rfl, rfl⟩ := further_unambiguous (fun item member => each item (List.mem_cons_of_mem _ member))
        (fun other member => textual other (List.mem_cons_of_mem _ member)) rest
      exact ⟨rfl, rfl⟩

theorem display_string {s t : String}
    (same : (Value.str s).display.toList ++ u = (Value.str t).display.toList ++ v) : s = t ∧ u = v := by
  simp only [Value.display, Text.quotedString, String.toList_ofList] at same
  exact (Text.quoted_unambiguous same).imp_left String.toList_inj.mp

/-- The display of an expression over strings is that of no other. -/
theorem Textual.separates (textual : e.Textual) : e.Separates := by
  have whole := textual
  -- what has another kind is told by the name of that, so that in each case one kind is left
  induction textual with
  | terminal | rule =>
    intro f u v textual' same
    obtain ⟨kinds, inner⟩ := whole.split textual' same
    cases textual' <;> simp [kindName?] at kinds
    obtain ⟨rfl, rest⟩ := display_string inner
    exact ⟨rfl, (List.cons.inj rest).2⟩
  | @sequence items first ih | @choice items first ih =>
    intro f u v textual' same
    obtain ⟨kinds, inner⟩ := whole.split textual' same
    cases textual' <;> simp [kindName?] at kinds
    have each : ∀ item ∈ items, item.Separates := fun item member => ih item member (first item member)
    obtain ⟨rfl, rest⟩ := listed_unambiguous first each ‹_› inner
    exact ⟨rfl, rest⟩
  | star element ih | plus element ih | optional element ih | ahead element ih | notAhead element ih =>
    intro f u v textual' same
    obtain ⟨kinds, inner⟩ := whole.split textual' same
    cases textual' <;> simp [kindName?] at kinds
    obtain ⟨rfl, rest⟩ := ih element ‹_› inner
    exact ⟨rfl, (List.cons.inj rest).2⟩
  | bare =>
    intro f u v textual' same
    obtain ⟨kinds, inner⟩ := whole.split textual' same
    cases textual' <;> simp [kindName?] at kinds
    exact ⟨rfl, (List.cons.inj inner).2⟩

end

end Expr

/-- Expressions over strings, of any shape, have the same display exactly if they are equal, and are equal
    exactly if they are the same: of the same kinds at every place, with as many parts in the same order, and
    with the same strings for literals and names. -/
theorem displays_are_unambiguous {e f : Expr} (textual : e.Textual) (textual' : f.Textual) :
    (e.display = f.display ↔ e.equals f = true) ∧ (e.equals f = true ↔ e = f) := by
  have determined : e.display = f.display → e = f := fun same =>
    (textual.separates textual' (congrArg (·.toList ++ []) same)).1
  refine ⟨⟨fun same => textual.equals_iff_eq.mpr (determined same), fun same => ?_⟩, textual.equals_iff_eq⟩
  rw [textual.equals_iff_eq.mp same]

/-- One literal that reads like the end of a literal and another one. -/
def imitation : Expr := .sequence [.terminal (.str "a', Terminal('\\\n\x00")]

def imitated : Expr := .sequence [.terminal (.str "a"), .terminal (.str "\\\n\x00")]

theorem imitation_is_told :
    imitation.Textual ∧ imitated.Textual ∧
      imitation.display = "Sequence(Terminal(\"a', Terminal('\\\\\\n\\x00\"))" ∧
      imitated.display = "Sequence(Terminal('a'), Terminal('\\\\\\n\\x00'))" ∧
      (imitation.display = imitated.display ↔ imitation.equals imitated = true) ∧
      (imitation.equals imitated = true ↔ imitation = imitated) ∧ imitation.equals imitated = false := by
  have textual : imitation.Textual := .sequence (List.forall_mem_singleton.mpr .terminal)
  have textual' : imitated.Textual :=
    .sequence (List.forall_mem_cons.mpr ⟨.terminal, List.forall_mem_singleton.mpr .terminal⟩)
  obtain ⟨shown, same⟩ := displays_are_unambiguous textual textual'
  exact ⟨textual, textual', by rfl, by rfl, shown, same, by rfl⟩

end SeedPeg
