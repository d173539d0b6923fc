import Mathlib.Tactic.Common
import SeedPeg.Expr.Basic

/-!
# Occurrence

What occurs in an expression, at any depth: the expression itself and what occurs in one of those that
it is built from (`Expr.Occurs`). What is not built from others occurs in a sequence or in a choice if
it occurs in the first part or in what is left without it, so what is said of occurrence is proved by
induction over the parts of expressions (`Expr.byParts`). The names that an expression applies
(`Expr.Applies`) are those of the rules that occur in it.
-/

namespace SeedPeg

/-! ## Induction over the parts of an expression -/

/-- Induction over expressions, where a sequence is one item and the sequence of the others, and a
    choice likewise. -/
@[elab_as_elim]
theorem Expr.byParts {motive : Expr → Prop} (terminal : ∀ literal, motive (.terminal literal))
    (rule : ∀ name, motive (.rule name)) (nothing : motive (.sequence []))
    (sequence : ∀ item rest, motive item → motive (.sequence rest) → motive (.sequence (item :: rest)))
    (never : motive (.choice []))
    (choice : ∀ alternative rest, motive alternative → motive (.choice rest) →
      motive (.choice (alternative :: rest)))
    (star : ∀ element, motive element → motive (.star element))
    (plus : ∀ element, motive element → motive (.plus element))
    (optional : ∀ element, motive element → motive (.optional element))
    (ahead : ∀ element, motive element → motive (.ahead element))
    (notAhead : ∀ element, motive element → motive (.notAhead element))
    (bare : motive .bare) (plain : ∀ value, motive (.plain value)) (e : Expr) : motive e := by
  -- nothing is said of values, and of a list what is said of its sequence and of its choice
  refine @Expr.rec (fun _ => True) motive (fun _ => True)
    (fun parts => motive (.sequence parts) ∧ motive (.choice parts))
    trivial (fun _ => trivial) (fun _ => trivial) (fun _ => trivial) (fun _ => trivial)
    (fun _ => trivial) (fun _ _ => trivial) (fun _ _ => trivial) (fun _ _ => trivial)
    (fun literal _ => terminal literal) (fun name _ => rule name)
    (fun _ both => both.1) (fun _ both => both.2) star plus optional ahead notAhead bare
    (fun value _ => plain value) trivial (fun _ _ _ _ => trivial) ⟨nothing, never⟩ ?_ e
  intro part rest here others
  exact ⟨sequence part rest here others.1, choice part rest here others.2⟩

/-! ## What occurs in an expression -/

/-- An expression occurs in itself and in whatever is built from one that it occurs in. -/
inductive Expr.Occurs (part : Expr) : Expr → Prop where
  | here : Occurs part part
  | inside {e parts child} : e.children = .ok parts → child ∈ parts → Occurs part child →
      Occurs part e

namespace Expr

/-- Whether an expression is not built from others, nor can be. -/
def IsAtom : Expr → Prop
  | .terminal _ | .rule _ | .bare | .plain _ => True
  | _ => False

theorem isAtom_rule (name : Value) : (Expr.rule name).IsAtom := trivial

theorem isAtom_plain (value : Value) : (Expr.plain value).IsAtom := trivial

variable {part e item alternative element : Expr} {rest : List Expr}

theorem Occurs.iff :
    Occurs part e ↔ part = e ∨
      ∃ parts child, e.children = .ok parts ∧ child ∈ parts ∧ Occurs part child := by
  constructor
  · rintro (_ | ⟨built, member, inner⟩)
    · exact .inl rfl
    · exact .inr ⟨_, _, built, member, inner⟩
  · rintro (rfl | ⟨_, _, built, member, inner⟩)
    · exact .here
    · exact .inside built member inner

section

variable (atom : part.IsAtom)
include atom

/-- An atom occurs in what is built from others if it occurs in one of them. -/
theorem IsAtom.occurs_iff {parts : List Expr} (built : e.children = .ok parts) (apart : ¬ e.IsAtom) :
    Occurs part e ↔ ∃ child ∈ parts, Occurs part child := by
  have other : part ≠ e := by rintro rfl; exact apart atom
  rw [Occurs.iff, built]
  simp [other]

theorem IsAtom.occurs_nothing : ¬ Occurs part (.sequence []) := by
  rw [atom.occurs_iff rfl id]
  simp

theorem IsAtom.occurs_sequence :
    Occurs part (.sequence (item :: rest)) ↔ Occurs part item ∨ Occurs part (.sequence rest) := by
  rw [@IsAtom.occurs_iff part (.sequence (item :: rest)) atom _ rfl id,
    @IsAtom.occurs_iff part (.sequence rest) atom _ rfl id]
  simp

theorem IsAtom.occurs_never : ¬ Occurs part (.choice []) := by
  rw [atom.occurs_iff rfl id]
  simp

theorem IsAtom.occurs_choice :
    Occurs part (.choice (alternative :: rest)) ↔
      Occurs part alternative ∨ Occurs part (.choice rest) := by
  rw [@IsAtom.occurs_iff part (.choice (alternative :: rest)) atom _ rfl id,
    @IsAtom.occurs_iff part (.choice rest) atom _ rfl id]
  simp

/-- An atom occurs in what is built from one element if it occurs in that. -/
theorem IsAtom.occurs_element (built : e.children = .ok [element]) (apart : ¬ e.IsAtom) :
    Occurs part e ↔ Occurs part element := by
  rw [atom.occurs_iff built apart]
  simp

end

/-- Nothing but itself occurs in what has no parts. -/
theorem Occurs.eq_of_childless (built : e.children = .ok []) : Occurs part e ↔ part = e := by
  rw [Occurs.iff, built]
  simp

/-! ## Names that are applied -/

/-- Whether the rule of a name is applied in an expression, at any depth. -/
def Applies (e : Expr) (name : Value) : Prop := Occurs (.rule name) e

variable {name other literal value : Value}

@[simp] theorem applies_terminal : ¬ (Expr.terminal literal).Applies name := by
  rw [Applies, Occurs.eq_of_childless rfl]
  simp

@[simp] theorem applies_rule : (Expr.rule other).Applies name ↔ name = other := by
  rw [Applies, Occurs.eq_of_childless rfl]
  simp

@[simp] theorem applies_nothing : ¬ (Expr.sequence []).Applies name := (isAtom_rule name).occurs_nothing

@[simp] theorem applies_sequence :
    (Expr.sequence (item :: rest)).Applies name ↔
      item.Applies name ∨ (Expr.sequence rest).Applies name :=
  (isAtom_rule name).occurs_sequence

@[simp] theorem applies_never : ¬ (Expr.choice []).Applies name := (isAtom_rule name).occurs_never

@[simp] theorem applies_choice :
    (Expr.choice (alternative :: rest)).Applies name ↔
      alternative.Applies name ∨ (Expr.choice rest).Applies name :=
  (isAtom_rule name).occurs_choice

@[simp] theorem applies_star : (Expr.star element).Applies name ↔ element.Applies name :=
  (isAtom_rule name).occurs_element rfl id

@[simp] theorem applies_plus : (Expr.plus element).Applies name ↔ element.Applies name :=
  (isAtom_rule name).occurs_element rfl id

@[simp] theorem applies_optional : (Expr.optional element).Applies name ↔ element.Applies name :=
  (isAtom_rule name).occurs_element rfl id

@[simp] theorem applies_ahead : (Expr.ahead element).Applies name ↔ element.Applies name :=
  (isAtom_rule name).occurs_element rfl id

@[simp] theorem applies_notAhead : (Expr.notAhead element).Applies name ↔ element.Applies name :=
  (isAtom_rule name).occurs_element rfl id

@[simp] theorem applies_bare : ¬ Expr.bare.Applies name := by
  rw [Applies, Occurs.eq_of_childless rfl]
  simp

@[simp] theorem applies_plain : ¬ (Expr.plain value).Applies name := by
  rw [Applies, Occurs.iff]
  simp [children]

end Expr

end SeedPeg
