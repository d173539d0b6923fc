import Mathlib.Data.Set.Operations
import SeedPeg.Proofs.Likeness

/-!
# Renaming

An expression is renamed if the names of the rules that it applies are, and nothing else
(`Expr.renamed`). It is then like what it was, if each name that it applies stands for its renaming
(`Likeness.Exprs.renamed`).
-/

namespace SeedPeg

/-! ## Renamed expressions -/

variable (f g : String → String)

/-- The value with its text changed, if it is a string. -/
def Value.renamed : Value → Value
  | .str s => .str (f s)
  | value => value

mutual

/-- The expression with the rules that it applies renamed. -/
def Expr.renamed : Expr → Expr
  | .terminal literal => .terminal literal
  | .rule name => .rule (name.renamed f)
  | .sequence items => .sequence (Expr.renamedAll items)
  | .choice alternatives => .choice (Expr.renamedAll alternatives)
  | .star element => .star element.renamed
  | .plus element => .plus element.renamed
  | .optional element => .optional element.renamed
  | .ahead element => .ahead element.renamed
  | .notAhead element => .notAhead element.renamed
  | .bare => .bare
  | .plain value => .plain value

def Expr.renamedAll : List Expr → List Expr
  | [] => []
  | e :: rest => e.renamed :: Expr.renamedAll rest

end

/-- The fault with the rule that it names renamed. -/
def Fault.renamed : Fault → Fault
  | .unknownRule name => .unknownRule (name.renamed f)
  | .tooDeep limit name position => .tooDeep limit (name.renamed f) position
  | cause => cause

variable {f g}

@[simp] theorem Value.renamed_id (value : Value) : value.renamed id = value := by
  cases value <;> rfl

@[simp] theorem Value.renamed_renamed (value : Value) :
    (value.renamed f).renamed g = value.renamed (g ∘ f) := by
  cases value <;> rfl

/-- Renaming leaves a value as it is that is not a string, and makes a string of a string. -/
theorem Value.eq_of_renamed {words : Set String} (apart : words.InjOn f) {value other : Value}
    (known : ∀ s, value = .str s → s ∈ words) (known' : ∀ s, other = .str s → s ∈ words)
    (same : value.renamed f = other.renamed f) : value = other := by
  cases value with
  | str s =>
    cases other with
    | str t => rw [apart (known s rfl) (known' t rfl) (Value.str.inj same)]
    | _ => cases same
  | _ =>
    cases other with
    | str t => cases same
    | _ => exact same

@[simp] theorem Value.isKey_renamed (value : Value) : (value.renamed f).isKey = value.isKey := by
  cases value <;> rfl

namespace Expr

theorem renamed_id (e : Expr) : e.renamed id = e := by
  induction e using Expr.byParts <;> simp_all [renamed, renamedAll]

theorem renamed_renamed (e : Expr) : (e.renamed f).renamed g = e.renamed (g ∘ f) := by
  induction e using Expr.byParts <;> simp_all [renamed, renamedAll]

theorem Applies.renamed {e : Expr} {name : Value} (inside : e.Applies name) :
    (e.renamed f).Applies (name.renamed f) := by
  induction e using Expr.byParts with
  | terminal | nothing | never | bare | plain => simp at inside
  | rule other => rw [applies_rule.mp inside]; exact .here
  | sequence item rest ihItem ihRest =>
    simp only [Expr.renamed, renamedAll, applies_sequence] at inside ihRest ⊢
    exact inside.imp ihItem ihRest
  | choice alternative rest ihFirst ihRest =>
    simp only [Expr.renamed, renamedAll, applies_choice] at inside ihRest ⊢
    exact inside.imp ihFirst ihRest
  | star element ih | plus element ih | optional element ih | ahead element ih | notAhead element ih =>
    simpa [Expr.renamed] using ih (by simpa using inside)

end Expr

/-- Where literals and values stand for themselves, and each name that is applied for its renaming, an
    expression stands for itself renamed. -/
theorem Likeness.Exprs.renamed {like : Likeness} (literals : ∀ literal, like.literals literal literal)
    (values : ∀ value, like.values value value) {e : Expr}
    (names : ∀ name, e.Applies name → like.names name (name.renamed f)) : like.Exprs e (e.renamed f) := by
  induction e using Expr.byParts with
  | terminal literal => exact .terminal (literals literal)
  | rule name => exact .rule (names name (by simp))
  | nothing => exact .nothing
  | sequence item rest ihItem ihRest =>
    simp only [Expr.applies_sequence] at names
    exact .sequence (ihItem fun name inside => names name (.inl inside))
      (ihRest fun name inside => names name (.inr inside))
  | never => exact .never
  | choice alternative rest ihFirst ihRest =>
    simp only [Expr.applies_choice] at names
    exact .choice (ihFirst fun name inside => names name (.inl inside))
      (ihRest fun name inside => names name (.inr inside))
  | star element ih => exact .star (ih (by simpa using names))
  | plus element ih => exact .plus (ih (by simpa using names))
  | optional element ih => exact .optional (ih (by simpa using names))
  | ahead element ih => exact .ahead (ih (by simpa using names))
  | notAhead element ih => exact .notAhead (ih (by simpa using names))
  | bare => exact .bare
  | plain value => exact .plain (values value)

/-- Where everything stands for itself, every expression is like itself. -/
theorem Likeness.Exprs.refl {like : Likeness} (literals : ∀ literal, like.literals literal literal)
    (names : ∀ name, like.names name name) (values : ∀ value, like.values value value) (e : Expr) :
    like.Exprs e e := by
  have unchanged : like.Exprs e (e.renamed id) := .renamed literals values fun name _ => by
    rw [Value.renamed_id]
    exact names name
  rwa [Expr.renamed_id] at unchanged

end SeedPeg
