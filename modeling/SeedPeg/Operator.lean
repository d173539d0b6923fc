import SeedPeg.Value.Display

/-!
# Operators

The operators of parsing expression grammars, with the keywords that name them in definitions.
Choice and sequence take any number of operands, the others take one.
-/

namespace SeedPeg

/-- An operator on parsing expressions. -/
inductive Operator where
  | choice
  | sequence
  | zeroOrMore
  | zeroOrOne
  | oneOrMore
  | and
  | not
  deriving DecidableEq

namespace Operator

def all : List Operator := [.choice, .sequence, .zeroOrMore, .zeroOrOne, .oneOrMore, .and, .not]

/-- The word that names an operator in a definition. -/
def keyword : Operator → String
  | .choice => "CHOICE"
  | .sequence => "SEQUENCE"
  | .zeroOrMore => "ZERO_OR_MORE"
  | .zeroOrOne => "ZERO_OR_ONE"
  | .oneOrMore => "ONE_OR_MORE"
  | .and => "AND"
  | .not => "NOT"

/-- The operator that a value names: a keyword's string does, nothing else. -/
def ofValue? : Value → Option Operator
  | .str word => all.find? (·.keyword == word)
  | _ => none

/-- The expression that an operator makes of its operands, if it takes that many. -/
def combine? : Operator → List Expr → Option Expr
  | .choice, alternatives => some (.choice alternatives)
  | .sequence, items => some (.sequence items)
  | .zeroOrMore, [element] => some (.star element)
  | .zeroOrOne, [element] => some (.optional element)
  | .oneOrMore, [element] => some (.plus element)
  | .and, [element] => some (.ahead element)
  | .not, [element] => some (.notAhead element)
  | _, _ => none

/-- The name of the kind of expression that an operator makes. -/
def kindName (operator : Operator) : String :=
  ((operator.combine? [.bare]).bind Expr.kindName?).getD ""

theorem combine?_isSome_iff (operator : Operator) (operands : List Expr) :
    (operator.combine? operands).isSome ↔
      operands.length = 1 ∨ operator = .choice ∨ operator = .sequence := by
  rcases operands with _ | ⟨e, _ | ⟨f, rest⟩⟩ <;> cases operator <;> simp [combine?]

theorem ofValue?_keyword (operator : Operator) :
    ofValue? (.str operator.keyword) = some operator := by
  cases operator <;> decide

theorem eq_keyword_of_ofValue? {value : Value} {operator : Operator}
    (named : ofValue? value = some operator) : value = .str operator.keyword := by
  cases value with
  | str word =>
    have same := List.find?_some named
    simp only [beq_iff_eq] at same
    rw [same]
  | _ => simp [ofValue?] at named

end Operator

end SeedPeg
