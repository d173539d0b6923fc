import SeedPeg.Value.Basic

/-!
# Equality of values

Numbers and truth values are equal by value, whatever their form; a list is never equal to a
tuple, and a string never to a number. Expressions are equal if they have the same kind at every
place and equal literals and names. What is not a number is not even equal to itself.
-/

namespace SeedPeg

/-- The number that a value is; truth values are one and zero. -/
def Value.number? : Value → Option Number
  | .bool b => some (.ofInt b.toNat)
  | .int n => some (.ofInt n)
  | .float x => some x
  | _ => Option.none

/-- Whether two values are numbers of the same value. -/
def Value.sameNumber (v w : Value) : Bool :=
  match v.number?, w.number? with
  | some x, some y => x.agrees y
  | _, _ => false

mutual

/-- Whether two values are equal. -/
def Value.equals : Value → Value → Bool
  | .none, .none => true
  | .str s, .str t => s == t
  | .bytes bs, .bytes cs => bs == cs
  | .list items, .list others => Value.equalAll items others
  | .tuple items, .tuple others => Value.equalAll items others
  | .expr e, .expr f => e.equals f
  | v, w => v.sameNumber w
termination_by structural v => v

def Value.equalAll : List Value → List Value → Bool
  | [], [] => true
  | v :: vs, w :: ws => v.equals w && Value.equalAll vs ws
  | _, _ => false
termination_by structural v => v

/-- Whether two expressions are of one kind and built from equal parts. -/
def Expr.equals : Expr → Expr → Bool
  | .terminal literal, .terminal other => literal.equals other
  | .rule name, .rule other => name.equals other
  | .sequence items, .sequence others => Expr.equalAll items others
  | .choice alternatives, .choice others => Expr.equalAll alternatives others
  | .star element, .star other => element.equals other
  | .plus element, .plus other => element.equals other
  | .optional element, .optional other => element.equals other
  | .ahead element, .ahead other => element.equals other
  | .notAhead element, .notAhead other => element.equals other
  | .bare, .bare => true
  | .plain value, .plain other => value.equals other
  | _, _ => false
termination_by structural v => v

def Expr.equalAll : List Expr → List Expr → Bool
  | [], [] => true
  | e :: es, f :: fs => e.equals f && Expr.equalAll es fs
  | _, _ => false
termination_by structural v => v

end

end SeedPeg
