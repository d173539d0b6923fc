import SeedPeg.Value.Order

/-!
# The parts of an expression

The expressions that an expression is built from, whether what it matches is kept in the result of
an enclosing sequence, and the names of the rules it applies. Names are collected from the left to
the right, and of equal names the first is kept.
-/

namespace SeedPeg

/-- The expressions that an expression is built from. -/
def Expr.children : Expr → Except Fault (List Expr)
  | .terminal _ => .ok []
  | .rule _ => .ok []
  | .sequence items => .ok items
  | .choice alternatives => .ok alternatives
  | .star element => .ok [element]
  | .plus element => .ok [element]
  | .optional element => .ok [element]
  | .ahead element => .ok [element]
  | .notAhead element => .ok [element]
  | .bare => .ok []
  | .plain value => .error (.noExpression value.kindName .children)

/-- Whether a sequence keeps the result of an item: it drops those of lookaheads. -/
def Expr.isKept : Expr → Bool
  | .ahead _ => false
  | .notAhead _ => false
  | _ => true

/-- Whether an expression is one, and not a value in its place. -/
def Expr.isProper : Expr → Bool
  | .plain _ => false
  | _ => true

/-- Some names and a further one, unless an equal one is among them. -/
def insertName (names : List Value) (name : Value) : List Value :=
  if names.any (·.equals name) then names else names ++ [name]

/-- Some names and those of some others that equal none of them. -/
def joinNames (names others : List Value) : List Value := others.foldl insertName names

mutual

/-- The names of the rules that an expression applies. -/
def Expr.references : Expr → Except Fault (List Value)
  | .terminal _ => .ok []
  | .rule name => if name.isKey then .ok [name] else .error .listAsKey
  | .sequence items => Expr.referencesAll items
  | .choice alternatives => Expr.referencesAll alternatives
  | .star element => element.references
  | .plus element => element.references
  | .optional element => element.references
  | .ahead element => element.references
  | .notAhead element => element.references
  | .bare => .ok []
  | .plain value => .error (.noExpression value.kindName .references)

def Expr.referencesAll : List Expr → Except Fault (List Value)
  | [] => .ok []
  | e :: rest => do
    let names ← e.references
    let others ← Expr.referencesAll rest
    return joinNames names others

end

/-- What can be said of an expression without a grammar. -/
structure Expr.Description where
  kind : String
  display : String
  children : List String
  /-- Whether a sequence keeps its result. -/
  isKept : Bool
  /-- The names of the rules it applies, in order. -/
  references : List Value

def Expr.describe (e : Expr) : Except Fault Expr.Description := do
  let children ← e.children
  let references ← sortNames (← e.references)
  return {
    kind := e.kindName
    display := e.display
    children := children.map Expr.display
    isKept := e.isKept
    references }

end SeedPeg
