import SeedPeg.Evaluation.Rule

/-!
# Evaluation

`Expr.evaluateWith` follows the structure of an expression and leaves rule applications to a
function; `applyRule` is that function, and counts down at each nested application. What is known
of an open application is in the memo table, so no rule is open twice at a position: with as many
rules as the grammar has and as many positions as there are cursors, `Setting.ruleBound` is never
used up.
-/

namespace SeedPeg

/-- More than the number of rule applications that can be open at a time: each has a rule and a
    position of its own. -/
def Setting.ruleBound (setting : Setting) : Nat :=
  setting.grammar.size * (setting.input.size + 1) + 1

/-- More than the number of attempts that a loop can make and still end: between two changes of
    the memo table, of which there are at most two for each rule and position, the cursor never
    comes back to a place. -/
def Setting.loopBound (setting : Setting) : Nat :=
  (2 * (setting.input.size + 1) + 2) *
    (2 * setting.grammar.size * (setting.input.size + 1) + 2)

section

variable (setting : Setting) (apply : Value → Action (Option Tree))

mutual

/-- Evaluates an expression at the cursor, where `apply` applies rules. -/
def Expr.evaluateWith : Expr → Action (Option Tree)
  | .terminal literal => Action.literal setting literal
  | .rule name => apply name
  | .sequence items => do return (← Expr.evaluateItems items).map .node
  | .choice alternatives => do Expr.evaluateFirst (← Action.position) alternatives
  | .star element => do
    return some (.node (← Action.star element.evaluateWith setting.loopBound))
  | .plus element => Action.plus element.evaluateWith setting.loopBound
  | .optional element => Action.optional element.evaluateWith
  | .ahead element => Action.ahead element.evaluateWith
  | .notAhead element => Action.notAhead element.evaluateWith
  | .bare => Action.fail .abstract
  | .plain value => Action.fail (.noExpression value.kindName .evaluate)

/-- Evaluates items one after the other, up to the first that does not match; answers the trees of
    those that are kept. -/
def Expr.evaluateItems : List Expr → Action (Option (List Tree))
  | [] => return some []
  | item :: rest => do
    match ← item.evaluateWith with
    | none => return none
    | some tree =>
      let trees ← Expr.evaluateItems rest
      return if item.isKept then trees.map (tree :: ·) else trees

/-- Evaluates alternatives from the same place, up to the first that matches. -/
def Expr.evaluateFirst (start : Int) : List Expr → Action (Option Tree)
  | [] => do
    Action.moveTo start
    return none
  | alternative :: rest => do
    Action.moveTo start
    match ← alternative.evaluateWith with
    | some tree => return some tree
    | none => Expr.evaluateFirst start rest

end

end

/-- Applies the rule of a name at the cursor, with at most `fuel` applications nested. -/
def applyRule (setting : Setting) : Nat → Value → Action (Option Tree)
  | 0, _ => Action.exhaust
  | fuel + 1, name => do
    let (id, body) ← Action.ofExcept (setting.grammar.lookup name)
    let position ← Action.position
    match ← Action.look position id with
    | some entry => Action.applyKnown setting name position id entry
    | none =>
      Action.applyFresh setting name position id
        (body.evaluateWith setting (applyRule setting fuel)) setting.loopBound

/-- Evaluates an expression at the cursor. -/
def Expr.evaluate (setting : Setting) (e : Expr) : Action (Option Tree) :=
  e.evaluateWith setting (applyRule setting setting.ruleBound)

end SeedPeg
