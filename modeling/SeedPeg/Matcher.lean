import SeedPeg.Session

/-!
# Matching a whole input

A matcher is a grammar with a rule to start from and options. It matches an input as a rule if the
rule's match goes from the beginning of the input to its end. A matcher keeps nothing between
matches.
-/

namespace SeedPeg

/-- The rule that inputs are matched as where none is given. -/
def defaultStart : Value := .str "start"

/-- A grammar, the rule that inputs are matched as, and options. -/
structure Matcher where
  grammar : Grammar
  start : Value := defaultStart
  options : Options := {}

namespace Matcher

/-- The matcher for rules, which must be or become a grammar. -/
def ofRules (rules : Rules) (start : Value := defaultStart) (options : Options := {}) :
    Except Fault Matcher := do
  let grammar ← rules.toGrammar
  return { grammar, start, options }

/-- Applies a rule at the cursor, which must lead to the end of the input. -/
def whole (setting : Setting) (start : Value) : Action (Option Tree) := do
  let result ← (Expr.rule start).evaluate setting
  let ended ← Action.atEnd setting
  if result.isSome && ended then return result
  else
    let reached ← Action.position
    Action.tell setting (.incomplete reached)
    return none

/-- The setting in which an input is matched. -/
def setting (matcher : Matcher) (input : Input) : Setting :=
  { input, grammar := matcher.grammar, options := matcher.options }

/-- Matches an input as a rule, or as the matcher's rule if none is given. -/
def run (matcher : Matcher) (input : Input) (start : Option Value := none) :
    Outcome (Option Tree) × State :=
  whole (matcher.setting input) (start.getD matcher.start) (State.fresh input.size)

/-- What a match ends with and the lines of its trace. A source that is no sequence of symbols
    is a fault. -/
def matchSource (matcher : Matcher) (source : Source) (start : Option Value := none) :
    Outcome (Option Tree) × String :=
  match source.read with
  | .error cause => (.fault cause, "")
  | .ok input =>
    let (outcome, state) := matcher.run input start
    (outcome, renderTrace input state.trace.toList)

end Matcher

end SeedPeg
