import SeedPeg.Evaluation.Combinators

/-!
# Rule applications

The first application of a rule at a position stores a marker, evaluates the definition of the
rule and stores what it ends with. If the rule comes back to the position while the marker is
there, that inner application fails and the marker is flagged: the rule is left-recursive. The
result of the first evaluation is then a seed, which the rule finds when it comes back; the
definition is evaluated again, from the same position, for as long as each evaluation consumes
more than the one before.
-/

namespace SeedPeg

/-- Whether a limit is reached by a number of open rule applications. -/
def Options.limitReached (options : Options) (depth : Int) : Except Fault Bool :=
  match options.maxDepth with
  | .none => .ok false
  | limit =>
    match limit.number? with
    | some bound => .ok (bound.atMost (.ofInt depth))
    | none => .error (.incomparable limit.kindName)

namespace Action

/-- Fails if one more rule application would exceed the limit. -/
def guardDepth (setting : Setting) (name : Value) (position : Int) : Action Unit := do
  let depth ← depth
  match ← ofExcept (setting.options.limitReached depth) with
  | true => fail (.tooDeep setting.options.maxDepth name position)
  | false => return ()

/-- Whether the marker of an open rule application is flagged. -/
def readMarker (position id : Int) : Action Bool := do
  match ← look position id with
  | some (.marker detected) => return detected
  | _ => fail .markerLost

/-- Opens a rule application, with its marker. -/
def enter (setting : Setting) (name : Value) (position id : Int) : Action Unit := do
  guardDepth setting name position
  tell setting (.parsing name position)
  openRule
  store position id (.marker false)

/-- Evaluates the definition of a rule for the first time; answers the result, which is stored,
    and whether the marker that it replaces was flagged. -/
def sow (position id : Int) (attempt : Action (Option Tree)) : Action (Option Tree × Bool) := do
  let first ← attempt
  let detected ← readMarker position id
  let stop ← Action.position
  store position id (.ofResult position first stop)
  return (first, detected)

/-- Attempts from the same position again and again, for as long as the attempt gets further than
    the seed, which it then replaces, and ends with the last seed. It makes no more attempts than
    the bound says. -/
def grow (setting : Setting) (name : Value) (position id : Int) (attempt : Action (Option Tree)) :
    Nat → Action (Option Tree)
  | 0 => exhaust
  | bound + 1 => do
    match ← look position id with
    | some (.resolved seed reached) =>
      moveTo position
      let result ← attempt
      let stop ← Action.position
      if result.isNone || stop ≤ reached then
        moveTo reached
        return seed
      else
        tell setting (.grew name position stop)
        store position id (.ofResult position result stop)
        grow setting name position id attempt bound
    | _ => fail .seedLost

/-- Grows the result of a first evaluation, if it is a match and the rule is left-recursive. -/
def ripen (setting : Setting) (name : Value) (position id : Int)
    (attempt : Action (Option Tree)) (bound : Nat) : Option Tree × Bool → Action (Option Tree)
  | (some _, true) => grow setting name position id attempt bound
  | (first, _) => return first

/-- Tells how a rule application ends; a mismatch puts the cursor back. -/
def conclude (setting : Setting) (name : Value) (position : Int) : Option Tree → Action Unit
  | some _ => do
    let stop ← Action.position
    tell setting (.matched name position stop)
  | none => do
    moveTo position
    tell setting (.failed name position)

/-- Closes a rule application; its entry is removed if results are not kept. -/
def leave (setting : Setting) (name : Value) (position id : Int) (result : Option Tree) :
    Action Unit := do
  closeRule
  conclude setting name position result
  if setting.options.memoize then return () else forget position id

/-- Applies a rule at a position where nothing is known of it. -/
def applyFresh (setting : Setting) (name : Value) (position id : Int)
    (attempt : Action (Option Tree)) (bound : Nat) : Action (Option Tree) := do
  enter setting name position id
  let first ← sow position id attempt
  let result ← ripen setting name position id attempt bound first
  leave setting name position id result
  return result

/-- Answers a rule application from what is known of it: a marker is flagged and counts as a
    mismatch, a tree puts the cursor behind it. -/
def applyKnown (setting : Setting) (name : Value) (position id : Int) :
    Entry → Action (Option Tree)
  | .marker true => return none
  | .marker false => do
    tell setting (.leftRecursion name position)
    store position id (.marker true)
    return none
  | .resolved none _ => return none
  | .resolved (some tree) next => do
    moveTo next
    return some tree

end Action

end SeedPeg
