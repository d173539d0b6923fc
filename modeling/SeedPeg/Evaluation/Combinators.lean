import SeedPeg.Evaluation.Action

/-!
# Combinators

What the kinds of expressions do with the attempts of their elements. An attempt is an action that
answers a tree or, for a mismatch, none; after a mismatch the cursor may be anywhere, and whoever
goes on from the place where the attempt began puts it back.
-/

namespace SeedPeg.Action

/-- Consumes a symbol if it is the one at the cursor. -/
def consume (setting : Setting) (symbol : Value) : Action Bool :=
  fun state =>
    if state.position < setting.input.size then
      match setting.input.symbolAt state.position with
      | .ok found =>
        if found.equals symbol then
          (.done true, { state with position := state.position + 1 })
        else (.done false, state)
      | .error cause => (.fault cause, state)
    else (.done false, state)

/-- Whether the cursor is at the end of the input. -/
def atEnd (setting : Setting) : Action Bool :=
  fun state => (.done (decide (state.position = setting.input.size)), state)

/-- Consumes symbols up to the first that is not there. -/
def consumeAll (setting : Setting) : List Value → Action Bool
  | [] => return true
  | symbol :: rest => do
    if ← consume setting symbol then consumeAll setting rest else return false

/-- Matches the symbols of a literal; the tree is the literal itself. -/
def literal (setting : Setting) (value : Value) : Action (Option Tree) :=
  match value.symbols? with
  | none => fail (.notIterable value.kindName)
  | some symbols => do
    if ← consumeAll setting symbols then return some (.leaf value) else return none

/-- Attempts again and again, for as long as the attempt matches and consumes, and puts the cursor
    where the last such attempt left it. It makes no more attempts than the bound says. -/
def star (attempt : Action (Option Tree)) : Nat → Action (List Tree)
  | 0 => exhaust
  | bound + 1 => do
    let start ← position
    match ← attempt with
    | none =>
      moveTo start
      return []
    | some tree =>
      let stop ← position
      if stop = start then return []
      else
        let trees ← star attempt bound
        return tree :: trees

/-- Attempts once, which must match, and then as `star` does. -/
def plus (attempt : Action (Option Tree)) (bound : Nat) : Action (Option Tree) := do
  let start ← position
  match ← attempt with
  | none =>
    moveTo start
    return none
  | some tree =>
    let trees ← star attempt bound
    return some (.node (tree :: trees))

/-- Attempts once; a mismatch counts as an empty match. -/
def optional (attempt : Action (Option Tree)) : Action (Option Tree) := do
  let start ← position
  match ← attempt with
  | none =>
    moveTo start
    return some (.node [])
  | some tree => return some (.node [tree])

/-- Attempts without moving: succeeds if the attempt matches. -/
def ahead (attempt : Action (Option Tree)) : Action (Option Tree) := do
  let start ← position
  let result ← attempt
  moveTo start
  return if result.isSome then some .lookahead else none

/-- Attempts without moving: succeeds if the attempt fails. -/
def notAhead (attempt : Action (Option Tree)) : Action (Option Tree) := do
  let start ← position
  let result ← attempt
  moveTo start
  return if result.isSome then none else some .lookahead

end SeedPeg.Action
