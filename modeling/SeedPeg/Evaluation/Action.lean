import SeedPeg.Grammar
import SeedPeg.Memo.Table
import SeedPeg.Trace

/-!
# Actions on the state of a match

An action takes the state of a match to an outcome and the state it leaves. A fault leaves the
state as it is at that moment: nothing is undone. Actions are run one after the other with `do`;
the first that does not finish ends them all.
-/

namespace SeedPeg

/-- The limit of open rule applications where none is given. -/
def defaultMaxDepth : Int := 200

/-- How evaluation goes about its work. -/
structure Options where
  /-- Whether the results of rule applications are kept when they end. -/
  memoize : Bool := true
  /-- The number of rule applications that may be open at a time, if there is a limit. -/
  maxDepth : Value := .int defaultMaxDepth
  /-- Whether a trace is kept. -/
  debug : Bool := false

/-- What stays fixed in an evaluation. -/
structure Setting where
  input : Input
  grammar : Grammar
  options : Options := {}

/-- What changes in an evaluation. -/
structure State where
  /-- The cursor. -/
  position : Int
  /-- The number of open rule applications. -/
  depth : Int
  /-- What is known of rule applications. -/
  memo : MemoTable
  /-- What was told so far, in order. -/
  trace : Array Message

/-- The state before anything is evaluated. -/
def State.fresh (size : Nat) : State := ⟨0, 0, .ofLength size, #[]⟩

/-- How an action ends. -/
inductive Outcome (α : Type) where
  | done (answer : α)
  | fault (cause : Fault)
  /-- It does not finish within its bounds. -/
  | spent

/-- An action on the state of a match. -/
def Action (α : Type) : Type := State → Outcome α × State

namespace Action

variable {α β : Type}

@[always_inline, inline] protected def pure (answer : α) : Action α :=
  fun state => (.done answer, state)

@[always_inline, inline] protected def bind (first : Action α) (next : α → Action β) :
    Action β :=
  fun state =>
    match first state with
    | (.done answer, state) => next answer state
    | (.fault cause, state) => (.fault cause, state)
    | (.spent, state) => (.spent, state)

instance : Monad Action where
  pure := Action.pure
  bind := Action.bind

@[always_inline, inline] def fail (cause : Fault) : Action α := fun state => (.fault cause, state)

/-- The action that is out of its bounds. -/
@[always_inline, inline] def exhaust : Action α := fun state => (.spent, state)

@[always_inline, inline] def ofExcept (answer : Except Fault α) : Action α :=
  match answer with
  | .ok answer => Action.pure answer
  | .error cause => fail cause

@[always_inline, inline] def position : Action Int := fun state => (.done state.position, state)

@[always_inline, inline] def moveTo (position : Int) : Action Unit :=
  fun state => (.done (), { state with position })

@[always_inline, inline] def depth : Action Int := fun state => (.done state.depth, state)

@[always_inline, inline] def openRule : Action Unit :=
  fun state => (.done (), { state with depth := state.depth + 1 })

@[always_inline, inline] def closeRule : Action Unit :=
  fun state => (.done (), { state with depth := state.depth - 1 })

def look (position id : Int) : Action (Option Entry) :=
  fun state =>
    match state.memo.get position id with
    | .ok entry => (.done entry, state)
    | .error cause => (.fault cause, state)

def store (position id : Int) (entry : Entry) : Action Unit :=
  fun state =>
    match state.memo.slot position with
    | .ok place => (.done (), { state with memo := state.memo.put place id entry })
    | .error cause => (.fault cause, state)

def forget (position id : Int) : Action Unit :=
  fun state =>
    match state.memo.slot position with
    | .ok place => (.done (), { state with memo := state.memo.remove place id })
    | .error cause => (.fault cause, state)

/-- Tells of an event, if a trace is kept. -/
def tell (setting : Setting) (event : Event) : Action Unit :=
  fun state =>
    if setting.options.debug then
      (.done (), { state with trace := state.trace.push ⟨state.depth, event⟩ })
    else (.done (), state)

@[simp] theorem pure_apply (answer : α) (state : State) :
    (pure answer : Action α) state = (.done answer, state) := rfl

theorem bind_apply (first : Action α) (next : α → Action β) (state : State) :
    (first >>= next) state =
      match first state with
      | (.done answer, state) => next answer state
      | (.fault cause, state) => (.fault cause, state)
      | (.spent, state) => (.spent, state) := rfl

/-- An action that is followed by an answer, an answer that is followed by an action, and three
    actions in a row mean what they should. -/
instance : LawfulMonad Action :=
  LawfulMonad.mk' Action
    (fun action => by
      funext state
      show (Action.bind action fun answer => Action.pure (id answer)) state = action state
      simp only [Action.bind, Action.pure]
      rcases action state with ⟨outcome, after⟩
      cases outcome <;> rfl)
    (fun _ _ => rfl)
    (fun first second third => by
      funext state
      simp only [bind_apply]
      rcases first state with ⟨outcome, after⟩
      cases outcome <;> rfl)

end Action

end SeedPeg
