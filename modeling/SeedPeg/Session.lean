import SeedPeg.Evaluation.Basic

/-!
# Sessions

A session is one state that is parsed step by step, with the setting in which its expressions are
evaluated. Steps go on after faults, from the state that the fault left; between evaluations the
cursor, the depth, the options and the memo table can be changed by hand. A session can be started
on rules that are only declared; then it has no grammar, and applying a rule is a fault.
-/

namespace SeedPeg

/-- A setting and a state. -/
structure Session where
  setting : Setting
  state : State
  /-- Whether the rules are a grammar; if not, that of the setting is empty. -/
  hasGrammar : Bool := true

namespace Session

/-- The session that starts at the beginning of an input. -/
def start (rules : Rules) (input : Input) (options : Options := {}) : Session :=
  match rules with
  | .checked grammar =>
    { setting := { input, grammar, options }, state := .fresh input.size }
  | .declared _ =>
    { setting := { input, grammar := .empty, options }, state := .fresh input.size
      hasGrammar := false }

/-- Values given by hand; what is absent stays as it is. -/
structure Assignment where
  position : Option Int := none
  depth : Option Int := none
  memoize : Option Bool := none
  maxDepth : Option Value := none
  debug : Option Bool := none

/-- A step of a session. -/
inductive Step where
  | evaluate (e : Expr)
  /-- Consumes a symbol if it is the one at the cursor. -/
  | consume (symbol : Value)
  | atEnd
  /-- Puts values where they are given by hand. -/
  | assign (assignment : Assignment)
  /-- Puts a remark, which should be text, into the trace. -/
  | remark (message : Value)
  | memo (operation : MemoTable.Operation)

inductive Answer where
  | nothing
  | result (tree : Option Tree)
  | truth (b : Bool)
  | reply (reply : MemoTable.Reply)

/-- The outcome of an action with its answer wrapped. -/
def wrap {α : Type} (answer : α → Answer) : Outcome α → Outcome Answer
  | .done value => .done (answer value)
  | .fault cause => .fault cause
  | .spent => .spent

def run {α : Type} (session : Session) (action : Action α) (answer : α → Answer) :
    Outcome Answer × Session :=
  let (outcome, state) := action session.state
  (wrap answer outcome, { session with state })

/-- Evaluates an expression at the cursor; without a grammar no rule can be applied. -/
def evaluate (session : Session) (e : Expr) : Action (Option Tree) :=
  if session.hasGrammar then e.evaluate session.setting
  else e.evaluateWith session.setting fun _ => Action.fail (.noGrammar .lookup)

/-- Tells of a remark; if a trace is kept, it must be text. -/
def remark (session : Session) (message : Value) : Action Unit :=
  match message with
  | .str text => Action.tell session.setting (.remark text)
  | value =>
    if session.setting.options.debug then Action.fail (.notText value.kindName) else return ()

/-- The session with values put by hand. -/
def assign (session : Session) (assignment : Assignment) : Session :=
  let { setting, state, hasGrammar } := session
  let options := setting.options
  { hasGrammar
    setting := { setting with
      options :=
        { memoize := assignment.memoize.getD options.memoize
          maxDepth := assignment.maxDepth.getD options.maxDepth
          debug := assignment.debug.getD options.debug } }
    state := { state with
      position := assignment.position.getD state.position
      depth := assignment.depth.getD state.depth } }

/-- The outcome of a step and the session after it. -/
def step (session : Session) : Step → Outcome Answer × Session
  | .evaluate e => session.run (session.evaluate e) .result
  | .consume symbol => session.run (Action.consume session.setting symbol) .truth
  | .atEnd => session.run (Action.atEnd session.setting) .truth
  | .assign assignment => (.done .nothing, session.assign assignment)
  | .remark message => session.run (session.remark message) fun _ => .nothing
  | .memo operation =>
    let (reply, memo) := session.state.memo.perform operation
    let session := { session with state := { session.state with memo } }
    match reply with
    | .ok reply => (.done (.reply reply), session)
    | .error cause => (.fault cause, session)

/-- The trace as lines, and the session with an empty trace. -/
def takeTrace (session : Session) : String × Session :=
  (renderTrace session.setting.input session.state.trace.toList,
    { session with state := { session.state with trace := #[] } })

end Session

end SeedPeg
