import SeedPeg.Proofs.Balance

/-!
# Sessions that parse

A session in which expressions are evaluated and symbols consumed, and nothing is put by hand, stays
sound whatever faults there are on the way (`parsing_stays_sound`): the cursor and all results lie in the
input, no more markers are left than the depth counts, and where results are not kept the depth is the
number of entries. The cursor never comes to lie before the place where an expression began, and choices,
repetitions of at least one and rule applications that fail put it back. So do lookaheads when they end,
but a fault in their element leaves it where it is (`fault_leaves_lookahead_ahead`).
-/

namespace SeedPeg

/-! ## Where the cursor is put back -/

/-- Whether an expression that fails puts the cursor back to where it began. -/
def Expr.putsBack : Expr → Bool
  | .choice _ | .plus _ | .rule _ => true
  | _ => false

section

variable {setting : Setting} {s s' : State} {e : Expr} {name : Value} {result : Result}
  {attempt : Action (Option Tree)}

theorem Action.plus_fails {bound : Nat} (failed : Action.plus attempt bound s = (.done none, s')) :
    s'.position = s.position := by
  simp only [Action.plus, Action.position, Action.bind_apply] at failed
  rcases ran : attempt s with ⟨(_ | tree) | cause | _, s1⟩ <;> rw [ran] at failed
  · cases failed
    rfl
  · simp only [Action.bind_apply] at failed
    rcases more : Action.star attempt bound s1 with ⟨trees | cause | _, s2⟩ <;> rw [more] at failed <;>
      cases failed
  · cases failed
  · cases failed

theorem Expr.evaluateFirst_fails {apply : Value → Action (Option Tree)} {start : Int}
    {alternatives : List Expr}
    (failed : Expr.evaluateFirst setting apply start alternatives s = (.done none, s')) :
    s'.position = start := by
  induction alternatives generalizing s with
  | nil => cases failed; rfl
  | cons alternative rest ih =>
    rw [evaluateFirst_apply] at failed
    rcases ran : alternative.evaluateWith setting apply (s.moved start) with
      ⟨(_ | tree) | cause | _, s1⟩ <;> rw [ran] at failed
    · exact ih failed
    · cases failed
    · cases failed
    · cases failed

/-- A rule application that fails is closed, or leaves its cursor alone. -/
theorem Runs.rule_fails {task : Task} (runs : Runs setting task s result s') (rule : task = .expr (.rule name))
    (failed : result = .done none) : s'.position = s.position := by
  cases runs with
  | marked => exact State.position_flagged _
  | remembered => cases failed; rfl
  | applied _ _ fresh =>
    cases fresh with
    | settled | ripened => cases failed; exact State.position_closed _
    | refused | broken | withered => cases failed
  | stop first | go first => cases rule; cases first
  | unknown => cases failed
  | _ => cases rule

/-- Lookaheads that end put the cursor back. -/
theorem Expr.lookahead_puts_back {tree : Option Tree} (ahead : e.isKept = false)
    (ended : e.evaluate setting s = (.done tree, s')) : s'.position = s.position := by
  cases e with
  | ahead element | notAhead element =>
    simp only [Expr.evaluate, Expr.evaluateWith, Action.ahead, Action.notAhead, Action.position,
      Action.bind_apply] at ended
    rcases ran : element.evaluateWith setting (applyRule setting setting.ruleBound) s with
      ⟨_ | _ | _, s1⟩ <;> rw [ran] at ended <;> cases ended
    rfl
  | _ => cases ahead

theorem Expr.failure_puts_back (proper : s.Proper setting) (back : e.putsBack = true)
    (failed : e.evaluate setting s = (.done none, s')) : s'.position = s.position := by
  cases e with
  | choice alternatives =>
    exact @Expr.evaluateFirst_fails setting s s' _ s.position alternatives failed
  | plus element => exact Action.plus_fails failed
  | rule name => exact ((runs_iff_evaluate proper).mpr failed).rule_fails rfl rfl
  | _ => cases back

end

/-! ## Steps -/

namespace Session

/-- Whether a step is one of a parse, which puts nothing by hand. -/
def Step.parses : Step → Bool
  | .evaluate _ | .consume _ | .atEnd => true
  | .assign _ | .remark _ | .memo _ => false

/-- The sessions with a grammar that steps of a parse lead to, whether these fail or not. -/
inductive Parsed (grammar : Grammar) (input : Input) (options : Options) : Session → Prop where
  | start : Parsed grammar input options (.start (.checked grammar) input options)
  | step {session : Session} (step : Step) : Parsed grammar input options session →
      step.parses = true → Parsed grammar input options (session.step step).2

variable {grammar : Grammar} {input : Input} {options : Options} {session : Session}

/-- What a parse goes by stays as it is from the start. -/
theorem Parsed.setting_eq (parsed : Parsed grammar input options session) :
    session = { setting := ⟨input, grammar, options⟩, state := session.state } := by
  induction parsed with
  | start => rfl
  | @step session step _ parses ih =>
    rw [ih]
    cases step with
    | evaluate | consume | atEnd => rfl
    | assign | remark | memo => cases parses

end Session

/-- What holds of a state that is left alone between evaluations. -/
structure State.Sound (setting : Setting) (s : State) : Prop where
  low : 0 ≤ s.position
  high : s.position ≤ setting.input.size
  results : ∀ (place : Nat) (key : Int) (tree : Option Tree) (next : Int),
    (s.memo.row place).get? key = some (.resolved tree next) →
    place ≤ next ∧ next ≤ setting.input.size ∧ (tree = none → next = place)
  markers : s.markers ≤ s.depth
  entries : setting.options.memoize = false → s.memo.size = s.depth

/-- The balance from a fresh state, whose table holds nothing under anything but rules. -/
structure State.Accounted (setting : Setting) (s : State) : Prop where
  proper : s.Proper setting
  filed : s.memo.Filed setting.grammar
  balances : (State.fresh setting.input.size).Balances setting s

namespace State.Accounted

variable {setting : Setting} {s : State}

theorem fresh : (State.fresh setting.input.size).Accounted setting := by
  refine ⟨.fresh, fun place key entry held => ?_, .of_same rfl rfl⟩
  simp [State.fresh, MemoTable.row_ofLength] at held

theorem evaluated (accounted : s.Accounted setting) (e : Expr) :
    (e.evaluate setting s).2.Accounted setting := by
  have runs := e.evaluate_runs accounted.proper
  have orderly := runs.orderly accounted.proper
  exact ⟨orderly.proper,
    runs.lasting setting.lasting_filed accounted.proper accounted.proper.low accounted.filed,
    accounted.balances.trans (runs.balances accounted.proper)⟩

theorem moved (accounted : s.Accounted setting) {position : Int} (low : 0 ≤ position)
    (high : position ≤ setting.input.size) : (s.moved position).Accounted setting :=
  ⟨accounted.proper.moved low high, accounted.filed, accounted.balances.moved position⟩

theorem sound (accounted : s.Accounted setting) : s.Sound setting := by
  obtain ⟨proper, filed, balances⟩ := accounted
  have markers := State.markers_fresh setting.input.size
  have entries := State.size_fresh setting.input.size
  have depth : (State.fresh setting.input.size).depth = 0 := rfl
  refine ⟨proper.low, proper.high, ?_, ?_, ?_⟩
  · intro place key tree next held
    obtain ⟨id, _, rfl⟩ := filed _ _ _ held
    have known : s.known ⟨id, place⟩ = some (.resolved tree next) := by
      simpa [State.known, MemoTable.known] using held
    exact proper.results known
  · have := balances.markers
    omega
  · intro forgets
    have := balances.entries forgets
    omega

end State.Accounted

/-- Consuming ends without a fault, and moves the cursor in the input. -/
theorem State.Proper.consumes {setting : Setting} {s : State} (proper : s.Proper setting) (symbol : Value) :
    ∃ found position, Action.consume setting symbol s = (.done found, s.moved position) ∧ 0 ≤ position ∧
      position ≤ setting.input.size := by
  obtain ⟨position, same, low, high⟩ := proper.consumed symbol
  obtain ⟨found, ended⟩ : ∃ found, (Action.consume setting symbol s).1 = .done found := by
    rw [consume_apply proper]
    split
    · split <;> exact ⟨_, rfl⟩
    · exact ⟨_, rfl⟩
  exact ⟨found, position, Prod.ext ended same, low, high⟩

/-- What a step of a parse does to the state of a session, which can be without a result only by a
    fault. -/
structure Session.Advance (setting : Setting) (s : State) (outcome : Outcome Session.Answer) (s' : State) :
    Prop where
  finished : outcome ≠ .spent
  accounted : s'.Accounted setting
  deeper : s.depth ≤ s'.depth
  level : ∀ answer, outcome = .done answer → s'.depth = s.depth

namespace Session

variable {grammar : Grammar} {input : Input} {options : Options} {session : Session} {step : Step}

theorem Parsed.step_evaluate (parsed : Parsed grammar input options session) (e : Expr) :
    session.step (.evaluate e) = (wrap .result (e.evaluate session.setting session.state).1,
      { session with state := (e.evaluate session.setting session.state).2 }) := by
  rw [parsed.setting_eq]
  rfl

theorem step_consume (proper : session.state.Proper session.setting) (symbol : Value) :
    ∃ found, ∃ position : Int, 0 ≤ position ∧ position ≤ session.setting.input.size ∧
      session.step (.consume symbol) =
        (.done (.truth found), { session with state := session.state.moved position }) := by
  obtain ⟨found, position, ran, low, high⟩ := proper.consumes symbol
  refine ⟨found, position, low, high, ?_⟩
  simp only [Session.step, Session.run, ran, wrap]

theorem Advance.moved {setting : Setting} {s : State} {position : Int} {answer : Answer}
    (accounted : s.Accounted setting) (low : 0 ≤ position) (high : position ≤ setting.input.size) :
    Advance setting s (.done answer) (s.moved position) :=
  ⟨by simp, accounted.moved low high, Int.le_refl _, fun _ _ => rfl⟩

theorem Parsed.advance (parsed : Parsed grammar input options session)
    (accounted : session.state.Accounted session.setting) (parses : step.parses = true) :
    Advance session.setting session.state (session.step step).1 (session.step step).2.state := by
  have proper := accounted.proper
  cases step with
  | evaluate e =>
    have runs := e.evaluate_runs proper
    have orderly := runs.orderly proper
    rw [parsed.step_evaluate]
    refine ⟨?_, accounted.evaluated e, (runs.balances proper).depth, ?_⟩
    · rcases ended : (e.evaluate session.setting session.state).1 with tree | cause | _
      · simp [wrap]
      · simp [wrap]
      · exact absurd ended orderly.finished
    · intro answer same
      rcases ended : (e.evaluate session.setting session.state).1 with tree | cause | _
      · exact orderly.depth tree ended
      · simp [ended, wrap] at same
      · simp [ended, wrap] at same
  | consume symbol =>
    obtain ⟨found, position, low, high, same⟩ := step_consume proper symbol
    rw [same]
    exact .moved accounted low high
  | atEnd => exact Advance.moved accounted proper.low proper.high
  | assign | remark | memo => cases parses

theorem Parsed.accounted (parsed : Parsed grammar input options session) :
    session.state.Accounted session.setting := by
  induction parsed with
  | start => exact .fresh
  | @step session step parsed parses ih =>
    have advance := (parsed.advance ih parses).accounted
    have same : (session.step step).2.setting = session.setting := by
      rw [(parsed.step step parses).setting_eq, parsed.setting_eq]
    rwa [same]

end Session

section

variable {grammar : Grammar} {input : Input} {options : Options} {session : Session}

/-- A session is sound after steps of a parse, whether these have ended with a fault or not. A step more
    has a result or a fault; it leaves the depth as it was, or by a fault not lower. Of all that is
    evaluated in it no expression puts the cursor before the place where it began, and those that put it
    back when they fail, and lookaheads that end, leave it exactly there. -/
theorem parsing_stays_sound (parsed : Session.Parsed grammar input options session) :
    session.state.Sound ⟨input, grammar, options⟩ ∧
    (∀ step : Session.Step, step.parses = true →
      (session.step step).1 ≠ .spent ∧ session.state.depth ≤ (session.step step).2.state.depth ∧
      ∀ answer, (session.step step).1 = .done answer →
        (session.step step).2.state.depth = session.state.depth) ∧
    (∀ whole sites e s s' result, Begins session.setting (.expr whole) session.state sites (.expr e) s →
      e.evaluate session.setting s = (result, s') →
      s.position ≤ s'.position ∧
      (e.putsBack = true → result = .done none → s'.position = s.position) ∧
      (e.isKept = false → ∀ tree, result = .done tree → s'.position = s.position)) := by
  have accounted := parsed.accounted
  refine ⟨?_, ?_, ?_⟩
  · have sound := accounted.sound
    rwa [parsed.setting_eq] at sound
  · intro step parses
    have advance := parsed.advance accounted parses
    exact ⟨advance.finished, advance.deeper, advance.level⟩
  · intro whole sites e s s' result begins ran
    have proper : s.Proper session.setting := (begins.steady accounted.proper).ready
    refine ⟨(Expr.evaluate_orderly proper ran).forward, ?_, ?_⟩
    · rintro back rfl
      exact Expr.failure_puts_back proper back ran
    · rintro ahead tree rfl
      exact Expr.lookahead_puts_back ahead ran

/-- A rule that applies another after a one, which is not declared. -/
def unfinished : Grammar :=
  { entries := [(defaultStart, .sequence [.terminal (.str "1"), .rule (.str "more")])] }

/-- The negation of a rule application that ends with a fault, when a one is behind the cursor. -/
def unfinishedAhead : Session.Step := .evaluate (.notAhead (.rule defaultStart))

/-- After the fault the marker of the rule is left, the depth counts it, and the next step goes on. -/
theorem unfinished_stays_sound :
    ∃ session, Session.Parsed unfinished (.text #['1']) { memoize := false } session ∧
      session.state.known ⟨0, 0⟩ = some (.marker false) ∧ session.state.depth = 1 ∧
      session.state.memo.size = 1 ∧ session.state.Sound ⟨.text #['1'], unfinished, { memoize := false }⟩ ∧
      (session.step .atEnd).2.state.depth = 1 := by
  let first := Session.start (.checked unfinished) (.text #['1']) { memoize := false }
  have parsed : Session.Parsed unfinished (.text #['1']) { memoize := false }
      (first.step unfinishedAhead).2 := .step _ .start rfl
  obtain ⟨sound, steps, _⟩ := parsing_stays_sound parsed
  have depth : (first.step unfinishedAhead).2.state.depth = 1 := by cbv
  refine ⟨_, parsed, ?_, depth, ?_, sound, ?_⟩
  · cbv
  · cbv
  · exact ((steps .atEnd rfl).2.2 _ rfl).trans depth

/-- A fault in the element of a lookahead leaves the cursor where it is. -/
theorem fault_leaves_lookahead_ahead :
    ¬ ∀ session, Session.Parsed unfinished (.text #['1']) {} session → ∀ e, e.isKept = false →
      (session.step (.evaluate e)).2.state.position = session.state.position := by
  intro claimed
  have kept := claimed _ .start (.notAhead (.rule defaultStart)) rfl
  have moved : ((Session.start (.checked unfinished) (.text #['1'])).step unfinishedAhead).2.state.position =
      1 := by cbv
  have back : (1 : Int) = 0 := moved.symm.trans kept
  cases back

end

end SeedPeg
