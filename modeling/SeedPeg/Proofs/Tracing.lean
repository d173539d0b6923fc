import Mathlib
import SeedPeg.Proofs.Begins
import SeedPeg.Session

/-!
# Tracing

Keeping a trace changes nothing but the trace. An action is muted by another one if that does the same
from the state without its trace, where none is kept (`Action.MutedBy`). Actions that do not look at the
trace are muted by themselves, telling is muted by telling nothing, and what is put together of muted
actions is muted by what is put together of the others. So evaluation is muted by evaluation without a
trace, from every state and whatever faults there are, and sessions with and without a trace go the same
way step by step (`tracing_changes_nothing`).
-/

namespace SeedPeg

/-- The state without its trace. -/
def State.silent (s : State) : State := { s with trace := #[] }

/-- The setting in which no trace is kept. -/
def Setting.silent (setting : Setting) : Setting :=
  { setting with options := { setting.options with debug := false } }

/-- Whatever the one action does from a state, the other does from that state without its trace. -/
def Action.MutedBy {α : Type} (action quiet : Action α) : Prop :=
  ∀ s : State, quiet s.silent = ((action s).1, (action s).2.silent)

/-! ## Actions that are muted -/

namespace Action.MutedBy

variable {α β : Type} {action quiet : Action α}

theorem pure (answer : α) : (Pure.pure answer : Action α).MutedBy (Pure.pure answer) := fun _ => rfl

theorem fail (cause : Fault) : (Action.fail cause : Action α).MutedBy (.fail cause) := fun _ => rfl

theorem exhaust : (Action.exhaust : Action α).MutedBy .exhaust := fun _ => rfl

/-- Actions in a row are muted one by one; the first that does not finish ends both rows. -/
theorem bind {next quietNext : α → Action β} (first : action.MutedBy quiet)
    (later : ∀ answer, (next answer).MutedBy (quietNext answer)) :
    (action >>= next).MutedBy (quiet >>= quietNext) := by
  intro s
  have here := first s
  rw [bind_apply, bind_apply, here]
  rcases action s with ⟨answer | cause | _, after⟩
  · exact later answer after
  · rfl
  · rfl

theorem ite {p : Prop} [Decidable p] {other otherQuiet : Action α} (first : action.MutedBy quiet)
    (second : other.MutedBy otherQuiet) :
    (if p then action else other).MutedBy (if p then quiet else otherQuiet) := by
  split
  · exact first
  · exact second

theorem ofExcept (answer : Except Fault α) : (Action.ofExcept answer).MutedBy (.ofExcept answer) := by
  cases answer with
  | ok answer => exact pure answer
  | error cause => exact fail cause

theorem position : Action.position.MutedBy .position := fun _ => rfl

theorem moveTo (position : Int) : (Action.moveTo position).MutedBy (.moveTo position) := fun _ => rfl

theorem depth : Action.depth.MutedBy .depth := fun _ => rfl

theorem openRule : Action.openRule.MutedBy .openRule := fun _ => rfl

theorem closeRule : Action.closeRule.MutedBy .closeRule := fun _ => rfl

theorem look (position id : Int) : (Action.look position id).MutedBy (.look position id) := by
  intro s
  simp only [Action.look, State.silent]
  split <;> rfl

theorem store (position id : Int) (entry : Entry) :
    (Action.store position id entry).MutedBy (.store position id entry) := by
  intro s
  simp only [Action.store, State.silent]
  split <;> rfl

theorem forget (position id : Int) : (Action.forget position id).MutedBy (.forget position id) := by
  intro s
  simp only [Action.forget, State.silent]
  split <;> rfl

variable (setting : Setting)

/-- Where no trace is kept nothing is told. -/
theorem tell (event : Event) : (Action.tell setting event).MutedBy (.tell setting.silent event) := by
  intro s
  rw [Action.tell_apply, Action.tell_apply, State.told, State.told, if_neg (by simp [Setting.silent])]
  split <;> rfl

theorem consume (symbol : Value) :
    (Action.consume setting symbol).MutedBy (.consume setting.silent symbol) := by
  intro s
  by_cases inside : s.position < setting.input.size
  · cases read : setting.input.symbolAt s.position with
    | error cause => simp [Action.consume, State.silent, Setting.silent, inside, read]
    | ok found =>
      cases same : found.equals symbol <;>
        simp [Action.consume, State.silent, Setting.silent, inside, read, same]
  · simp [Action.consume, State.silent, Setting.silent, inside]

theorem atEnd : (Action.atEnd setting).MutedBy (.atEnd setting.silent) := fun _ => rfl

/-! ## Combinators -/

theorem consumeAll (symbols : List Value) :
    (Action.consumeAll setting symbols).MutedBy (.consumeAll setting.silent symbols) := by
  induction symbols with
  | nil => exact pure true
  | cons symbol rest ih =>
    refine bind (consume setting symbol) fun found => ?_
    cases found with
    | true => exact ih
    | false => exact pure false

theorem literal (value : Value) : (Action.literal setting value).MutedBy (.literal setting.silent value) := by
  simp only [Action.literal]
  cases value.symbols? with
  | none => exact fail _
  | some symbols =>
    refine bind (consumeAll setting symbols) fun all => ?_
    cases all <;> exact pure _

section

variable {attempt quiet : Action (Option Tree)} (attempts : attempt.MutedBy quiet)
include attempts

theorem star (bound : Nat) : (Action.star attempt bound).MutedBy (.star quiet bound) := by
  induction bound with
  | zero => exact exhaust
  | succ bound ih =>
    refine bind position fun start => bind attempts fun result => ?_
    cases result with
    | none => exact bind (moveTo start) fun _ => pure []
    | some tree =>
      exact bind position fun stop => ite (pure []) (bind ih fun trees => pure (tree :: trees))

theorem plus (bound : Nat) : (Action.plus attempt bound).MutedBy (.plus quiet bound) := by
  refine bind position fun start => bind attempts fun result => ?_
  cases result with
  | none => exact bind (moveTo start) fun _ => pure none
  | some tree => exact bind (star attempts bound) fun trees => pure _

theorem optional : (Action.optional attempt).MutedBy (.optional quiet) := by
  refine bind position fun start => bind attempts fun result => ?_
  cases result with
  | none => exact bind (moveTo start) fun _ => pure _
  | some tree => exact pure _

theorem ahead : (Action.ahead attempt).MutedBy (.ahead quiet) :=
  bind position fun start => bind attempts fun _ => bind (moveTo start) fun _ => pure _

theorem notAhead : (Action.notAhead attempt).MutedBy (.notAhead quiet) :=
  bind position fun start => bind attempts fun _ => bind (moveTo start) fun _ => pure _

/-! ## Rule applications -/

variable (name : Value) (start id : Int)

theorem sow : (Action.sow start id attempt).MutedBy (.sow start id quiet) := by
  have reads : (Action.readMarker start id).MutedBy (.readMarker start id) := by
    refine bind (look start id) fun entry => ?_
    rcases entry with _ | (_ | _)
    · exact fail _
    · exact pure _
    · exact fail _
  exact bind attempts fun first => bind reads fun detected => bind position fun stop =>
    bind (store start id _) fun _ => pure (first, detected)

theorem grow (bound : Nat) :
    (Action.grow setting name start id attempt bound).MutedBy
      (.grow setting.silent name start id quiet bound) := by
  induction bound with
  | zero => exact exhaust
  | succ bound ih =>
    refine bind (look start id) fun entry => ?_
    rcases entry with _ | (_ | ⟨seed, reached⟩)
    · exact fail _
    · exact fail _
    · have ends := bind (moveTo reached) fun _ => pure seed
      have goesOn (tree : Option Tree) (stop : Int) := bind (tell setting (.grew name start stop)) fun _ =>
        bind (store start id (.ofResult start tree stop)) fun _ => ih
      exact bind (moveTo start) fun _ => bind attempts fun tree => bind position fun stop =>
        ite ends (goesOn tree stop)

theorem ripen (bound : Nat) (first : Option Tree × Bool) :
    (Action.ripen setting name start id attempt bound first).MutedBy
      (.ripen setting.silent name start id quiet bound first) := by
  rcases first with ⟨_ | seed, _ | _⟩
  · exact pure none
  · exact pure none
  · exact pure (some seed)
  · exact grow setting attempts name start id bound

end

section

variable (name : Value) (start id : Int)

theorem enter : (Action.enter setting name start id).MutedBy (.enter setting.silent name start id) := by
  have guards : (Action.guardDepth setting name start).MutedBy (.guardDepth setting.silent name start) := by
    refine bind depth fun opened =>
      bind (ofExcept (setting.options.limitReached opened)) fun reached => ?_
    cases reached with
    | true => exact fail _
    | false => exact pure ()
  exact bind guards fun _ => bind (tell setting _) fun _ => bind openRule fun _ =>
    store start id (.marker false)

theorem leave (result : Option Tree) :
    (Action.leave setting name start id result).MutedBy (.leave setting.silent name start id result) := by
  have concludes :
      (Action.conclude setting name start result).MutedBy (.conclude setting.silent name start result) := by
    cases result with
    | none => exact bind (moveTo start) fun _ => tell setting _
    | some tree => exact bind position fun stop => tell setting _
  exact bind closeRule fun _ => bind concludes fun _ => ite (pure ()) (forget start id)

theorem applyFresh {attempt quiet : Action (Option Tree)} (attempts : attempt.MutedBy quiet) (bound : Nat) :
    (Action.applyFresh setting name start id attempt bound).MutedBy
      (.applyFresh setting.silent name start id quiet bound) :=
  bind (enter setting name start id) fun _ => bind (sow attempts start id) fun first =>
    bind (ripen setting attempts name start id bound first) fun result =>
      bind (leave setting name start id result) fun _ => pure result

theorem applyKnown (entry : Entry) :
    (Action.applyKnown setting name start id entry).MutedBy
      (.applyKnown setting.silent name start id entry) := by
  rcases entry with (_ | _) | ⟨_ | tree, next⟩
  · exact bind (tell setting _) fun _ => bind (store start id _) fun _ => pure none
  · exact pure none
  · exact pure none
  · exact bind (moveTo next) fun _ => pure (some tree)

end

end Action.MutedBy

/-! ## Evaluation -/

section

variable {setting : Setting} {apply quiet : Value → Action (Option Tree)}

mutual

theorem Expr.evaluateWith_muted (applies : ∀ name, (apply name).MutedBy (quiet name)) (e : Expr) :
    (e.evaluateWith setting apply).MutedBy (e.evaluateWith setting.silent quiet) := by
  cases e with
  | terminal literal => exact .literal setting literal
  | rule name => exact applies name
  | sequence items => exact .bind (Expr.evaluateItems_muted applies items) fun trees => .pure _
  | choice alternatives =>
    exact .bind .position fun start => Expr.evaluateFirst_muted applies start alternatives
  | star element => exact .bind (.star (Expr.evaluateWith_muted applies element) _) fun trees => .pure _
  | plus element => exact .plus (Expr.evaluateWith_muted applies element) _
  | optional element => exact .optional (Expr.evaluateWith_muted applies element)
  | ahead element => exact .ahead (Expr.evaluateWith_muted applies element)
  | notAhead element => exact .notAhead (Expr.evaluateWith_muted applies element)
  | bare => exact .fail _
  | plain value => exact .fail _

theorem Expr.evaluateItems_muted (applies : ∀ name, (apply name).MutedBy (quiet name)) (items : List Expr) :
    (Expr.evaluateItems setting apply items).MutedBy (Expr.evaluateItems setting.silent quiet items) := by
  cases items with
  | nil => exact .pure _
  | cons item rest =>
    refine .bind (Expr.evaluateWith_muted applies item) fun result => ?_
    cases result with
    | none => exact .pure none
    | some tree => exact .bind (Expr.evaluateItems_muted applies rest) fun trees => .pure _

theorem Expr.evaluateFirst_muted (applies : ∀ name, (apply name).MutedBy (quiet name)) (start : Int)
    (alternatives : List Expr) :
    (Expr.evaluateFirst setting apply start alternatives).MutedBy
      (Expr.evaluateFirst setting.silent quiet start alternatives) := by
  cases alternatives with
  | nil => exact .bind (.moveTo start) fun _ => .pure none
  | cons alternative rest =>
    refine .bind (.moveTo start) fun _ => .bind (Expr.evaluateWith_muted applies alternative) fun result => ?_
    cases result with
    | none => exact Expr.evaluateFirst_muted applies start rest
    | some tree => exact .pure _

end

end

theorem applyRule_muted (setting : Setting) (fuel : Nat) (name : Value) :
    (applyRule setting fuel name).MutedBy (applyRule setting.silent fuel name) := by
  induction fuel generalizing name with
  | zero => exact .exhaust
  | succ fuel ih =>
    refine .bind (.ofExcept (setting.grammar.lookup name)) fun found => .bind .position fun start =>
      .bind (.look start found.1) fun entry => ?_
    cases entry with
    | none => exact .applyFresh setting name start found.1 (Expr.evaluateWith_muted ih found.2) _
    | some entry => exact .applyKnown setting name start found.1 entry

theorem Expr.evaluate_muted (setting : Setting) (e : Expr) :
    (e.evaluate setting).MutedBy (e.evaluate setting.silent) :=
  Expr.evaluateWith_muted (applyRule_muted setting setting.ruleBound) e

/-! ## Sessions -/

namespace Session

/-- The session without a trace, in which none is kept. -/
def silent (session : Session) : Session :=
  { session with setting := session.setting.silent, state := session.state.silent }

/-- Whether a step leaves alone whether a trace is kept, and does not fail for what it has to tell. -/
def Step.leavesTracing : Step → Bool
  | .assign assignment => assignment.debug.isNone
  | .remark (.str _) => true
  | .remark _ => false
  | .evaluate _ | .consume _ | .atEnd | .memo _ => true

/-- What steps end with one after the other, whether they fail or not, and the session after each. -/
def outcomes (session : Session) : List Step → List (Outcome Answer × Session)
  | [] => []
  | step :: rest => session.step step :: (session.step step).2.outcomes rest

variable {session : Session} {step : Step}

theorem run_silent {α : Type} {action quiet : Action α} (muted : action.MutedBy quiet) (answer : α → Answer) :
    session.silent.run quiet answer =
      ((session.run action answer).1, (session.run action answer).2.silent) := by
  have here := muted session.state
  simp only [run, silent, here]

theorem evaluate_silent (e : Expr) : (session.evaluate e).MutedBy (session.silent.evaluate e) := by
  have ungoverned := @Expr.evaluateWith_muted session.setting _ _ (fun _ => .fail (.noGrammar .lookup)) e
  exact .ite (e.evaluate_muted session.setting) ungoverned

/-- Without a trace a step does the same. -/
theorem step_silent (leaves : step.leavesTracing = true) :
    session.silent.step step = ((session.step step).1, (session.step step).2.silent) := by
  cases step with
  | evaluate e => exact run_silent (evaluate_silent e) _
  | consume symbol => exact run_silent (.consume session.setting symbol) _
  | atEnd => exact run_silent (.atEnd session.setting) _
  | assign assignment =>
    have kept : assignment.debug = none := by simpa [Step.leavesTracing] using leaves
    simp only [Session.step, assign, silent, kept]
    rfl
  | remark message =>
    cases message with
    | str text => exact run_silent (.tell session.setting (.remark text)) _
    | _ => cases leaves
  | memo operation =>
    simp only [Session.step, silent, State.silent]
    rcases session.state.memo.perform operation with ⟨reply | cause, memo⟩ <;> rfl

theorem outcomes_silent {steps : List Step} (leave : ∀ step ∈ steps, step.leavesTracing = true) :
    session.silent.outcomes steps =
      (session.outcomes steps).map fun after => (after.1, after.2.silent) := by
  induction steps generalizing session with
  | nil => rfl
  | cons step rest ih =>
    rw [List.forall_mem_cons] at leave
    rw [outcomes, outcomes, step_silent leave.1, ih leave.2, List.map_cons]

end Session

/-- A step has the same result or the same fault in two sessions, and leaves the same cursor, the same depth
    and the same memo table; the second session has told nothing. -/
structure Session.SameButTold (traced silent : Outcome Session.Answer × Session) : Prop where
  outcome : silent.1 = traced.1
  position : silent.2.state.position = traced.2.state.position
  depth : silent.2.state.depth = traced.2.state.depth
  memo : silent.2.state.memo = traced.2.state.memo
  untold : silent.2.takeTrace.1 = ""

/-- Two sessions that start on the same rules and the same input, under the same options but that only the
    first keeps a trace, go the same way in any steps that leave it at that, whatever faults there are. -/
theorem tracing_changes_nothing (rules : Rules) (input : Input) (options : Options)
    {steps : List Session.Step} (leave : ∀ step ∈ steps, step.leavesTracing = true) :
    List.Forall₂ Session.SameButTold
      ((Session.start rules input { options with debug := true }).outcomes steps)
      ((Session.start rules input { options with debug := false }).outcomes steps) := by
  have started : Session.start rules input { options with debug := false } =
      (Session.start rules input { options with debug := true }).silent := by
    cases rules <;> rfl
  rw [started, Session.outcomes_silent leave, List.forall₂_map_right_iff, List.forall₂_same]
  exact fun after _ => ⟨rfl, rfl, rfl, rfl, rfl⟩

/-- A sum is evaluated, and from its start again in front of a rule that is not declared. -/
def sumThenMore : List Session.Step :=
  [.evaluate (.rule defaultStart), .assign { position := some 0 },
    .evaluate (.sequence [.rule defaultStart, .rule (.str "more")])]

/-- The fault of the last step comes after what is told of the sum. -/
theorem sums_untold :
    (∀ step ∈ sumThenMore, step.leavesTracing = true) ∧
      ((Session.start (.checked sums.grammar) (.text #['1', '+', '1'])
          { memoize := false, debug := true }).outcomes sumThenMore).map
          (fun after => (after.1, after.2.state.trace.size)) =
        [(.done (.result (some (.node [.leaf (.str "1"), .leaf (.str "+1")]))), 4), (.done .nothing, 4),
          (.fault (.unknownRule (.str "more")), 8)] ∧
      List.Forall₂ Session.SameButTold
        ((Session.start (.checked sums.grammar) (.text #['1', '+', '1'])
          { memoize := false, debug := true }).outcomes sumThenMore)
        ((Session.start (.checked sums.grammar) (.text #['1', '+', '1'])
          { memoize := false, debug := false }).outcomes sumThenMore) := by
  have leave : ∀ step ∈ sumThenMore, step.leavesTracing = true := by decide
  refine ⟨leave, ?_, tracing_changes_nothing _ _ { memoize := false } leave⟩
  cbv

end SeedPeg
