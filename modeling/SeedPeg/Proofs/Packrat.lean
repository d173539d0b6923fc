import SeedPeg.Proofs.Ledger
import SeedPeg.Proofs.Sessions

/-!
# Work that is done once

Where results are kept, a rule is opened at a position at most once in a whole session, whatever is
evaluated in it and whatever fails (`opens_once`). So the memo table has at every moment as many entries as
rule applications have been opened, never fewer than before, and never more than there are rules and
positions; and no definition is evaluated at a position more often than its seed can grow.
-/

namespace SeedPeg

/-! ## Markers -/

/-- Whether every application that is opened has its marker at once, where nothing was known. -/
def Setting.Marks (setting : Setting) (moments : List Moment) : Prop :=
  ∀ index moment opening, moments[index]? = some moment → moment.opening? setting = some opening →
    moment.state.known opening.2 = none ∧
    ∃ next, moments[index + 1]? = some next ∧ next.state.known opening.2 = some (.marker false)

section

variable {setting : Setting} {moment : Moment} {moments before after : List Moment}

theorem Setting.Marks.append (first : setting.Marks before) (second : setting.Marks after) :
    setting.Marks (before ++ after) := by
  intro index moment opening here opens
  rw [List.getElem?_append] at here
  split at here
  · obtain ⟨unknown, next, there, marked⟩ := first index moment opening here opens
    refine ⟨unknown, next, ?_, marked⟩
    rw [List.getElem?_append_left (List.getElem?_eq_some_iff.mp there).1, there]
  · rename_i outside
    obtain ⟨unknown, next, there, marked⟩ := second _ moment opening here opens
    refine ⟨unknown, next, ?_, marked⟩
    rw [List.getElem?_append_right (by omega), ← there]
    congr 1
    omega

/-- A task that is opened goes on in the state with its marker. -/
theorem Setting.Marks.cons {part : Moment} (marks : setting.Marks moments) (begins : moments[0]? = some part)
    (first : Moment.First setting moment part) (ready : moment.task.Ready setting moment.state) :
    setting.Marks (moment :: moments) := by
  intro index other opening here opens
  cases index with
  | zero =>
    cases here
    cases first with
    | opened accepted =>
      obtain ⟨proper, _, unknown⟩ := ready
      simp only [Moment.opening?, accepted, Option.isNone_none, ↓reduceIte, Option.some.injEq] at opens
      subst opens
      refine ⟨unknown, _, begins, ?_⟩
      rw [proper.known_opened, if_pos rfl]
    | part | applied | round => cases opens
  | succ index => exact marks index other opening here opens

theorem Course.head (course : Course setting moment moments) : moments[0]? = some moment := by
  cases course <;> rfl

theorem Course.marks (course : Course setting moment moments)
    (ready : moment.task.Ready setting moment.state) : setting.Marks moments := by
  induction course with
  | @alone moment single =>
    intro index other opening here opens
    have same : moment = other := by
      cases index with
      | zero => cases here; rfl
      | succ => cases here
    subst same
    obtain ⟨task, s⟩ := moment
    cases task with
    | expr | growth => cases opens
    | fresh name id body =>
      cases refusal : setting.refusal name s with
      | none => exact absurd (.opened refusal) (single _)
      | some => simp [Moment.opening?, refusal] at opens
  | last first _ _ course ih => exact (ih (first.ready ready)).cons course.head first ready
  | @more _ _ _ _ _ inner later first runs follows course _ ihInner ihLater =>
    have begins : (inner ++ later)[0]? = inner[0]? :=
      List.getElem?_append_left (List.getElem?_eq_some_iff.mp course.head).1
    have marks := (ihInner (first.ready ready)).append (ihLater (follows.ready first ready runs))
    exact marks.cons (begins.trans course.head) first ready

end

/-! ## Sessions -/

namespace Session

/-- The sessions that steps of a parse lead to, with the moments of all that was evaluated in them. -/
inductive Life (grammar : Grammar) (input : Input) (options : Options) : Session → List Moment → Prop where
  | start : Life grammar input options (.start (.checked grammar) input options) []
  | evaluated {session moments later} (e : Expr) : Life grammar input options session moments →
      Course session.setting ⟨.expr e, session.state⟩ later →
      Life grammar input options (session.step (.evaluate e)).2 (moments ++ later)
  | consumed {session moments} (symbol : Value) : Life grammar input options session moments →
      Life grammar input options (session.step (.consume symbol)).2 moments
  | looked {session moments} : Life grammar input options session moments →
      Life grammar input options (session.step .atEnd).2 moments

variable {grammar : Grammar} {input : Input} {options : Options} {session : Session} {moments : List Moment}

theorem Life.parsed (life : Life grammar input options session moments) :
    Parsed grammar input options session := by
  induction life with
  | start => exact .start
  | evaluated e _ _ ih => exact .step (.evaluate e) ih rfl
  | consumed symbol _ ih => exact .step (.consume symbol) ih rfl
  | looked _ ih => exact .step .atEnd ih rfl

/-- Every session of a parse has its moments. -/
theorem Parsed.life (parsed : Parsed grammar input options session) :
    ∃ moments, Life grammar input options session moments := by
  induction parsed with
  | start => exact ⟨[], .start⟩
  | @step session step parsed parses ih =>
    obtain ⟨moments, life⟩ := ih
    cases step with
    | evaluate e =>
      obtain ⟨later, course⟩ := (e.evaluate_runs parsed.accounted.proper).course
      exact ⟨_, life.evaluated e course⟩
    | consume symbol => exact ⟨_, life.consumed symbol⟩
    | atEnd => exact ⟨_, life.looked⟩
    | assign | remark | memo => cases parses

/-- The ledger of all that was evaluated in a session. -/
theorem Life.ledger (remembers : options.memoize = true) (life : Life grammar input options session moments) :
    Ledger ⟨input, grammar, options⟩ none (.fresh input.size) moments session.state := by
  induction life with
  | start => exact .still (fun _ known => known) rfl rfl
  | @evaluated session moments later e life course ih =>
    have parsed := life.parsed
    have same : session.setting = ⟨input, grammar, options⟩ := by rw [parsed.setting_eq]
    have proper := parsed.accounted.proper
    rw [same] at course proper
    obtain ⟨others, again, ledger, _⟩ := (e.evaluate_runs proper).ledger remembers proper
    obtain rfl := course.unique again
    have shown : (session.step (.evaluate e)).2.state =
        (e.evaluate ⟨input, grammar, options⟩ session.state).2 := by
      rw [parsed.step_evaluate, same]
    rw [shown]
    exact ih.trans ledger
  | consumed symbol life ih =>
    obtain ⟨_, position, _, _, shown⟩ := step_consume life.parsed.accounted.proper symbol
    rw [shown]
    exact ih.quietly (.moved position)
  | looked _ ih => exact ih

/-- Every application that is opened in a session has its marker at once. -/
theorem Life.marks (life : Life grammar input options session moments) :
    Setting.Marks ⟨input, grammar, options⟩ moments := by
  induction life with
  | start =>
    intro index moment opening here
    cases here
  | evaluated e life course ih =>
    have marks := course.marks life.parsed.accounted.proper
    rw [life.parsed.setting_eq] at marks
    exact ih.append marks
  | consumed _ _ ih | looked _ ih => exact ih

end Session

/-- What is done once in a session whose results are kept: no rule is opened twice at a position; the
    trace tells, and the memo table holds at every moment, what has been opened before. A definition is
    evaluated at a position for a seed, for as many longer ones as there are symbols from there on, and
    once in vain. -/
structure Session.Thrifty (setting : Setting) (moments : List Moment) (s : State) : Prop where
  once : ((setting.openings moments).map (·.2)).Nodup
  marks : setting.Marks moments
  told : setting.options.debug = true →
    s.parsings = (setting.openings moments).map fun opening => (opening.1, opening.2.position)
  size : s.memo.size = (setting.openings moments).length
  sizes : ∀ (index : Nat) moment, moments[index]? = some moment →
    moment.state.memo.size = (setting.openings (moments.take index)).length
  few : s.memo.size ≤ setting.grammar.size * (setting.input.size + 1)
  grows : (moments.map (·.state.memo.size) ++ [s.memo.size]).Pairwise (· ≤ ·)
  inside : ∀ site ∈ setting.passes moments, site.id < setting.grammar.size ∧ 0 ≤ site.position ∧
    site.position ≤ setting.input.size
  passes : ∀ site ∈ setting.passes moments,
    (setting.passes moments).count site ≤ setting.input.size - site.position + 2

section

variable {grammar : Grammar} {input : Input} {options : Options} {session : Session} {moments : List Moment}

theorem Session.Life.thrifty (remembers : options.memoize = true)
    (life : Life grammar input options session moments) :
    Thrifty ⟨input, grammar, options⟩ moments session.state := by
  have ledger := life.ledger remembers
  have empty := State.size_fresh input.size
  have size := ledger.size
  rw [empty, Nat.zero_add] at size
  refine ⟨ledger.once, life.marks, ledger.told, size, ?_, ?_, ledger.grows, ledger.inside, ?_⟩
  · intro index moment here
    have held := ledger.sizes index moment here
    rwa [empty, Nat.zero_add] at held
  · rw [size]
    exact ledger.few
  · intro site member
    exact (ledger.spared site member (by simp)).2.2

/-- Every session of a parse has its moments, and where results are kept, what is done once is done once
    in all of them, whatever faults there have been. A step more keeps all entries. -/
theorem opens_once (remembers : options.memoize = true) :
    (∀ session, Session.Parsed grammar input options session →
      ∃ moments, Session.Life grammar input options session moments) ∧
    (∀ session moments, Session.Life grammar input options session moments →
      Session.Thrifty ⟨input, grammar, options⟩ moments session.state) ∧
    (∀ session, Session.Parsed grammar input options session → ∀ step : Session.Step, step.parses = true →
      session.state.memo.size ≤ (session.step step).2.state.memo.size) := by
  refine ⟨fun session parsed => parsed.life, fun session moments life => life.thrifty remembers, ?_⟩
  intro session parsed step parses
  obtain ⟨moments, life⟩ := parsed.life
  have size := (life.thrifty remembers).size
  cases step with
  | evaluate e =>
    obtain ⟨later, course⟩ := (e.evaluate_runs parsed.accounted.proper).course
    have more := ((life.evaluated e course).thrifty remembers).size
    rw [Setting.openings_append, List.length_append] at more
    omega
  | consume symbol =>
    have same := ((life.consumed symbol).thrifty remembers).size
    omega
  | atEnd =>
    have same := (life.looked.thrifty remembers).size
    omega
  | assign | remark | memo => cases parses

/-- A sum that is looked at twice is opened once. -/
theorem sums_open_once :
    ∃ session moments, Session.Life sums.grammar (.text #['1', '+', '1']) {} session moments ∧
      Session.Thrifty ⟨.text #['1', '+', '1'], sums.grammar, {}⟩ moments session.state ∧
      (Setting.openings ⟨.text #['1', '+', '1'], sums.grammar, {}⟩ moments).length = 1 ∧
      session.state.memo.size = 1 ∧ 1 ≤ (session.step .atEnd).2.state.memo.size := by
  obtain ⟨session, parsed, size⟩ : ∃ session,
      Session.Parsed sums.grammar (.text #['1', '+', '1']) {} session ∧ session.state.memo.size = 1 := by
    let looks := Session.Step.evaluate (.ahead (.rule defaultStart))
    exact ⟨_, .step looks (.step looks .start rfl) rfl, by cbv⟩
  obtain ⟨lives, thrifty, keeps⟩ := @opens_once sums.grammar (.text #['1', '+', '1']) {} rfl
  obtain ⟨moments, life⟩ := lives session parsed
  have once := thrifty session moments life
  have kept := keeps session parsed .atEnd rfl
  exact ⟨session, moments, life, once, once.size.symm.trans size, size, size ▸ kept⟩

end

end SeedPeg
