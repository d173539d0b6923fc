import Mathlib
import SeedPeg.Proofs.Course
import SeedPeg.Proofs.Termination

/-!
# The limit of the depth

A limit of open rule applications only replaces what a match ends with by a fault, and that exactly if
without a limit the depth becomes greater (`limit_only_interrupts`). Whatever does not open an application
does not look at the limit, so a run that stays within it is the same run (`Runs.limited`). The first
application that would exceed it is refused, and the fault goes through all that has begun before
(`Course.exceeds`).
-/

namespace SeedPeg

/-- The setting with another limit of open rule applications. -/
def Setting.limited (setting : Setting) (limit : Value) : Setting :=
  { setting with options := { setting.options with maxDepth := limit } }

/-- The matcher with another limit of open rule applications. -/
def Matcher.limited (matcher : Matcher) (limit : Value) : Matcher :=
  { matcher with options := { matcher.options with maxDepth := limit } }

/-- Whether a rule application is to be opened when as many are open as a limit allows. -/
def Moment.exceeds (limit : Int) : Moment → Bool
  | ⟨.fresh .., s⟩ => s.depth = limit
  | _ => false

section

variable {setting : Setting} {limit : Int} {moment part next : Moment} {moments : List Moment}
  {s s' s1 : State} {result : Result} {task : Task} {name : Value}

theorem Setting.refusal_limited (setting : Setting) (limit : Int) (name : Value) (s : State) :
    (setting.limited (.int limit)).refusal name s =
      if limit ≤ s.depth then some (.tooDeep (.int limit) name s.position) else none := by
  simp only [refusal, limited, Options.limitReached, Value.number?, Number.atMost_ofInt]
  by_cases reached : limit ≤ s.depth <;> simp [reached]

theorem Action.consumeAll_limited (setting : Setting) (limit : Value) (symbols : List Value) :
    Action.consumeAll (setting.limited limit) symbols = Action.consumeAll setting symbols := by
  induction symbols with
  | nil => rfl
  | cons symbol rest ih =>
    rw [consumeAll, consumeAll, ih]
    rfl

theorem Action.literal_limited (setting : Setting) (limit literal : Value) :
    Action.literal (setting.limited limit) literal = Action.literal setting literal := by
  simp only [Action.literal, consumeAll_limited]

/-- An application that leads to no depth above a limit is not refused under the limit. -/
theorem Course.accepted {id : Nat} {body : Expr}
    (course : Course (setting.limited .none) ⟨.fresh name id body, s⟩ moments)
    (within : ∀ each ∈ moments, each.state.depth ≤ limit) :
    (setting.limited (.int limit)).refusal name s = none := by
  obtain ⟨inner, begun, within⟩ := course.first within (.opened rfl)
  have deeper : (s.opened (setting.limited .none) name id).depth ≤ limit := within _ begun.mem_self
  rw [State.depth_opened] at deeper
  rw [Setting.refusal_limited, if_neg (by omega)]

/-- A run in which the depth does not become greater than a limit is a run under the limit. -/
theorem Runs.limited (runs : Runs (setting.limited .none) task s result s')
    (course : Course (setting.limited .none) ⟨task, s⟩ moments)
    (within : ∀ each ∈ moments, each.state.depth ≤ limit) :
    Runs (setting.limited (.int limit)) task s result s' := by
  induction runs generalizing moments with
  | terminal matched =>
    rw [Action.literal_limited] at matched
    exact .terminal (by rwa [Action.literal_limited])
  | bare => exact .bare
  | plain => exact .plain
  | nothing => exact .nothing
  | never => exact .never
  | stop first _ after ih =>
    obtain ⟨inner, begun, below⟩ := course.first within (.part first)
    exact .stop first (ih begun below) after
  | go first runs after _ ihPart ihNext =>
    obtain ⟨inner, begun, below⟩ := course.first within (.part first)
    obtain ⟨later, further, still⟩ := course.follows within (.part first) runs (.next after)
    exact .go first (ihPart begun below) after (ihNext further still)
  | unknown missing => exact .unknown missing
  | marked found known => exact .marked found known
  | remembered found known => exact .remembered found known
  | applied found unknown _ ih =>
    obtain ⟨inner, begun, below⟩ := course.first within (.applied found unknown)
    exact .applied found unknown (ih begun below)
  | refused refused => cases refused
  | broken accepted _ ih =>
    obtain ⟨inner, begun, below⟩ := course.first within (.opened accepted)
    exact .broken (course.accepted within) (ih begun below)
  | settled accepted _ found unflagged ih =>
    obtain ⟨inner, begun, below⟩ := course.first within (.opened accepted)
    exact .settled (course.accepted within) (ih begun below) found unflagged
  | ripened accepted runs flagged _ ihBody ihGrowth =>
    obtain ⟨inner, begun, below⟩ := course.first within (.opened accepted)
    obtain ⟨later, further, still⟩ := course.follows within (.opened accepted) runs (.seeded flagged)
    exact .ripened (course.accepted within) (ihBody begun below) flagged (ihGrowth further still)
  | withered accepted runs flagged _ ihBody ihGrowth =>
    obtain ⟨inner, begun, below⟩ := course.first within (.opened accepted)
    obtain ⟨later, further, still⟩ := course.follows within (.opened accepted) runs (.seeded flagged)
    exact .withered (course.accepted within) (ihBody begun below) flagged (ihGrowth further still)
  | grown known _ short ih =>
    obtain ⟨inner, begun, below⟩ := course.first within .round
    exact .grown known (ih begun below) short
  | growing known runs longer _ ihBody ihNext =>
    obtain ⟨inner, begun, below⟩ := course.first within .round
    obtain ⟨later, further, still⟩ := course.follows within .round runs (.regrown known longer)
    exact .growing known (ihBody begun below) longer (ihNext further still)
  | stunted known _ ih =>
    obtain ⟨inner, begun, below⟩ := course.first within .round
    exact .stunted known (ih begun below)

/-! ## The first application above the limit -/

/-- What a task begins with is no deeper than a limit that the task does not exceed. -/
theorem Moment.First.below (first : First setting moment part) (below : moment.state.depth ≤ limit)
    (accepted : moment.exceeds limit = false) : part.state.depth ≤ limit := by
  cases first with
  | part | applied => exact below
  | @opened _ _ _ s =>
    have apart : s.depth ≠ limit := of_decide_eq_false accepted
    have below : s.depth ≤ limit := below
    rw [State.depth_opened]
    omega
  | round => exact below

/-- Without an application that exceeds the limit the depth does not become greater than it. -/
theorem Course.within_limit (course : Course setting moment moments)
    (ready : moment.task.Ready setting moment.state) (below : moment.state.depth ≤ limit)
    (accepted : ∀ each ∈ moments, each.exceeds limit = false) :
    ∀ each ∈ moments, each.state.depth ≤ limit := by
  induction course with
  | alone => simpa using below
  | last first _ _ _ ih =>
    obtain ⟨here, inside⟩ := List.forall_mem_cons.mp accepted
    exact List.forall_mem_cons.mpr ⟨below, ih (first.ready ready) (first.below below here) inside⟩
  | more first runs follows _ _ ihInner ihLater =>
    obtain ⟨here, inside⟩ := List.forall_mem_cons.mp accepted
    obtain ⟨inside, after⟩ := List.forall_mem_append.mp inside
    have deeper := first.below below here
    refine List.forall_mem_cons.mpr ⟨below, List.forall_mem_append.mpr ⟨?_, ?_⟩⟩
    · exact ihInner (first.ready ready) deeper inside
    · refine ihLater (follows.ready first ready runs) ?_ after
      rw [follows.depth first ready runs]
      exact deeper

namespace Moment

theorem First.limited (first : First (setting.limited .none) moment part)
    (below : moment.state.depth ≤ limit) (accepted : moment.exceeds limit = false) :
    First (setting.limited (.int limit)) moment part := by
  cases first with
  | part first => exact .part first
  | applied found unknown => exact .applied found unknown
  | @opened name id body s _ =>
    have apart : s.depth ≠ limit := of_decide_eq_false accepted
    have below : s.depth ≤ limit := below
    exact .opened (by rw [Setting.refusal_limited, if_neg (by omega)])
  | round => exact .round

theorem Follows.limited (follows : Follows (setting.limited .none) moment result s1 next) :
    Follows (setting.limited (.int limit)) moment result s1 next := by
  cases follows with
  | next after => exact .next after
  | seeded flagged => exact .seeded flagged
  | regrown known further => exact .regrown known further

/-- An application that would exceed the limit is refused. -/
theorem refused_of_exceeds (exceeds : moment.exceeds limit = true) :
    ∃ name id body s', moment.task = .fresh name id body ∧
      Runs (setting.limited (.int limit)) moment.task moment.state
        (.fault (.tooDeep (.int limit) name moment.state.position)) s' := by
  obtain ⟨task, s⟩ := moment
  cases task with
  | fresh name id body =>
    have reached : s.depth = limit := of_decide_eq_true exceeds
    exact ⟨name, id, body, s, rfl, .refused (by rw [Setting.refusal_limited, if_pos (by simp [reached])])⟩
  | expr | growth => cases exceeds

end Moment

theorem Task.Ready.limited {first second : Value} (ready : task.Ready (setting.limited first) s) :
    task.Ready (setting.limited second) s := by
  have proper : s.Proper (setting.limited second) := by
    obtain ⟨low, high, rows, results⟩ := ready.proper
    exact ⟨low, high, rows, results⟩
  cases task with
  | expr => exact proper
  | fresh => exact ⟨proper, ready.2⟩
  | growth => exact ⟨proper, ready.2⟩

/-- Under the limit a run ends with the fault of the first application that exceeds it. -/
theorem Course.exceeds (course : Course (setting.limited .none) moment moments)
    (ready : moment.task.Ready (setting.limited .none) moment.state) (below : moment.state.depth ≤ limit)
    {found : Moment} (exceeds : moments.find? (·.exceeds limit) = some found) :
    ∃ name id body s', found.task = .fresh name id body ∧
      Runs (setting.limited (.int limit)) moment.task moment.state
        (.fault (.tooDeep (.int limit) name found.state.position)) s' := by
  induction course with
  | @alone moment =>
    rw [List.find?_singleton] at exceeds
    split at exceeds
    · rename_i here
      cases exceeds
      exact Moment.refused_of_exceeds here
    · cases exceeds
  | @last moment part result s1 inner first _ _ _ ih =>
    cases here : moment.exceeds limit with
    | true =>
      rw [List.find?_cons_of_pos here] at exceeds
      cases exceeds
      exact Moment.refused_of_exceeds here
    | false =>
      rw [List.find?_cons_of_neg (by simp [here])] at exceeds
      obtain ⟨name, id, body, s', same, failed⟩ :=
        ih (first.ready ready) (first.below below here) exceeds
      exact ⟨name, id, body, s', same, (first.limited below here).fault ready.limited failed⟩
  | @more moment part result s1 next inner later first runs follows begun _ ihInner ihLater =>
    cases here : moment.exceeds limit with
    | true =>
      rw [List.find?_cons_of_pos here] at exceeds
      cases exceeds
      exact Moment.refused_of_exceeds here
    | false =>
      have deeper := first.below below here
      have begins := first.limited below here
      rw [List.find?_cons_of_neg (by simp [here]), List.find?_append] at exceeds
      cases inside : inner.find? (·.exceeds limit) with
      | some earliest =>
        rw [inside] at exceeds
        cases exceeds
        obtain ⟨name, id, body, s', same, failed⟩ := ihInner (first.ready ready) deeper inside
        exact ⟨name, id, body, s', same, begins.fault ready.limited failed⟩
      | none =>
        rw [inside] at exceeds
        -- what comes before is within the limit, so it runs as it does without one
        have accepted : ∀ each ∈ inner, each.exceeds limit = false := by simpa using inside
        have within := begun.within_limit (first.ready ready) deeper accepted
        have same : next.state.depth = part.state.depth := follows.depth first ready runs
        obtain ⟨name, id, body, s', same, failed⟩ :=
          ihLater (follows.ready first ready runs) (by omega) exceeds
        exact ⟨name, id, body, s', same, follows.limited.fault begins (runs.limited begun within) failed⟩

end

/-! ## Matches -/

section

variable {matcher : Matcher} {input : Input} {start : Option Value} {limit : Int} {moments : List Moment}

/-- A match in which the depth does not become greater than a limit is the same under the limit. -/
theorem Matcher.run_within
    (course : Course ((matcher.setting input).limited .none)
      ⟨.expr (matcher.entry start), .fresh input.size⟩ moments)
    (within : ∀ each ∈ moments, each.state.depth ≤ limit) :
    (matcher.limited (.int limit)).run input start = (matcher.limited .none).run input start := by
  have proper : (State.fresh input.size).Proper ((matcher.setting input).limited .none) := .fresh
  have proper' : (State.fresh input.size).Proper ((matcher.setting input).limited (.int limit)) := .fresh
  have runs := (matcher.entry start).evaluate_runs proper
  have same : (matcher.entry start).evaluate ((matcher.setting input).limited (.int limit))
      (.fresh input.size) = (matcher.entry start).evaluate ((matcher.setting input).limited .none)
      (.fresh input.size) := (runs_iff_evaluate proper').mp (runs.limited course within)
  have left : (matcher.limited (.int limit)).run input start = _ := Matcher.run_apply _ input start
  have right : (matcher.limited .none).run input start = _ := Matcher.run_apply _ input start
  rw [left, right]
  simp only [show ∀ limit, (matcher.limited limit).entry start = matcher.entry start from fun _ => rfl,
    show ∀ limit, (matcher.limited limit).setting input = (matcher.setting input).limited limit from
      fun _ => rfl, same]
  rfl

/-- Under a limit that is exceeded a match ends with the fault of the first application above it. -/
theorem Matcher.run_exceeds
    (course : Course ((matcher.setting input).limited .none)
      ⟨.expr (matcher.entry start), .fresh input.size⟩ moments) (low : 0 ≤ limit)
    {found : Moment} (exceeds : moments.find? (·.exceeds limit) = some found) :
    ∃ name id body, found.task = .fresh name id body ∧
      ((matcher.limited (.int limit)).run input start).1 =
        .fault (.tooDeep (.int limit) name found.state.position) := by
  have proper : (State.fresh input.size).Proper ((matcher.setting input).limited .none) := .fresh
  have proper' : (State.fresh input.size).Proper ((matcher.setting input).limited (.int limit)) := .fresh
  obtain ⟨name, id, body, s', same, failed⟩ := course.exceeds proper low exceeds
  refine ⟨name, id, body, same, ?_⟩
  rw [Matcher.run_eq_of_unfinished (by simp)]
  exact congrArg Prod.fst ((runs_iff_evaluate proper').mp failed)

end

theorem Course.peak {setting : Setting} {moment : Moment} {moments : List Moment}
    (course : Course setting moment moments) :
    ∃ peak, IsGreatest {depth | ∃ each ∈ moments, each.state.depth = depth} peak := by
  obtain ⟨deepest, member, greatest⟩ := Set.exists_max_image {each | each ∈ moments}
    (fun each => each.state.depth) (List.finite_toSet moments) ⟨moment, course.mem_self⟩
  refine ⟨deepest.state.depth, ⟨deepest, member, rfl⟩, ?_⟩
  rintro depth ⟨each, inside, rfl⟩
  exact greatest each inside

/-- What limits do to a match that has a greatest depth without one. -/
structure Matcher.Peaks (matcher : Matcher) (input : Input) (start : Option Value) (moments : List Moment)
    (peak : Int) : Prop where
  greatest : IsGreatest {depth | ∃ each ∈ moments, each.state.depth = depth} peak
  within : ∀ limit : Int, peak ≤ limit →
    (matcher.limited (.int limit)).run input start = (matcher.limited .none).run input start
  exceeded : ∀ limit : Int, 0 ≤ limit → limit < peak → ∃ name id body s cause,
    moments.find? (·.exceeds limit) = some ⟨.fresh name id body, s⟩ ∧
    ((matcher.limited (.int limit)).run input start).1 = .fault cause ∧
    cause = .tooDeep (.int limit) name s.position ∧
    cause.message = "exceeded maximum rule depth of " ++ toString limit ++ " applying " ++ name.text ++
      " at position " ++ toString s.position

theorem Matcher.peaks {matcher : Matcher} {input : Input} {start : Option Value} {moments : List Moment}
    (course : Course ((matcher.limited .none).setting input)
      ⟨.expr (matcher.entry start), .fresh input.size⟩ moments) :
    ∃ peak, matcher.Peaks input start moments peak := by
  have proper : (State.fresh input.size).Proper ((matcher.limited .none).setting input) := .fresh
  obtain ⟨peak, ⟨deepest, inside, same⟩, greatest⟩ := course.peak
  refine ⟨peak, ⟨⟨deepest, inside, same⟩, greatest⟩, fun limit enough => ?_, fun limit low lower => ?_⟩
  · exact Matcher.run_within course fun each member =>
      Int.le_trans (greatest ⟨each, member, rfl⟩) enough
  · cases first : moments.find? (·.exceeds limit) with
    | none =>
      have within := course.within_limit proper low (by simpa using first) deepest inside
      omega
    | some found =>
      obtain ⟨name, id, body, fresh, failed⟩ := Matcher.run_exceeds course low first
      obtain ⟨task, s⟩ := found
      cases fresh
      exact ⟨name, id, body, s, _, rfl, failed, rfl, rfl⟩

/-- A match without a limit has a greatest depth. Under a limit that is not lower the match is the same,
    with its state; under a lower one it ends with a fault that names the limit and the rule and the
    position of the first application that takes the depth above it. So under a higher limit, or none, a
    match is the same if it has not ended with such a fault. -/
theorem limit_only_interrupts (matcher : Matcher) (input : Input) (start : Option Value) :
    (∃ moments, Course ((matcher.limited .none).setting input)
      ⟨.expr (matcher.entry start), .fresh input.size⟩ moments) ∧
    (∀ moments, Course ((matcher.limited .none).setting input)
        ⟨.expr (matcher.entry start), .fresh input.size⟩ moments →
      ∃ peak, matcher.Peaks input start moments peak) ∧
    (∀ (lower : Int) (higher : Value), 0 ≤ lower → (matcher.limited higher).options.Allows lower →
      (∀ limit name position, ((matcher.limited (.int lower)).run input start).1 ≠
        .fault (.tooDeep limit name position)) →
      (matcher.limited higher).run input start = (matcher.limited (.int lower)).run input start) := by
  have proper : (State.fresh input.size).Proper ((matcher.limited .none).setting input) := .fresh
  obtain ⟨moments, course⟩ := ((matcher.entry start).evaluate_runs proper).course
  refine ⟨⟨moments, course⟩, fun moments course => Matcher.peaks course, ?_⟩
  intro lower higher low allows answered
  obtain ⟨peak, peaks⟩ := Matcher.peaks course
  have enough : peak ≤ lower := by
    by_contra above
    obtain ⟨name, id, body, s, cause, _, failed, rfl, _⟩ := peaks.exceeded lower low (by omega)
    exact answered _ _ _ failed
  rw [peaks.within lower enough]
  obtain none | ⟨limit, same, more⟩ : higher = .none ∨ ∃ limit, higher = .int limit ∧ lower ≤ limit :=
    allows
  · rw [none]
  · rw [same]
    exact peaks.within limit (Int.le_trans enough more)

/-- One application is open at a time in a sum, so that a limit of one is none, and one of zero refuses
    the first. -/
theorem sums_peak :
    ∃ moments peak, sums.Peaks (.text #['1', '+', '1']) none moments peak ∧ 0 < peak ∧ peak ≤ 1 ∧
      ((sums.limited (.int 0)).run (.text #['1', '+', '1'])).1 =
        .fault (.tooDeep (.int 0) defaultStart 0) ∧
      (sums.limited (.int 5)).run (.text #['1', '+', '1']) =
        (sums.limited (.int 1)).run (.text #['1', '+', '1']) := by
  obtain ⟨⟨moments, course⟩, limits, raised⟩ := limit_only_interrupts sums (.text #['1', '+', '1']) none
  obtain ⟨peak, peaks⟩ := limits moments course
  have refused : ((sums.limited (.int 0)).run (.text #['1', '+', '1'])).1 =
      .fault (.tooDeep (.int 0) defaultStart 0) := by cbv
  have free : ((sums.limited .none).run (.text #['1', '+', '1'])).1 =
      .done (some (.node [.leaf (.str "1"), .leaf (.str "+1")])) := by cbv
  have answered : ((sums.limited (.int 1)).run (.text #['1', '+', '1'])).1 =
      .done (some (.node [.leaf (.str "1"), .leaf (.str "+1")])) := by cbv
  refine ⟨moments, peak, peaks, ?_, ?_, refused, ?_⟩
  · by_contra low
    have same := congrArg Prod.fst (peaks.within 0 (by omega))
    rw [refused, free] at same
    cases same
  · by_contra high
    obtain ⟨_, _, _, _, _, _, failed, _⟩ := peaks.exceeded 1 (by decide) (by omega)
    rw [answered] at failed
    cases failed
  · exact raised 1 (.int 5) (by decide) (.inr ⟨5, rfl, by decide⟩) (by simp [answered])

end SeedPeg
