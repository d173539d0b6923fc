import Mathlib
import SeedPeg.Proofs.Direct

/-!
# Transparency of memoization

A match in which results are kept ends as one in which they are not, if in the latter every rule
application that finds an entry finds that of the innermost open one, and the limit is not exceeded
(`memoization_is_transparent`). The two are run side by side (`Runs.remembered_alike`). Their states
are twins: what is known where results are not kept is known where they are, and whatever is known
besides is the result of a direct application that was run before (`Replays`), in which nothing but its
own entries was read; so running it again would give the same (`Runs.repeats`).
-/

namespace SeedPeg

/-- The setting in which results are kept. -/
def Setting.keeping (setting : Setting) : Setting :=
  { setting with options := { setting.options with memoize := true } }

/-- Whether a result is that of a direct application of the rule at the site. -/
def Replays (setting : Setting) (site : Site) (tree : Option Tree) (next : Int) : Prop :=
  ∃ name body s s', (Task.fresh name site.id body).Ready setting s ∧ s.position = site.position ∧
    Direct setting none (.fresh name site.id body) s ∧
    Runs setting (.fresh name site.id body) s (.done tree) s' ∧ s'.position = next

/-- Two states that differ in results that can be replayed, which only the second knows. -/
structure Twin (setting : Setting) (s m : State) : Prop where
  position : m.position = s.position
  depth : m.depth = s.depth
  shared : ∀ {site entry}, s.known site = some entry → m.known site = some entry
  further : ∀ {site entry}, s.known site = none → m.known site = some entry →
    ∃ tree next, entry = .resolved tree next ∧ Replays setting site tree next

section

variable {setting : Setting} {s s' m m' s1 m1 : State} {name : Value} {id : Nat} {body : Expr}

namespace Twin

theorem of_known (twin : Twin setting s m) (position : m1.position = s1.position)
    (depth : m1.depth = s1.depth) (same : ∀ site, s1.known site = s.known site)
    (same' : ∀ site, m1.known site = m.known site) : Twin setting s1 m1 where
  position := position
  depth := depth
  shared {site entry} known := by
    rw [same] at known
    rw [same']
    exact twin.shared known
  further {site entry} unknown known := by
    rw [same] at unknown
    rw [same'] at known
    exact twin.further unknown known

theorem moved (twin : Twin setting s m) (position : Int) :
    Twin setting (s.moved position) (m.moved position) :=
  twin.of_known rfl twin.depth (fun _ => rfl) (fun _ => rfl)

theorem restored (twin : Twin setting s1 m1) (same : m.position = s.position) (back : Bool) :
    Twin setting (s1.restored back s.position) (m1.restored back m.position) := by
  cases back with
  | true => exact same ▸ twin.moved m.position
  | false => exact twin

theorem told (twin : Twin setting s m) (event event' : Event) :
    Twin setting (s.told setting event) (m.told setting.keeping event') :=
  twin.of_known (by simpa using twin.position) (by simpa using twin.depth) (by simp) (by simp)

/-- An entry that both come to know. -/
theorem changed (twin : Twin setting s m) (position : m1.position = s1.position)
    (depth : m1.depth = s1.depth) {at? : Site → Prop} [DecidablePred at?] {entry : Entry}
    (known : ∀ site, s1.known site = if at? site then some entry else s.known site)
    (known' : ∀ site, m1.known site = if at? site then some entry else m.known site) :
    Twin setting s1 m1 where
  position := position
  depth := depth
  shared {site found} here := by
    rw [known] at here
    rw [known']
    split at here
    · rw [if_pos ‹_›, here]
    · rw [if_neg ‹_›, twin.shared here]
  further {site found} unknown there := by
    rw [known] at unknown
    rw [known'] at there
    split at unknown
    · cases unknown
    · rw [if_neg ‹_›] at there
      exact twin.further unknown there

variable {site : Site} (proper : s.Proper setting) (proper' : m.Proper setting.keeping)
include proper proper'

theorem put (twin : Twin setting s m) (low : 0 ≤ site.position)
    (high : site.position ≤ setting.input.size) (entry : Entry) :
    Twin setting (s.put site entry) (m.put site entry) :=
  twin.changed twin.position twin.depth (proper.known_put low high entry)
    (@State.Proper.known_put setting.keeping m site low high proper' entry)

theorem opened (twin : Twin setting s m) (name : Value) (id : Nat) :
    Twin setting (s.opened setting name id) (m.opened setting.keeping name id) := by
  refine twin.changed ?_ ?_ (fun _ => proper.known_opened _) fun site => ?_
  · rw [State.position_opened, State.position_opened, twin.position]
  · rw [State.depth_opened, State.depth_opened, twin.depth]
  · rw [proper'.known_opened, twin.position]

theorem flagged {detected : Bool} (twin : Twin setting s m) :
    Twin setting (s.flagged setting name ⟨id, s.position⟩ detected)
      (m.flagged setting.keeping name ⟨id, m.position⟩ detected) := by
  refine twin.changed ?_ ?_ (proper.known_flagged detected) fun site => ?_
  · rw [State.position_flagged, State.position_flagged, twin.position]
  · cases detected <;> simp [State.flagged, twin.depth]
  · rw [proper'.known_flagged, twin.position]

omit proper proper'

/-- Closing a rule application, its result is dropped on one side and kept on the other, where it can
    be replayed. -/
theorem closed (twin : Twin setting s m) (low : 0 ≤ site.position) {tree : Option Tree} {next : Int}
    (known : m.known site = some (.resolved tree next)) (replays : Replays setting site tree next) :
    Twin setting (s.closed setting name site tree) (m.closed setting.keeping name site tree) where
  position := by rw [State.position_closed, State.position_closed, twin.position]
  depth := by rw [State.depth_closed, State.depth_closed, twin.depth]
  shared {other entry} found := by
    rw [State.known_closed _ low] at found
    rw [State.known_closed _ low, if_neg (by simp [Setting.keeping])]
    split at found
    · cases found
    · exact twin.shared found
  further {other entry} unknown found := by
    rw [State.known_closed _ low] at unknown
    rw [State.known_closed _ low, if_neg (by simp [Setting.keeping])] at found
    by_cases own : other = site
    · rw [own, known] at found
      cases found
      exact ⟨tree, next, rfl, own ▸ replays⟩
    · rw [if_neg fun both => own both.2] at unknown
      exact twin.further unknown found

/-- The result of a first evaluation is stored on both sides. -/
theorem planted {tree : Option Tree} (twin : Twin setting s1 m1) (same : m.position = s.position)
    (ready : (Task.fresh name id body).Ready setting s)
    (orderly : Orderly setting (.expr body) (s.opened setting name id) (.done tree) s1)
    (orderly' : Orderly setting.keeping (.expr body) (m.opened setting.keeping name id) (.done tree) m1) :
    Twin setting (s1.put ⟨id, s.position⟩ (.ofResult s.position tree s1.position))
      (m1.put ⟨id, m.position⟩ (.ofResult m.position tree m1.position)) := by
  rw [same, twin.position]
  exact @put _ _ _ ⟨id, s.position⟩ orderly.proper orderly'.proper twin ready.proper.low
    ready.proper.high _

/-- A longer match is stored on both sides. -/
theorem replanted {position : Int} {tree : Tree} (twin : Twin setting s1 m1)
    (ready : (Task.growth name id body position).Ready setting s)
    (orderly : Orderly setting (.expr body) (s.moved position) (.done (some tree)) s1)
    (orderly' : Orderly setting.keeping (.expr body) (m.moved position) (.done (some tree)) m1) :
    Twin setting
      ((s1.told setting (.grew name position s1.position)).put ⟨id, position⟩
        (.ofResult position (some tree) s1.position))
      ((m1.told setting.keeping (.grew name position m1.position)).put ⟨id, position⟩
        (.ofResult position (some tree) m1.position)) := by
  rw [twin.position]
  exact @put _ _ _ ⟨id, position⟩ (orderly.proper.told _) (orderly'.proper.told _) (twin.told _ _)
    ready.inside.1 ready.inside.2 _

end Twin

/-- Where a rule application grows on one side, it does so on the other. -/
theorem Twin.sown {seed : Tree} (twin : Twin setting s1 m1) (ends : m.position = s.position)
    (ready : (Task.fresh name id body).Ready setting s)
    (ready' : (Task.fresh name id body).Ready setting.keeping m)
    (runs : Runs setting (.expr body) (s.opened setting name id) (.done (some seed)) s1)
    (runs' : Runs setting.keeping (.expr body) (m.opened setting.keeping name id) (.done (some seed)) m1)
    (flagged : s1.known ⟨id, s.position⟩ = some (.marker true)) :
    m1.known ⟨id, m.position⟩ = some (.marker true) ∧
      (Task.growth name id body s.position).Ready setting.keeping
        (m1.put ⟨id, s.position⟩ (.ofResult s.position (some seed) m1.position)) ∧
      Twin setting (s1.put ⟨id, s.position⟩ (.ofResult s.position (some seed) s1.position))
        (m1.put ⟨id, s.position⟩ (.ofResult s.position (some seed) m1.position)) := by
  have orderly' := runs'.orderly ready'.opened
  have planted := twin.planted ends ready (runs.orderly ready.opened) orderly'
  have grows := ready'.planted orderly'
  rw [ends] at planted grows ⊢
  exact ⟨twin.shared flagged, grows, planted⟩

theorem Setting.refusal_keeping (twin : Twin setting s m) (name : Value) :
    setting.keeping.refusal name m = setting.refusal name s := by
  simp only [refusal, twin.position, twin.depth]
  rfl

/-- A direct task ends in the same way where results are kept. -/
theorem Runs.remembered_alike {head : Option Site} {task : Task} {result : Result}
    (forgets : setting.options.memoize = false) (runs : Runs setting task s result s')
    (ready : task.Ready setting s) (direct : Direct setting head task s) (fits : task.Fits head)
    (ready' : task.Ready setting.keeping m) (twin : Twin setting s m) :
    ∃ m', Runs setting.keeping task m result m' ∧ m'.position = s'.position ∧
      ∀ tree, result = .done tree → Twin setting s' m' := by
  induction runs generalizing head m with
  | @terminal literal s result s' matched =>
    cases made : literal.symbols? with
    | none =>
      rw [literal_fault made] at matched
      cases matched
      exact ⟨m, .terminal (literal_fault made), twin.position, by simp⟩
    | some symbols =>
      have there := literal_apply ready' made
      rw [twin.position] at there
      rw [literal_apply ready made] at matched
      cases matched
      exact ⟨_, .terminal there, rfl, fun _ _ => twin.moved _⟩
  | bare => exact ⟨m, .bare, twin.position, by simp⟩
  | plain => exact ⟨m, .plain, twin.position, by simp⟩
  | nothing => exact ⟨m, .nothing, twin.position, fun _ _ => twin⟩
  | never => exact ⟨m, .never, twin.position, fun _ _ => twin⟩
  | @stop e part s result s1 ended back first _ after ih =>
    obtain ⟨m1, there, same, twins⟩ := ih ready (direct.part first) trivial ready' twin
    have idle : (m1.position = m.position) = (s1.position = s.position) := by
      rw [same, twin.position]
    simp only [← idle] at after
    refine ⟨_, .stop first there after, ?_, ?_⟩
    · rw [State.position_restored, State.position_restored, same, twin.position]
    · rintro tree rfl
      obtain ⟨tree', rfl⟩ := Expr.done_of_after_stop after
      exact (twins tree' rfl).restored twin.position back
  | @go e part s result s1 next back trees last s2 first runs after _ ihPart ihNext =>
    have direct1 := direct.next ready first runs after
    obtain ⟨m1, there, same, twins⟩ := ihPart ready (direct.part first) trivial ready' twin
    have idle : (m1.position = m.position) = (s1.position = s.position) := by
      rw [same, twin.position]
    simp only [← idle] at after
    obtain ⟨tree', rfl⟩ := Expr.done_of_after_go after
    obtain ⟨m2, later, same2, twins2⟩ := ihNext
      (Task.Ready.next ready (runs.orderly ready) back next) direct1 trivial
      (Task.Ready.next ready' (there.orderly ready') back next)
      ((twins tree' rfl).restored twin.position back)
    refine ⟨m2, .go first there after later, same2, fun tree ended => ?_⟩
    obtain ⟨last, rfl⟩ := Outcome.prepend_eq_done ended
    exact twins2 last rfl
  | unknown missing => exact ⟨m, .unknown missing, twin.position, by simp⟩
  | @marked name id body detected s found known =>
    have known' : m.known ⟨id, m.position⟩ = some (.marker detected) := by
      rw [twin.position]
      exact twin.shared known
    refine ⟨_, .marked found known', ?_, fun _ _ => twin.flagged ready ready'⟩
    rw [State.position_flagged, State.position_flagged, twin.position]
  | @remembered name id body tree next s found known =>
    have known' : m.known ⟨id, m.position⟩ = some (.resolved tree next) := by
      rw [twin.position]
      exact twin.shared known
    refine ⟨_, .remembered found known', ?_, fun _ _ => ?_⟩
    · cases tree with
      | none => exact twin.position
      | some tree => rfl
    · cases tree with
      | none => exact twin
      | some tree => exact twin.moved next
  | @applied name id body s result s1 found unknown runs ih =>
    have ready1 := Task.Ready.applied ready found unknown
    have direct1 := direct.applied found unknown
    cases known : m.known ⟨id, m.position⟩ with
    | none =>
      obtain ⟨m1, there, same, twins⟩ :=
        ih ready1 direct1 rfl (Task.Ready.applied ready' found known) twin
      exact ⟨m1, .applied found known there, same, twins⟩
    | some entry =>
      -- only the second state knows it, so it is run again from the first
      have known' := known
      rw [twin.position] at known'
      obtain ⟨tree, next, rfl, name0, body0, s0, s2, ready0, here, direct0, runs0, rfl⟩ :=
        twin.further unknown known'
      have results := State.Proper.results ready' known
      obtain rfl : body = body0 := by
        have defined := ready0.2.1
        rw [Grammar.definition_of_lookup found] at defined
        cases defined
        rfl
      have repeated : ∃ t, Runs setting (.fresh name id body) s (.done tree) t ∧ Akin none s2 t :=
        runs0.repeats forgets ready0 direct0 rfl rfl ready1 direct1 (.none here.symm)
      obtain ⟨t, replayed, akin⟩ := repeated
      obtain ⟨rfl, rfl⟩ := runs.deterministic replayed
      have ends : (m.restored tree.isSome s2.position).position = s1.position := by
        rw [State.position_restored, akin.position]
        cases tree with
        | none => exact (results.2.2 rfl).symm
        | some tree => rfl
      refine ⟨_, .remembered found known, ends, fun _ _ => ?_⟩
      refine twin.of_known ends ?_ (fun site => ?_) fun site => State.known_restored _ _ _ _
      · rw [State.depth_restored, twin.depth, (runs.orderly ready1).depth _ rfl]
      · exact runs.local forgets ready1 direct1 rfl rfl (by simp)
  | @refused name id body cause s refused =>
    rw [← Setting.refusal_keeping twin] at refused
    exact ⟨m, .refused refused, twin.position, by simp⟩
  | @broken name id body cause s s1 accepted _ ih =>
    have accepted' := (Setting.refusal_keeping twin name).trans accepted
    obtain ⟨m1, there, same, _⟩ := ih ready.opened (direct.opened accepted) trivial ready'.opened
      (twin.opened ready.proper ready'.proper name id)
    exact ⟨m1, .broken accepted' there, same, by simp⟩
  | @settled name id body tree detected s s1 accepted runs found seeded ih =>
    cases fits
    have low : 0 ≤ (Site.mk id s.position).position := ready.proper.low
    have high : (Site.mk id s.position).position ≤ setting.input.size := ready.proper.high
    have ends : m.position = s.position := twin.position
    have accepted' := (Setting.refusal_keeping twin name).trans accepted
    obtain ⟨m1, there, same, twins⟩ := ih ready.opened (direct.opened accepted) trivial ready'.opened
      (twin.opened ready.proper ready'.proper name id)
    have orderly' := there.orderly ready'.opened
    have planted := (twins _ rfl).planted ends ready (runs.orderly ready.opened) orderly'
    have found' : m1.known ⟨id, m.position⟩ = some (.marker detected) := by
      rw [ends]
      exact (twins _ rfl).shared found
    refine ⟨_, .settled accepted' there found' seeded, ?_, fun _ _ => ?_⟩
    · rw [State.position_closed, State.position_closed, State.position_put, State.position_put, same, ends]
    · rw [ends, same] at planted ⊢
      refine planted.closed low
        (@State.Proper.known_put_self setting.keeping _ _ low high orderly'.proper _) ?_
      refine ⟨name, body, s, _, ready, rfl, direct, .settled accepted runs found seeded, ?_⟩
      rw [State.position_closed]
      rfl
  | @ripened name id body seed tree s s1 s2 accepted runs flagged grows ihBody ihGrowth =>
    cases fits
    have low : 0 ≤ (Site.mk id s.position).position := ready.proper.low
    have ends : m.position = s.position := twin.position
    have accepted' := (Setting.refusal_keeping twin name).trans accepted
    obtain ⟨m1, there, same, twins⟩ := ihBody ready.opened (direct.opened accepted) trivial ready'.opened
      (twin.opened ready.proper ready'.proper name id)
    obtain ⟨flagged', ready2, planted⟩ := (twins _ rfl).sown ends ready ready' runs there flagged
    obtain ⟨m2, later, same2, twins2⟩ := ihGrowth (ready.planted (runs.orderly ready.opened))
      (direct.seeded ready accepted runs flagged) rfl ready2 planted
    obtain ⟨matched, known⟩ := (later.orderly ready2).grown _ _ rfl rfl
    have replays : Replays setting ⟨id, s.position⟩ tree m2.position := by
      refine ⟨name, body, s, _, ready, rfl, direct, .ripened accepted runs flagged grows, ?_⟩
      rw [State.position_closed, if_pos matched, same2]
    rw [← ends] at later
    refine ⟨_, .ripened accepted' there flagged' later, ?_, fun _ _ => ?_⟩
    · rw [State.position_closed, State.position_closed, same2, ends]
    · rw [ends]
      exact (twins2 _ rfl).closed low known replays
  | @withered name id body seed cause s s1 s2 accepted runs flagged _ ihBody ihGrowth =>
    cases fits
    have ends : m.position = s.position := twin.position
    have accepted' := (Setting.refusal_keeping twin name).trans accepted
    obtain ⟨m1, there, same, twins⟩ := ihBody ready.opened (direct.opened accepted) trivial ready'.opened
      (twin.opened ready.proper ready'.proper name id)
    obtain ⟨flagged', ready2, planted⟩ := (twins _ rfl).sown ends ready ready' runs there flagged
    obtain ⟨m2, later, same2, _⟩ := ihGrowth (ready.planted (runs.orderly ready.opened))
      (direct.seeded ready accepted runs flagged) rfl ready2 planted
    rw [← ends] at later
    exact ⟨m2, .withered accepted' there flagged' later, same2, by simp⟩
  | @grown name id body position seed reached tree s s1 known _ ends ih =>
    obtain ⟨m1, there, same, twins⟩ := ih ready.moved direct.round trivial ready'.moved (twin.moved position)
    rw [← same] at ends
    exact ⟨_, .grown (twin.shared known) there ends, rfl, fun _ _ => (twins tree rfl).moved reached⟩
  | @growing name id body position seed reached tree s s1 last s2 known runs further _ ihBody ihNext =>
    obtain ⟨m1, there, same, twins⟩ :=
      ihBody ready.moved direct.round trivial ready'.moved (twin.moved position)
    have orderly := runs.orderly ready.moved
    have orderly' := there.orderly ready'.moved
    have planted := (twins _ rfl).replanted ready orderly orderly'
    obtain ⟨m2, later, same2, twins2⟩ := ihNext (ready.replanted orderly)
      (direct.regrown ready known runs further) fits (ready'.replanted orderly') planted
    rw [← same] at further
    exact ⟨m2, .growing (twin.shared known) there further later, same2, twins2⟩
  | @stunted name id body position seed reached cause s s1 known _ ih =>
    obtain ⟨m1, there, same, _⟩ := ih ready.moved direct.round trivial ready'.moved (twin.moved position)
    exact ⟨m1, .stunted (twin.shared known) there, same, by simp⟩

end

/-! ## Matches -/

/-- The matcher that keeps results, or does not. -/
def Matcher.memoizing (matcher : Matcher) (memoize : Bool) : Matcher :=
  { matcher with options := { matcher.options with memoize } }

/-- If in a match that keeps no results every rule application that finds an entry finds that of the
    innermost open application, and the limit is not exceeded, a match that keeps them ends with the
    same tree, mismatch or fault, and with the same cursor. -/
theorem memoization_is_transparent (matcher : Matcher) (input : Input) (start : Option Value)
    (innermost : ∀ sites name s id body entry,
      Begins ((matcher.memoizing false).setting input) (.expr (matcher.entry start))
        (.fresh input.size) sites (.expr (.rule name)) s →
      matcher.grammar.lookup name = .ok (id, body) → s.known ⟨id, s.position⟩ = some entry →
      sites.head? = some ⟨id, s.position⟩)
    (shallow : ∀ limit name position,
      ((matcher.memoizing false).run input start).1 ≠ .fault (.tooDeep limit name position)) :
    ((matcher.memoizing true).run input start).1 = ((matcher.memoizing false).run input start).1 ∧
    ((matcher.memoizing true).run input start).2.position =
      ((matcher.memoizing false).run input start).2.position := by
  have proper : (State.fresh input.size).Proper ((matcher.memoizing false).setting input) := .fresh
  have direct : Direct ((matcher.memoizing false).setting input) none (.expr (matcher.entry start))
      (.fresh input.size) := by
    refine ⟨fun begins found known => ?_, fun begins limit rule position refused => ?_⟩
    · simpa using innermost _ _ _ _ _ _ begins found known
    · have failed := begins.fault proper (.refused refused)
      refine shallow limit rule position ?_
      rw [Matcher.run_eq_of_unfinished (by simp)]
      exact congrArg Prod.fst ((runs_iff_evaluate proper).mp failed)
  rcases ran : (matcher.entry start).evaluate ((matcher.memoizing false).setting input)
    (.fresh input.size) with ⟨result, s⟩
  have runs := (runs_iff_evaluate proper).mpr ran
  have proper' : (State.fresh input.size).Proper ((matcher.memoizing false).setting input).keeping :=
    .fresh
  have twin : Twin ((matcher.memoizing false).setting input) (.fresh input.size) (.fresh input.size) := by
    refine ⟨rfl, rfl, id, fun {site entry} unknown known => ?_⟩
    rw [unknown] at known
    cases known
  obtain ⟨m, there, same, _⟩ := runs.remembered_alike rfl proper direct trivial proper' twin
  have ran' : (matcher.entry start).evaluate ((matcher.memoizing true).setting input)
      (.fresh input.size) = (result, m) := (runs_iff_evaluate proper').mp there
  have left : (matcher.memoizing true).run input start = _ := Matcher.run_apply _ input start
  have right : (matcher.memoizing false).run input start = _ := Matcher.run_apply _ input start
  have entry : (matcher.memoizing true).entry start = matcher.entry start := rfl
  have entry' : (matcher.memoizing false).entry start = matcher.entry start := rfl
  rw [entry, ran'] at left
  rw [entry', ran] at right
  rw [left, right]
  cases result with
  | done tree =>
    simp only [same]
    split
    · exact ⟨rfl, same⟩
    · simpa using same
  | fault cause => exact ⟨rfl, same⟩
  | spent => exact ⟨rfl, same⟩

/-- A one, or the rule itself: the rule comes back to itself at once, and its seed does not grow. -/
def loops : Matcher where
  grammar := { entries := [(defaultStart, .choice [.rule defaultStart, .terminal (.str "1")])] }

/-- No rule is applied in a choice of a literal. -/
theorem Begins.not_terminal {setting : Setting} {literal name : Value} {s s' : State}
    {sites : List Site} :
    ¬ Begins setting (.expr (.choice [.terminal literal])) s sites (.expr (.rule name)) s' := by
  intro begins
  cases begins with
  | first part inner =>
    cases part
    cases inner with
    | first part | next part => cases part
  | next part ran after inner =>
    obtain ⟨tree, rfl⟩ := Expr.done_of_after_go after
    cases part
    cases tree <;> cases after
    cases inner with
    | first part | next part => cases part

/-- Every application of the rule but the first finds the one that it is in: the first evaluation
    comes back to its marker, and the first round of growth to its seed, after which it ends. -/
theorem loops_innermost {sites : List Site} {name : Value} {s : State} {id : Nat} {body : Expr}
    {entry : Entry}
    (begins : Begins ((loops.memoizing false).setting (.text #['1'])) (.expr (.rule defaultStart))
      (.fresh 1) sites (.expr (.rule name)) s)
    (declared : loops.grammar.lookup name = .ok (id, body))
    (known : s.known ⟨id, s.position⟩ = some entry) : sites.head? = some ⟨id, s.position⟩ := by
  have found : loops.grammar.lookup defaultStart =
      .ok (0, .choice [.rule defaultStart, .terminal (.str "1")]) := by rfl
  cases begins with
  | here => simp [State.known, State.fresh, MemoTable.known_ofLength] at known
  | first part | next part => cases part
  | applied same unknown inner =>
    cases found.symm.trans same
    cases inner with
    | opened accepted inner =>
      cases inner with
      | first part inner =>
        cases part
        cases inner with
        | here => cases found.symm.trans declared; rfl
        | first part | next part => cases part
        | applied again unknown => cases found.symm.trans again; cases unknown
      | next part ran after inner =>
        obtain ⟨tree, rfl⟩ := Expr.done_of_after_go after
        cases part
        cases tree <;> cases after
        exact absurd inner Begins.not_terminal
    | seeded accepted ran flagged inner =>
      obtain rfl := congrArg Prod.snd ran
      cases inner with
      | round inner =>
        cases inner with
        | first part inner =>
          cases part
          cases inner with
          | here => cases found.symm.trans declared; rfl
          | first part | next part => cases part
          | applied again unknown =>
            cases found.symm.trans again
            cbv at unknown
            cases unknown
        | next part ran after inner =>
          obtain ⟨tree, rfl⟩ := Expr.done_of_after_go after
          cases part
          cases tree <;> cases after
          exact absurd inner Begins.not_terminal
      | regrown resolved ran further =>
        obtain rfl := congrArg Prod.snd ran
        cbv at resolved further
        cases resolved
        cbv at further
        cases further

theorem loops_transparent :
    (∃ sites s, Begins ((loops.memoizing false).setting (.text #['1'])) (.expr (loops.entry none))
      (.fresh 1) sites (.expr (.rule defaultStart)) s ∧ s.known ⟨0, 0⟩ = some (.marker false)) ∧
    ((loops.memoizing false).run (.text #['1'])).1 = .done (some (.leaf (.str "1"))) ∧
    ((loops.memoizing true).run (.text #['1'])).1 = .done (some (.leaf (.str "1"))) := by
  have found : loops.grammar.lookup defaultStart =
      .ok (0, .choice [.rule defaultStart, .terminal (.str "1")]) := by rfl
  have accepted : ((loops.memoizing false).setting (.text #['1'])).refusal defaultStart (.fresh 1) =
      none := by rfl
  have ended : ((loops.memoizing false).run (.text #['1'])).1 = .done (some (.leaf (.str "1"))) := by cbv
  have alike := memoization_is_transparent loops (.text #['1']) none
    (fun _ _ _ _ _ _ => loops_innermost) (by rw [ended]; simp)
  refine ⟨⟨_, _, .applied found rfl (.opened accepted (.first rfl .here)), by cbv⟩, ended, ?_⟩
  rw [alike.1, ended]

end SeedPeg
