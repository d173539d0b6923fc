import Mathlib.Data.Finset.Prod
import SeedPeg.Matcher
import SeedPeg.Proofs.Orderly

/-!
# The evaluator runs

Evaluation from a proper state is the run of the expression: `Expr.evaluate` ends as the relation
`Runs` says, and nothing else does (`runs_iff_evaluate`). The bounds of the evaluator are never used
up. Each nested rule application makes a further site known, so their number is bounded by the
sites that are still unknown (`State.room`); each round of a loop moves the cursor, or the end of
the seed, further into the input.
-/

namespace SeedPeg

/-! ## Room for rule applications -/

/-- The rules and positions of which nothing is known. -/
def State.unknown (setting : Setting) (s : State) : Finset (Nat × Nat) :=
  (Finset.range setting.grammar.size ×ˢ Finset.range (setting.input.size + 1)).filter
    fun place => (s.known ⟨place.1, place.2⟩).isNone

/-- The number of sites of which nothing is known. -/
def State.room (setting : Setting) (s : State) : Nat := (s.unknown setting).card

section

variable {setting : Setting} {s s1 : State}

theorem State.mem_unknown {id place : Nat} :
    (id, place) ∈ s.unknown setting ↔
      id < setting.grammar.size ∧ place ≤ setting.input.size ∧ s.known ⟨id, place⟩ = none := by
  simp [unknown, Nat.lt_succ_iff, and_assoc]

theorem State.room_le (s : State) :
    s.room setting ≤ setting.grammar.size * (setting.input.size + 1) := by
  refine Nat.le_trans (Finset.card_filter_le _ _) ?_
  simp

theorem State.room_lt_ruleBound (s : State) : s.room setting < setting.ruleBound :=
  Nat.lt_succ_of_le s.room_le

theorem State.unknown_subset (held : ∀ site, s.known site ≠ none → s1.known site ≠ none) :
    s1.unknown setting ⊆ s.unknown setting := by
  rintro ⟨id, place⟩ member
  rw [State.mem_unknown] at member ⊢
  refine ⟨member.1, member.2.1, ?_⟩
  by_contra known
  exact held _ known member.2.2

theorem State.Keeps.room_le (keeps : s.Keeps s1 none) : s1.room setting ≤ s.room setting :=
  Finset.card_le_card (State.unknown_subset fun _ => keeps.isSome)

theorem State.Proper.room_put_le (proper : s.Proper setting) {site : Site} (low : 0 ≤ site.position)
    (high : site.position ≤ setting.input.size) (entry : Entry) :
    (s.put site entry).room setting ≤ s.room setting := by
  refine Finset.card_le_card (State.unknown_subset fun other known => ?_)
  rw [proper.known_put low high]
  split <;> simp [known]

theorem State.room_told (s : State) (event : Event) :
    (s.told setting event).room setting = s.room setting := by
  simp [room, unknown]

theorem State.room_restored (s : State) (back : Bool) (position : Int) :
    (s.restored back position).room setting = s.room setting := by
  simp [room, unknown, known_restored]

/-- Opening a rule application takes up room. -/
theorem Task.Ready.room_lt {name : Value} {id : Nat} {body : Expr}
    (ready : (Task.fresh name id body).Ready setting s) :
    (s.opened setting name id).room setting < s.room setting := by
  obtain ⟨proper, defined, unknown⟩ := ready
  have keeps := (State.Keeps.opened proper name id).of_unknown unknown
  obtain ⟨place, here⟩ := Int.eq_ofNat_of_zero_le proper.low
  refine Finset.card_lt_card ((Finset.ssubset_iff_of_subset (State.unknown_subset fun _ => keeps.isSome)).mpr
    ⟨(id, place), ?_, ?_⟩)
  · rw [State.mem_unknown, ← here]
    have high := proper.high
    exact ⟨Grammar.id_lt_of_definition defined, by omega, unknown⟩
  · rw [State.mem_unknown, proper.known_opened, ← here, if_pos rfl]
    simp

end

/-! ## Actions that run tasks -/

/-- The outcome with its answer changed. -/
def Outcome.map {α β : Type} (change : α → β) : Outcome α → Outcome β
  | .done answer => .done (change answer)
  | .fault cause => .fault cause
  | .spent => .spent

theorem Action.bind_pure_apply {α β : Type} (action : Action α) (change : α → β) (s : State) :
    (action >>= fun answer => (return change answer : Action β)) s =
      ((action s).1.map change, (action s).2) := by
  rw [bind_apply]
  rcases action s with ⟨_ | _ | _, after⟩ <;> rfl

/-- An action does what a task does, from every proper state with so much room at most. -/
def Action.RunsAs (setting : Setting) (room : Nat) (task : Task) (action : Action (Option Tree)) :
    Prop :=
  ∀ s : State, s.Proper setting → s.room setting ≤ room → Runs setting task s (action s).1 (action s).2

/-- What an action that does what an expression does leaves: a proper state with no more room, where
    the cursor has not gone back. -/
theorem Action.RunsAs.orderly {setting : Setting} {room : Nat} {e : Expr} {action : Action (Option Tree)}
    (sound : action.RunsAs setting room (.expr e)) {s s1 : State} {result : Result}
    (proper : s.Proper setting) (enough : s.room setting ≤ room) (ran : action s = (result, s1)) :
    Runs setting (.expr e) s result s1 ∧ Orderly setting (.expr e) s result s1 ∧
      s1.room setting ≤ room := by
  have runs := sound s proper enough
  rw [ran] at runs
  have orderly := runs.orderly proper
  exact ⟨runs, orderly, Nat.le_trans orderly.keeps.room_le enough⟩

/-! ## Combinators -/

theorem Setting.size_lt_loopBound (setting : Setting) : setting.input.size < setting.loopBound := by
  have base : setting.input.size < 2 * (setting.input.size + 1) + 2 := by omega
  exact Nat.lt_of_lt_of_le base (Nat.le_mul_of_pos_right _ (by omega))

section

variable {setting : Setting} {room : Nat} {element : Expr} {attempt : Action (Option Tree)}

theorem Runs.stop_eq {e part : Expr} {s s1 s2 : State} {result ended : Result} {back : Bool}
    (runs : Runs setting (.expr part) s result s1) (first : e.first? = some part)
    (after : e.after result (s1.position = s.position) = .stop ended back)
    (same : s2 = s1.restored back s.position) : Runs setting (.expr e) s ended s2 :=
  same ▸ .stop first runs after

theorem Runs.go_eq {e part next : Expr} {s s1 s2 : State} {result ended whole : Result} {back : Bool}
    {trees : List Tree} (runs : Runs setting (.expr part) s result s1) (first : e.first? = some part)
    (after : e.after result (s1.position = s.position) = .go next back trees)
    (rest : Runs setting (.expr next) (s1.restored back s.position) ended s2)
    (same : whole = ended.prepend trees) : Runs setting (.expr e) s whole s2 :=
  same ▸ .go first runs after rest

/-- A part that faults ends the whole. -/
theorem Runs.fault {e part : Expr} {s s1 : State} {cause : Fault}
    (runs : Runs setting (.expr part) s (.fault cause) s1) (first : e.first? = some part) :
    Runs setting (.expr e) s (.fault cause) s1 :=
  runs.stop_eq first (e.after_fault cause _) rfl

theorem Runs.spent {e part : Expr} {s s1 : State} (runs : Runs setting (.expr part) s .spent s1)
    (first : e.first? = some part) : Runs setting (.expr e) s .spent s1 :=
  runs.stop_eq first (e.after_spent _) rfl

theorem star_apply (attempt : Action (Option Tree)) (bound : Nat) (s : State) :
    Action.star attempt (bound + 1) s =
      match attempt s with
      | (.done none, s1) => (.done [], s1.moved s.position)
      | (.done (some tree), s1) =>
        if s1.position = s.position then (.done [], s1)
        else ((Action.star attempt bound s1).1.map (tree :: ·), (Action.star attempt bound s1).2)
      | (.fault cause, s1) => (.fault cause, s1)
      | (.spent, s1) => (.spent, s1) := by
  simp only [Action.star, Action.bind_apply, Action.position]
  rcases attempt s with ⟨⟨_ | tree⟩ | _ | _, s1⟩
  · rfl
  · change (if s1.position = s.position then (pure [] : Action (List Tree))
      else Action.star attempt bound >>= fun trees => pure (tree :: trees)) s1 = _
    by_cases idle : s1.position = s.position
    · simp only [idle, ↓reduceIte]; rfl
    · simp only [idle, ↓reduceIte, Action.bind_pure_apply]
  · rfl
  · rfl

variable (sound : attempt.RunsAs setting room (.expr element))
include sound

/-- Attempts go on for as long as the cursor moves, which it cannot do more often than there are
    symbols left. -/
theorem star_runs (bound : Nat) {s : State} (proper : s.Proper setting)
    (enough : s.room setting ≤ room) (within : setting.input.size - s.position < bound) :
    Runs setting (.expr (.star element)) s
      ((Action.star attempt bound s).1.map fun trees => some (.node trees))
      (Action.star attempt bound s).2 := by
  induction bound generalizing s with
  | zero => have := proper.high; omega
  | succ bound ih =>
    rw [star_apply]
    rcases ran : attempt s with ⟨⟨_ | tree⟩ | cause | _, s1⟩ <;>
      obtain ⟨runs, orderly, enough1⟩ := sound.orderly proper enough ran
    · exact runs.stop_eq rfl rfl rfl
    · by_cases idle : s1.position = s.position
      · have after : (Expr.star element).after (.done (some tree)) (s1.position = s.position) =
            .stop (.done (some (.node []))) true := by simp [Expr.after, idle]
        simp only [if_pos idle]
        exact runs.stop_eq rfl after (by rw [← idle]; rfl)
      · have after : (Expr.star element).after (.done (some tree)) (s1.position = s.position) =
            .go (.star element) false [tree] := by simp [Expr.after, idle]
        -- the cursor does not go back, so it has moved on and the bound one less is enough
        have forward : s.position ≤ s1.position := orderly.forward
        have rest := ih orderly.proper enough1 (by omega)
        simp only [if_neg idle]
        refine runs.go_eq rfl after rest ?_
        rcases (Action.star attempt bound s1).1 with _ | _ | _ <;> rfl
    · exact runs.fault rfl
    · exact runs.spent rfl

theorem plus_runs (bound : Nat) (within : setting.input.size < bound) :
    (Action.plus attempt bound).RunsAs setting room (.expr (.plus element)) := by
  intro s proper enough
  simp only [Action.plus, Action.bind_apply, Action.position]
  rcases ran : attempt s with ⟨⟨_ | tree⟩ | cause | _, s1⟩ <;>
    obtain ⟨runs, orderly, enough1⟩ := sound.orderly proper enough ran
  · exact runs.stop_eq rfl rfl rfl
  · have low := orderly.proper.low
    have rest := star_runs sound bound orderly.proper enough1 (by omega)
    simp only [Action.bind_pure_apply]
    refine runs.go_eq rfl rfl rest ?_
    rcases (Action.star attempt bound s1).1 with _ | _ | _ <;> rfl
  · exact runs.fault rfl
  · exact runs.spent rfl

theorem optional_runs : (Action.optional attempt).RunsAs setting room (.expr (.optional element)) := by
  intro s proper enough
  simp only [Action.optional, Action.bind_apply, Action.position]
  rcases ran : attempt s with ⟨⟨_ | tree⟩ | cause | _, s1⟩ <;>
    obtain ⟨runs, _⟩ := sound.orderly proper enough ran
  · exact runs.stop_eq rfl rfl rfl
  · exact runs.stop_eq rfl rfl rfl
  · exact runs.fault rfl
  · exact runs.spent rfl

theorem ahead_runs : (Action.ahead attempt).RunsAs setting room (.expr (.ahead element)) := by
  intro s proper enough
  simp only [Action.ahead, Action.bind_apply, Action.position]
  rcases ran : attempt s with ⟨tree | cause | _, s1⟩ <;>
    obtain ⟨runs, _⟩ := sound.orderly proper enough ran
  · exact runs.stop_eq rfl rfl rfl
  · exact runs.fault rfl
  · exact runs.spent rfl

theorem notAhead_runs : (Action.notAhead attempt).RunsAs setting room (.expr (.notAhead element)) := by
  intro s proper enough
  simp only [Action.notAhead, Action.bind_apply, Action.position]
  rcases ran : attempt s with ⟨tree | cause | _, s1⟩ <;>
    obtain ⟨runs, _⟩ := sound.orderly proper enough ran
  · exact runs.stop_eq rfl rfl rfl
  · exact runs.fault rfl
  · exact runs.spent rfl

end

/-! ## Expressions -/

section

variable {setting : Setting} {room : Nat} {apply : Value → Action (Option Tree)}

theorem evaluateFirst_apply (alternative : Expr) (rest : List Expr) (start : Int) (s : State) :
    Expr.evaluateFirst setting apply start (alternative :: rest) s =
      match alternative.evaluateWith setting apply (s.moved start) with
      | (.done none, s1) => Expr.evaluateFirst setting apply start rest s1
      | ended => ended := by
  have begun : alternative.evaluateWith setting apply { s with position := start } =
      alternative.evaluateWith setting apply (s.moved start) := rfl
  simp only [Expr.evaluateFirst, Action.bind_apply, Action.moveTo, begun]
  rcases alternative.evaluateWith setting apply (s.moved start) with ⟨⟨_ | tree⟩ | _ | _, s1⟩ <;> rfl

mutual

theorem evaluateWith_runs (sound : ∀ name, (apply name).RunsAs setting room (.expr (.rule name)))
    (e : Expr) : (e.evaluateWith setting apply).RunsAs setting room (.expr e) := by
  cases e with
  | terminal literal => exact fun s _ _ => .terminal rfl
  | rule name => exact sound name
  | sequence items =>
    intro s proper enough
    simp only [Expr.evaluateWith, Action.bind_pure_apply]
    exact evaluateItems_runs sound items s proper enough
  | choice alternatives =>
    intro s proper enough
    exact evaluateFirst_runs sound alternatives s.position s proper enough
  | star element =>
    intro s proper enough
    simp only [Expr.evaluateWith, Action.bind_pure_apply]
    have low := proper.low
    have bound := setting.size_lt_loopBound
    exact star_runs (evaluateWith_runs sound element) _ proper enough (by omega)
  | plus element => exact plus_runs (evaluateWith_runs sound element) _ setting.size_lt_loopBound
  | optional element => exact optional_runs (evaluateWith_runs sound element)
  | ahead element => exact ahead_runs (evaluateWith_runs sound element)
  | notAhead element => exact notAhead_runs (evaluateWith_runs sound element)
  | bare => exact fun s _ _ => .bare
  | plain value => exact fun s _ _ => .plain

theorem evaluateItems_runs (sound : ∀ name, (apply name).RunsAs setting room (.expr (.rule name)))
    (items : List Expr) (s : State) (proper : s.Proper setting) (enough : s.room setting ≤ room) :
    Runs setting (.expr (.sequence items)) s
      ((Expr.evaluateItems setting apply items s).1.map fun trees => trees.map .node)
      (Expr.evaluateItems setting apply items s).2 := by
  cases items with
  | nil => exact .nothing
  | cons item rest =>
    simp only [Expr.evaluateItems, Action.bind_apply]
    rcases ran : item.evaluateWith setting apply s with ⟨⟨_ | tree⟩ | cause | _, s1⟩ <;>
      obtain ⟨runs, orderly, enough1⟩ := (evaluateWith_runs sound item).orderly proper enough ran
    · exact runs.stop_eq rfl rfl rfl
    · have others := evaluateItems_runs sound rest s1 orderly.proper enough1
      simp only [Action.bind_pure_apply]
      refine runs.go_eq rfl rfl others ?_
      rcases (Expr.evaluateItems setting apply rest s1).1 with ⟨_ | trees⟩ | _ | _
      · cases item.isKept <;> rfl
      · cases item.isKept <;> rfl
      · rfl
      · rfl
    · exact runs.fault rfl
    · exact runs.spent rfl

theorem evaluateFirst_runs (sound : ∀ name, (apply name).RunsAs setting room (.expr (.rule name)))
    (alternatives : List Expr) (start : Int) (s : State) (proper : (s.moved start).Proper setting)
    (enough : (s.moved start).room setting ≤ room) :
    Runs setting (.expr (.choice alternatives)) (s.moved start)
      (Expr.evaluateFirst setting apply start alternatives s).1
      (Expr.evaluateFirst setting apply start alternatives s).2 := by
  cases alternatives with
  | nil => exact .never
  | cons alternative rest =>
    rw [evaluateFirst_apply]
    rcases ran : alternative.evaluateWith setting apply (s.moved start) with
      ⟨⟨_ | tree⟩ | cause | _, s1⟩ <;>
      obtain ⟨runs, orderly, enough1⟩ :=
        (evaluateWith_runs sound alternative).orderly proper enough ran
    · have back : (s1.moved start).Proper setting := orderly.proper.moved proper.low proper.high
      have others := evaluateFirst_runs sound rest start s1 back enough1
      refine runs.go_eq rfl rfl others ?_
      rcases (Expr.evaluateFirst setting apply start rest s1).1 with ⟨_ | ⟨_ | _ | _⟩⟩ | _ | _ <;> rfl
    · exact runs.stop_eq rfl rfl rfl
    · exact runs.fault rfl
    · exact runs.spent rfl

end

end

/-! ## Rule applications -/

section

variable {setting : Setting} {s s1 : State} {name : Value} {id : Nat} {body : Expr}

theorem State.Proper.store_apply (proper : s.Proper setting) {site : Site} (low : 0 ≤ site.position)
    (high : site.position ≤ setting.input.size) (entry : Entry) :
    Action.store site.position site.id entry s = (.done (), s.put site entry) := by
  have rows := proper.rows
  simp only [Action.store, MemoTable.slot_inside low (show site.position < s.memo.rows.size by omega)]
  rfl

theorem forget_apply {site : Site} (low : 0 ≤ site.position)
    (high : site.position < s.memo.rows.size) :
    Action.forget site.position site.id s = (.done (), s.drop site) := by
  simp only [Action.forget, MemoTable.slot_inside low high]
  rfl

theorem State.Proper.look_apply (proper : s.Proper setting) {site : Site} (low : 0 ≤ site.position)
    (high : site.position ≤ setting.input.size) :
    Action.look site.position site.id s = (.done (s.known site), s) := by
  have rows := proper.rows
  simp only [Action.look,
    MemoTable.get_eq_known low (show site.position < s.memo.rows.size by omega)]
  rfl

theorem guardDepth_apply (setting : Setting) (name : Value) (s : State) :
    Action.guardDepth setting name s.position s =
      match setting.refusal name s with
      | some cause => (.fault cause, s)
      | none => (.done (), s) := by
  simp only [Action.guardDepth, Action.bind_apply, Action.depth, Action.ofExcept, Setting.refusal]
  rcases setting.options.limitReached s.depth with cause | _ | _ <;> rfl

/-- Entering a rule application opens it, unless it is refused. -/
theorem enter_apply (proper : s.Proper setting) (name : Value) (id : Nat) :
    Action.enter setting name s.position id s =
      match setting.refusal name s with
      | some cause => (.fault cause, s)
      | none => (.done (), s.opened setting name id) := by
  simp only [Action.enter, Action.bind_apply, guardDepth_apply, Action.tell_apply, Action.openRule]
  rcases setting.refusal name s with _ | cause
  · have raised := proper.raised (.parsing name s.position) (s.depth + 1)
    have stored := @State.Proper.store_apply _ _ raised ⟨id, s.position⟩ proper.low proper.high
      (.marker false)
    simp only [State.depth_told]
    exact stored
  · rfl

/-- Leaving a rule application closes it. -/
theorem leave_apply (proper : s.Proper setting) {site : Site} (low : 0 ≤ site.position)
    (high : site.position ≤ setting.input.size) (name : Value) (tree : Option Tree) :
    Action.leave setting name site.position site.id tree s =
      (.done (), s.closed setting name site tree) := by
  have rows := proper.rows
  have inside : site.position < s.memo.rows.size := by omega
  cases tree with
  | none =>
    simp only [Action.leave, Action.bind_apply, Action.closeRule, Action.conclude, Action.moveTo,
      Action.tell_apply, State.closed]
    cases setting.options.memoize with
    | true => rfl
    | false => exact forget_apply low (by simpa using inside)
  | some tree =>
    simp only [Action.leave, Action.bind_apply, Action.closeRule, Action.conclude, Action.position,
      Action.tell_apply, State.closed]
    cases setting.options.memoize with
    | true => rfl
    | false => exact forget_apply low (by simpa using inside)

theorem applyKnown_apply (proper : s.Proper setting) (name : Value) (id : Nat) (entry : Entry) :
    Action.applyKnown setting name s.position id entry s =
      match entry with
      | .marker detected => (.done none, s.flagged setting name ⟨id, s.position⟩ detected)
      | .resolved tree next => (.done tree, s.restored tree.isSome next) := by
  rcases entry with (_ | _) | ⟨_ | tree, next⟩
  · have told := proper.told (.leftRecursion name s.position)
    have stored := @State.Proper.store_apply _ _ told ⟨id, s.position⟩ proper.low proper.high
      (.marker true)
    simp only [Action.applyKnown, Action.bind_apply, Action.tell_apply, stored]
    rfl
  · rfl
  · rfl
  · rfl

/-- The first evaluation of a rule finds its marker again. -/
theorem sow_apply {attempt : Action (Option Tree)} {position : Int} {tree : Option Tree} {detected : Bool}
    (low : 0 ≤ position) (high : position ≤ setting.input.size) (proper : s1.Proper setting)
    (ran : attempt s = (.done tree, s1)) (found : s1.known ⟨id, position⟩ = some (.marker detected)) :
    Action.sow position id attempt s =
      (.done (tree, detected), s1.put ⟨id, position⟩ (.ofResult position tree s1.position)) := by
  have looked := @State.Proper.look_apply _ _ proper ⟨id, position⟩ low high
  have stored := @State.Proper.store_apply _ _ proper ⟨id, position⟩ low high
    (.ofResult position tree s1.position)
  rw [found] at looked
  simp only at looked stored
  simp only [Action.sow, Action.bind_apply, ran, Action.readMarker, looked, Action.position, stored,
    pure, Action.pure]

/-- A mismatch is not grown, and neither is a match of a rule that has not come back. -/
theorem ripen_settled {attempt : Action (Option Tree)} {position : Int} {bound : Nat}
    {tree : Option Tree} {detected : Bool} (seeded : tree = none ∨ detected = false) :
    Action.ripen setting name position id attempt bound (tree, detected) s = (.done tree, s) := by
  rcases tree with _ | tree
  · rfl
  · obtain rfl : detected = false := by simpa using seeded
    rfl

variable {room : Nat} {attempt : Action (Option Tree)}
  (sound : attempt.RunsAs setting room (.expr body))
include sound

/-- Each accepted round moves the end of the seed, which cannot pass the end of the input. -/
theorem grow_runs {position : Int} (bound : Nat) {seed : Option Tree} {reached : Int} {s : State}
    (ready : (Task.growth name id body position).Ready setting s) (enough : s.room setting ≤ room)
    (known : s.known ⟨id, position⟩ = some (.resolved seed reached))
    (within : setting.input.size - reached < bound) :
    Runs setting (.growth name id body position) s
      (Action.grow setting name position id attempt bound s).1
      (Action.grow setting name position id attempt bound s).2 := by
  induction bound generalizing s seed reached with
  | zero => have := (ready.proper.results known).2.1; omega
  | succ bound ih =>
    have ⟨low, high⟩ := ready.inside
    have looked := @State.Proper.look_apply _ _ ready.proper ⟨id, position⟩ low high
    rw [known] at looked
    simp only at looked
    simp only [Action.grow, Action.bind_apply, looked, Action.moveTo]
    rcases ran : attempt (s.moved position) with ⟨tree | cause | _, s1⟩ <;>
      obtain ⟨runs, orderly, enough1⟩ := sound.orderly ready.moved enough ran
    · have began : attempt { s with position } = (.done tree, s1) := ran
      simp only [began, Action.position]
      cases tree with
      | none => exact .grown known runs (.inl rfl)
      | some tree =>
        have told := orderly.proper.told (.grew name position s1.position)
        have stored := @State.Proper.store_apply _ _ told ⟨id, position⟩ low high
          (.ofResult position (some tree) s1.position)
        have room1 := @State.Proper.room_put_le _ _ told ⟨id, position⟩ low high
          (.ofResult position (some tree) s1.position)
        rw [State.room_told] at room1
        by_cases further : reached < s1.position
        · have planted := @State.Proper.known_put_self _ _ ⟨id, position⟩ low high told
            (.ofResult position (some tree) s1.position)
          have rest := @ih _ s1.position _ (ready.replanted orderly) (Nat.le_trans room1 enough1)
            planted (by omega)
          have longer : ¬ s1.position ≤ reached := by omega
          simp only [Option.isNone_some, Bool.false_or, decide_eq_true_eq, if_neg longer,
            Action.bind_apply, Action.tell_apply, stored]
          exact .growing known runs further rest
        · have ended : s1.position ≤ reached := by omega
          simp only [Option.isNone_some, Bool.false_or, decide_eq_true_eq, if_pos ended]
          exact .grown known runs (.inr ended)
    · have began : attempt { s with position } = (.fault cause, s1) := ran
      simp only [began]
      exact .stunted known runs
    · exact absurd rfl orderly.finished

theorem fresh_runs (ready : (Task.fresh name id body).Ready setting s)
    (enough : s.room setting ≤ room + 1) :
    Runs setting (.fresh name id body) s
      (Action.applyFresh setting name s.position id attempt setting.loopBound s).1
      (Action.applyFresh setting name s.position id attempt setting.loopBound s).2 := by
  have proper := ready.proper
  have low := proper.low
  have high := proper.high
  simp only [Action.applyFresh, Action.bind_apply, enter_apply proper]
  rcases refused : setting.refusal name s with _ | cause
  · have enough1 : (s.opened setting name id).room setting ≤ room := by
      have := ready.room_lt; omega
    rcases ran : attempt (s.opened setting name id) with ⟨tree | cause | _, s1⟩ <;>
      obtain ⟨runs, orderly, enough2⟩ := sound.orderly ready.opened enough1 ran
    · obtain ⟨detected, found, _⟩ := orderly.keeps ⟨id, s.position⟩ (.marker false)
        (by simp [Task.own?]) (by rw [proper.known_opened, if_pos rfl])
      have behind : s.position ≤ s1.position := by
        simpa [Task.start, State.position_opened] using orderly.forward
      have stored := @State.Proper.put_result _ _ ⟨id, s.position⟩ low high orderly.proper tree _
        behind orderly.proper.high
      have left := fun (s2 : State) (proper2 : s2.Proper setting) =>
        @leave_apply setting s2 proper2 ⟨id, s.position⟩ low high name
      simp only at left
      simp only [sow_apply low high orderly.proper ran found]
      by_cases seeded : tree = none ∨ detected = false
      · simp only [ripen_settled seeded, left _ stored]
        exact .settled refused runs found seeded
      · obtain ⟨seed, rfl⟩ := Option.ne_none_iff_exists'.mp fun none => seeded (.inl none)
        obtain rfl : detected = true := by simpa using seeded
        have planted := @State.Proper.known_put_self _ _ ⟨id, s.position⟩ low high orderly.proper
          (.ofResult s.position (some seed) s1.position)
        have room1 := @State.Proper.room_put_le _ _ orderly.proper ⟨id, s.position⟩ low high
          (.ofResult s.position (some seed) s1.position)
        have bound := setting.size_lt_loopBound
        have grows := @grow_runs _ name _ _ _ _ sound _ setting.loopBound _ s1.position _
          (ready.planted orderly) (Nat.le_trans room1 enough2) planted (by have := orderly.proper.low; omega)
        have kept := grows.orderly (ready.planted orderly)
        simp only [Action.ripen]
        rcases grew : Action.grow setting name s.position id attempt setting.loopBound
          (s1.put ⟨id, s.position⟩ (.ofResult s.position (some seed) s1.position)) with
          ⟨tree | cause | _, s2⟩ <;> rw [grew] at grows kept
        · simp only [left _ kept.proper]
          exact .ripened refused runs found grows
        · exact .withered refused runs found grows
        · exact absurd rfl kept.finished
    · simp only [Action.sow, Action.bind_apply, ran]
      exact .broken refused runs
    · exact absurd rfl orderly.finished
  · exact .refused refused

end

/-! ## Evaluation -/

section

variable {setting : Setting} {s s' : State} {e : Expr} {result : Result}

/-- As many applications as there is room for can be nested: where there is no room, none is
    fresh. -/
theorem applyRule_runs {fuel room : Nat} (below : room < fuel) (name : Value) :
    (applyRule setting fuel name).RunsAs setting room (.expr (.rule name)) := by
  induction fuel generalizing room name with
  | zero => omega
  | succ fuel ih =>
    intro s proper enough
    rcases found : setting.grammar.lookup name with cause | ⟨id, body⟩
    · simp only [applyRule, Action.bind_apply, found]
      exact .unknown found
    · have looked := @State.Proper.look_apply _ _ proper ⟨id, s.position⟩ proper.low proper.high
      rcases known : s.known ⟨id, s.position⟩ with _ | entry
      · have ready : (Task.fresh name id body).Ready setting s := Task.Ready.applied proper found known
        obtain ⟨fuel, rfl⟩ : ∃ less, fuel = less + 1 :=
          Nat.exists_eq_succ_of_ne_zero (by have := ready.room_lt; omega)
        have inner := evaluateWith_runs (fun name => ih (Nat.lt_succ_self fuel) name) body
        rw [known] at looked
        simp only [applyRule, Action.bind_apply, found, Action.ofExcept, Action.pure, Action.position,
          looked]
        exact .applied found known (fresh_runs inner ready (by omega))
      · rw [known] at looked
        simp only [applyRule, Action.bind_apply, found, Action.ofExcept, Action.pure, Action.position,
          looked, applyKnown_apply proper]
        cases entry with
        | marker detected => exact .marked found known
        | resolved tree next => exact .remembered found known

theorem Expr.evaluate_runs (e : Expr) (proper : s.Proper setting) :
    Runs setting (.expr e) s (e.evaluate setting s).1 (e.evaluate setting s).2 :=
  evaluateWith_runs (applyRule_runs s.room_lt_ruleBound) e s proper (Nat.le_refl _)

/-- Evaluation from a proper state is the run of the expression. -/
theorem runs_iff_evaluate (proper : s.Proper setting) :
    Runs setting (.expr e) s result s' ↔ e.evaluate setting s = (result, s') := by
  have runs := e.evaluate_runs proper
  constructor
  · intro other
    obtain ⟨same, sameState⟩ := runs.deterministic other
    exact Prod.ext same sameState
  · intro same
    rwa [same] at runs

end

/-! ## Matches -/

/-- A whole match applies a rule, and is none if that does not lead to the end of the input. -/
theorem whole_apply (setting : Setting) (start : Value) (s : State) :
    Matcher.whole setting start s =
      match (Expr.rule start).evaluate setting s with
      | (.done tree, s1) =>
        if tree.isSome ∧ s1.position = setting.input.size then (.done tree, s1)
        else (.done none, s1.told setting (.incomplete s1.position))
      | (.fault cause, s1) => (.fault cause, s1)
      | (.spent, s1) => (.spent, s1) := by
  simp only [Matcher.whole, Action.bind_apply]
  rcases (Expr.rule start).evaluate setting s with ⟨tree | cause | _, s1⟩
  · by_cases ended : tree.isSome ∧ s1.position = setting.input.size
    · simp [Action.atEnd, ended]
    · simp only [Action.atEnd, Bool.and_eq_true, decide_eq_true_eq, ended, ↓reduceIte,
        Action.bind_apply, Action.position, Action.tell_apply]
      rfl
  · rfl
  · rfl

section

variable (matcher : Matcher) (input : Input) (start : Option Value)

/-- The expression that a match evaluates. -/
def Matcher.entry : Expr := .rule (start.getD matcher.start)

theorem Matcher.run_apply :
    matcher.run input start =
      match (matcher.entry start).evaluate (matcher.setting input) (.fresh input.size) with
      | (.done tree, s) =>
        if tree.isSome ∧ s.position = input.size then (.done tree, s)
        else (.done none, s.told (matcher.setting input) (.incomplete s.position))
      | (.fault cause, s) => (.fault cause, s)
      | (.spent, s) => (.spent, s) :=
  whole_apply _ _ _

variable {matcher input start}

/-- A match fails as the evaluation of its rule does, and not otherwise. -/
theorem Matcher.run_eq_of_unfinished {result : Result} (unfinished : ∀ tree, result ≠ .done tree) :
    (matcher.run input start).1 = result ↔
      ((matcher.entry start).evaluate (matcher.setting input) (.fresh input.size)).1 = result := by
  rw [run_apply]
  rcases (matcher.entry start).evaluate (matcher.setting input) (.fresh input.size) with
    ⟨tree | cause | _, s⟩
  · have other : Outcome.done tree ≠ result := fun same => unfinished tree same.symm
    simp only [other, iff_false]
    split <;> exact fun same => unfinished _ same.symm
  · rfl
  · rfl

/-- The tree of a match is that of its rule, which has led to the end of the input. -/
theorem Matcher.evaluate_of_run {tree : Tree} (matched : (matcher.run input start).1 = .done (some tree)) :
    ∃ s, (matcher.entry start).evaluate (matcher.setting input) (.fresh input.size) =
      (.done (some tree), s) ∧ s.position = input.size := by
  rw [run_apply] at matched
  rcases ran : (matcher.entry start).evaluate (matcher.setting input) (.fresh input.size) with
    ⟨found | cause | _, s⟩ <;> rw [ran] at matched
  · simp only at matched
    split at matched
    · rename_i whole
      cases matched
      exact ⟨s, rfl, whole.2⟩
    · cases matched
  · cases matched
  · cases matched

end

end SeedPeg
