import SeedPeg.Proofs.Conformance

/-!
# Straight evaluations

An evaluation is straight if it ends without a fault and reaches no left recursion: no rule that is
applied in it finds its own marker (`Expr.Straight`). Where an expression is straight, what it ends with
is what it means (`Runs.means`): the steps of the run are those of a derivation, since no mismatch
comes from a marker and so no seed grows. The other way round, where an expression means something, each
expression that begins in its evaluation has a derivation too (`Begins.meaningful`), and a rule that
finds its marker has none. So straight evaluations are those of which the meaning is that the expression
matches or does not (`straight_iff_means`).
-/

namespace SeedPeg

/-- The state with the cursor at a position in which nothing was evaluated. -/
abbrev Setting.startAt (setting : Setting) (position : Int) : State :=
  (State.fresh setting.input.size).moved position

/-- No rule that is applied while a task runs finds its marker. -/
def Unmarked (setting : Setting) (task : Task) (s : State) : Prop :=
  ∀ sites name s' id body detected, Begins setting task s sites (.expr (.rule name)) s' →
    setting.grammar.lookup name = .ok (id, body) →
    s'.known ⟨id, s'.position⟩ ≠ some (.marker detected)

/-- Evaluation of the expression at a position, before which nothing was evaluated, ends without a
    fault and reaches no left recursion. -/
structure Expr.Straight (setting : Setting) (e : Expr) (position : Int) : Prop where
  ends : ∃ tree, (e.evaluate setting (setting.startAt position)).1 = .done tree
  unmarked : Unmarked setting (.expr e) (setting.startAt position)

/-- Whether a result is what the definition of the rule means at the site. -/
def Setting.Derived (setting : Setting) (site : Site) (tree : Option Tree) (next : Int) : Prop :=
  ∀ body, setting.grammar.definitions[site.id]? = some body →
    ∃ verdict, Means setting body site.position verdict ∧ verdict.Answers (.done tree) next

/-- Whether a verdict is that an expression matches, or that it does not. -/
def Verdict.IsDefined : Verdict → Prop
  | .undefined _ => False
  | _ => True

theorem Verdict.prepend_nil (verdict : Verdict) : verdict.prepend [] = verdict := by
  rcases verdict with ⟨_ | _ | _, _⟩ | _ | _ <;> rfl

/-- What answers a verdict ends without a fault exactly if the verdict is defined. -/
theorem Verdict.Answers.isDefined_iff {verdict : Verdict} {result : Result} {stop : Int}
    (answers : verdict.Answers result stop) : verdict.IsDefined ↔ ∃ tree, result = .done tree := by
  cases verdict with
  | matched tree place => simp [IsDefined, answers.1]
  | failed => simp [IsDefined, show result = .done none from answers]
  | undefined name => simp [IsDefined, show result = .fault (.unknownRule name) from answers]

section

variable {setting : Setting} {e part next : Expr} {start stop : Int} {inner verdict : Verdict}
  {tree ended : Option Tree} {back : Bool} {trees : List Tree}

/-! ## Derivations from the parts -/

/-- An expression that ends after its first part means what it ends with. -/
theorem Means.of_stop (first : e.first? = some part) (means : Means setting part start inner)
    (answers : inner.Answers (.done tree) stop)
    (after : e.after (.done tree) (stop = start) = .stop (.done ended) back) :
    ∃ verdict, Means setting e start verdict ∧
      verdict.Answers (.done ended) (if back then start else stop) := by
  obtain ⟨derivation⟩ := means
  cases inner with
  | undefined name => cases answers
  | failed =>
    cases answers
    rcases e with _ | _ | ⟨_ | ⟨item, rest⟩⟩ | ⟨_ | ⟨alternative, rest⟩⟩ | element | element | element |
      element | element | _ | _ <;> cases first <;> cases after
    · exact ⟨_, ⟨.broken derivation⟩, rfl⟩
    · exact ⟨_, ⟨.stopped derivation⟩, rfl, rfl⟩
    · exact ⟨_, ⟨.missing derivation⟩, rfl⟩
    · exact ⟨_, ⟨.absent derivation⟩, rfl, rfl⟩
    · exact ⟨_, ⟨.notAhead derivation⟩, rfl⟩
    · exact ⟨_, ⟨.allowed derivation⟩, rfl, rfl⟩
  | matched found place =>
    obtain ⟨same, rfl⟩ := answers
    cases same
    rcases e with _ | _ | ⟨_ | ⟨item, rest⟩⟩ | ⟨_ | ⟨alternative, rest⟩⟩ | element | element | element |
      element | element | _ | _ <;> cases first
    · cases after
    · cases after
      exact ⟨_, ⟨.chosen derivation⟩, rfl, rfl⟩
    · by_cases idle : stop = start
      · subst idle
        simp only [decide_true] at after
        cases after
        exact ⟨_, ⟨.idle derivation⟩, rfl, rfl⟩
      · simp only [idle, decide_false] at after
        cases after
    · cases after
    · cases after
      exact ⟨_, ⟨.present derivation⟩, rfl, rfl⟩
    · cases after
      exact ⟨_, ⟨.ahead derivation⟩, rfl, rfl⟩
    · cases after
      exact ⟨_, ⟨.excluded derivation⟩, rfl⟩

/-- An expression that goes on after its first part means what it goes on as means. -/
theorem Means.of_go (first : e.first? = some part) (means : Means setting part start inner)
    (answers : inner.Answers (.done tree) stop)
    (after : e.after (.done tree) (stop = start) = .go next back trees)
    (later : Means setting next (if back then start else stop) verdict) :
    Means setting e start (verdict.prepend trees) := by
  obtain ⟨derivation⟩ := means
  obtain ⟨rest⟩ := later
  cases inner with
  | undefined name => cases answers
  | failed =>
    cases answers
    rcases e with _ | _ | ⟨_ | ⟨item, others⟩⟩ | ⟨_ | ⟨alternative, others⟩⟩ | element | element |
      element | element | element | _ | _ <;> cases first <;> cases after
    rw [Verdict.prepend_nil]
    exact ⟨.other derivation rest⟩
  | matched found place =>
    obtain ⟨same, rfl⟩ := answers
    cases same
    rcases e with _ | _ | ⟨_ | ⟨item, others⟩⟩ | ⟨_ | ⟨alternative, others⟩⟩ | element | element |
      element | element | element | _ | _ <;> cases first
    · cases after
      exact ⟨.item derivation rest⟩
    · cases after
    · by_cases idle : stop = start
      · simp only [idle, decide_true] at after
        cases after
      · simp only [idle, decide_false] at after
        cases after
        exact ⟨.again derivation idle rest⟩
    · cases after
      exact ⟨.once derivation rest⟩
    · cases after
    · cases after
    · cases after

end

/-! ## From straight runs to derivations -/

section

variable {setting : Setting} {task inner : Task} {s s' s1 : State} {name : Value} {id : Nat} {body : Expr}

/-- What begins in an unmarked task is unmarked. -/
theorem Unmarked.later (unmarked : Unmarked setting task s) {sites : List Site}
    (begins : Begins setting task s sites inner s') : Unmarked setting inner s' := by
  intro _ name _ _ _ _ deeper
  exact unmarked _ name _ _ _ _ (begins.trans deeper)

/-- Markers are left as they are. -/
def State.KeepsMarkers (s s' : State) : Prop :=
  ∀ site detected, s.known site = some (.marker detected) → s'.known site = some (.marker detected)

theorem State.KeepsMarkers.restored (keeps : s.KeepsMarkers s') (back : Bool) (position : Int) :
    s.KeepsMarkers (s'.restored back position) := by
  intro site detected marked
  rw [State.known_restored]
  exact keeps site detected marked

/-- What becomes of a rule that was opened where nothing was known of it has no effect on other markers. -/
theorem State.KeepsMarkers.closed (ready : (Task.fresh name id body).Ready setting s)
    (proper : s1.Proper setting) (keeps : (s.opened setting name id).KeepsMarkers s1) (entry : Entry)
    (tree : Option Tree) :
    s.KeepsMarkers ((s1.put ⟨id, s.position⟩ entry).closed setting name ⟨id, s.position⟩ tree) := by
  intro site detected marked
  obtain ⟨low, high⟩ := ready.site_inside
  have other : ¬ site = ⟨id, s.position⟩ := by
    intro same
    rw [same, ready.2.2] at marked
    cases marked
  have opened : (s.opened setting name id).known site = some (.marker detected) := by
    rw [ready.proper.known_opened, if_neg other, marked]
  rw [State.known_closed tree low, if_neg fun both => other both.2, proper.known_put low high, if_neg other]
  exact keeps site detected opened

/-- A result that is what the definition means can be stored. -/
theorem Setting.derived_of_answers {site : Site} {tree : Option Tree} {stop : Int} {verdict : Verdict}
    (defined : setting.grammar.definitions[site.id]? = some body)
    (means : Means setting body site.position verdict) (answers : verdict.Answers (.done tree) stop) :
    setting.Derived site tree (if tree.isSome then stop else site.position) := by
  intro other same
  rw [defined] at same
  cases same
  exact ⟨verdict, means, answers.placed _⟩

/-- The meaning of a terminal is what matching its symbols ends with. -/
theorem Means.of_literal {literal : Value} {tree : Option Tree} (proper : s.Proper setting)
    (matched : Action.literal setting literal s = (.done tree, s')) :
    ∃ verdict, Means setting (.terminal literal) s.position verdict ∧
      verdict.Answers (.done tree) s'.position := by
  cases made : literal.symbols? with
  | none => rw [literal_fault made] at matched; cases matched
  | some symbols =>
    have means : ∃ verdict, Means setting (.terminal literal) s.position verdict := by
      by_cases spells : setting.input.Spells symbols s.position (s.position + symbols.length)
      · exact ⟨_, ⟨.literal made spells⟩⟩
      · exact ⟨_, ⟨.mismatch made spells⟩⟩
    obtain ⟨verdict, means⟩ := means
    exact ⟨verdict, means, means.literal proper matched⟩

/-- A run without a fault in which no rule finds its marker ends as its expression means, from a state
    in which every result is what the definition of its rule means; and so it is in the end. Growth needs
    a flagged marker, so none begins. -/
theorem Runs.means {result : Result} (runs : Runs setting task s result s') (ready : task.Ready setting s)
    (knows : s.Knows setting.Derived) (unmarked : Unmarked setting task s) (ungrown : task.own? = none)
    {tree : Option Tree} (ended : result = .done tree) :
    (∃ verdict, Means setting task.expression (task.start s) verdict ∧
      verdict.Answers result s'.position) ∧
    s'.Knows setting.Derived ∧ s.KeepsMarkers s' := by
  induction runs generalizing tree with
  | @terminal literal s result s' matched =>
    subst ended
    refine ⟨Means.of_literal ready matched, ?_⟩
    obtain ⟨position, rfl⟩ := literal_moves ready matched
    exact ⟨knows.moved _, fun _ _ marked => marked⟩
  | bare | plain | unknown | refused | broken | withered => cases ended
  | nothing => exact ⟨⟨_, ⟨.nothing⟩, rfl, rfl⟩, knows, fun _ _ marked => marked⟩
  | never => exact ⟨⟨_, ⟨.never⟩, rfl⟩, knows, fun _ _ marked => marked⟩
  | @stop e part s result s1 ended' back first runs after ih =>
    subst ended
    obtain ⟨tree', rfl⟩ := Expr.done_of_after_stop after
    obtain ⟨⟨verdict, means, answers⟩, kept, markers⟩ :=
      ih ready knows (unmarked.later (.first first .here)) rfl rfl
    obtain ⟨whole, means, answers⟩ := Means.of_stop first means answers after
    refine ⟨⟨whole, means, ?_⟩, kept.restored _ _, markers.restored _ _⟩
    rwa [State.position_restored]
  | @go e part s result s1 next back trees ended' s2 first runs after _ ihPart ihNext =>
    obtain ⟨last, rfl⟩ := Outcome.prepend_eq_done ended
    obtain ⟨tree', rfl⟩ := Expr.done_of_after_go after
    have ran := (runs_iff_evaluate ready).mp runs
    obtain ⟨⟨verdict, means, answers⟩, kept, markers⟩ :=
      ihPart ready knows (unmarked.later (.first first .here)) rfl rfl
    obtain ⟨⟨later, means', answers'⟩, kept', markers'⟩ :=
      ihNext (Task.Ready.next ready (runs.orderly ready) back next) (kept.restored _ _)
        (unmarked.later (.next first ran after .here)) rfl rfl
    rw [Task.start_expr, State.position_restored] at means'
    refine ⟨⟨_, Means.of_go first means answers after means', Verdict.answers_prepend trees answers'⟩,
      kept', ?_⟩
    intro site detected marked
    exact markers' site detected (markers.restored _ _ site detected marked)
  | marked found known => exact absurd known (unmarked _ _ _ _ _ _ .here found)
  | @remembered name id body tree' next s found known =>
    obtain ⟨verdict, ⟨derivation⟩, answers⟩ := knows.holds known _ (Grammar.definition_of_lookup found)
    refine ⟨⟨verdict, ⟨.rule found derivation⟩, ?_⟩, knows.restored _ _, ?_⟩
    · rw [State.position_restored]
      exact answers.placed _
    · exact State.KeepsMarkers.restored (fun _ _ marked => marked) _ _
  | applied found unknown _ ih =>
    obtain ⟨⟨verdict, ⟨derivation⟩, answers⟩, kept, markers⟩ := ih (Task.Ready.applied ready found unknown)
      knows (unmarked.later (.applied found unknown .here)) rfl ended
    exact ⟨⟨verdict, ⟨.rule found derivation⟩, answers⟩, kept, markers⟩
  | @settled name id body tree' detected s s1 accepted runs _ _ ih =>
    have orderly := runs.orderly ready.opened
    obtain ⟨low, high⟩ := ready.site_inside
    obtain ⟨⟨verdict, means, answers⟩, kept, markers⟩ := ih ready.opened
      (knows.opened ready.proper name id) (unmarked.later (.opened accepted .here)) rfl rfl
    rw [Task.start_expr, State.position_opened] at means
    have planted := kept.planted ready orderly (Setting.derived_of_answers ready.2.1 means answers)
    refine ⟨⟨verdict, means, ?_⟩, planted.closed name tree' low,
      State.KeepsMarkers.closed ready orderly.proper markers _ _⟩
    rw [State.position_closed]
    exact answers.placed _
  | @ripened name id body seed tree' s s1 s2 accepted runs flagged _ ihBody _ =>
    obtain ⟨_, _, markers⟩ := ihBody ready.opened (knows.opened ready.proper name id)
      (unmarked.later (.opened accepted .here)) rfl rfl
    have unflagged := markers ⟨id, s.position⟩ false (by rw [ready.proper.known_opened, if_pos rfl])
    rw [flagged] at unflagged
    cases unflagged
  | grown | growing | stunted => cases ungrown

end

/-! ## From derivations to straight runs -/

section

variable {setting : Setting} {task inner : Task} {s s' : State} {sites : List Site}

/-- A task of which the expression has a derivation, begun where all that is known conforms and the
    derivations of the open rules lead to it. -/
structure Meaningful (setting : Setting) (task : Task) (s : State) : Prop where
  knows : s.Knows setting.Conforming
  leads : s.Leads setting task.expression (task.start s)
  means : ∃ verdict, Means setting task.expression (task.start s) verdict

/-- Whatever begins in a meaningful task is meaningful. -/
theorem Begins.meaningful (unlimited : setting.options.maxDepth = .none)
    (begins : Begins setting task s sites inner s') (ready : task.Ready setting s)
    (meaningful : Meaningful setting task s) : Meaningful setting inner s' := by
  induction begins with
  | here => exact meaningful
  | @first e part s sites inner s' first _ ih =>
    obtain ⟨knows, leads, verdict, means⟩ := meaningful
    obtain ⟨height, within⟩ : ∃ height, Within setting height e s.position verdict := means.within
    obtain ⟨middle, split, _⟩ := within.split first
    exact ih ready ⟨knows, leads.part first, middle, split.means⟩
  | @next e part s result s1 next back trees sites inner s' first ran after _ ih =>
    obtain ⟨knows, leads, verdict, means⟩ := meaningful
    have runs := (runs_iff_evaluate ready).mpr ran
    have orderly := runs.orderly ready
    obtain ⟨answers, kept⟩ := runs.conforms unlimited ready knows (leads.part first)
    obtain ⟨tree, rfl⟩ := Expr.done_of_after_go after
    obtain ⟨height, within⟩ : ∃ height, Within setting height e s.position verdict := means.within
    obtain ⟨middle, split, rest⟩ := within.split first
    have goes := rest _ s1.position (answers middle split.means)
    rw [after] at goes
    obtain ⟨later, within, _⟩ := goes
    refine ih (Task.Ready.next ready orderly back next) ⟨(kept tree rfl).restored _ _,
      leads.next first after (runs.cleans ready rfl).markers answers, later, ?_⟩
    rw [Task.start_expr, State.position_restored]
    exact within.means
  | applied found unknown _ ih =>
    obtain ⟨knows, leads, verdict, means⟩ := meaningful
    exact ih (Task.Ready.applied ready found unknown)
      ⟨knows, leads.applied found, verdict, means.of_rule found⟩
  | @opened name id body s sites inner s' _ _ ih =>
    obtain ⟨knows, leads, verdict, means⟩ := meaningful
    refine ih ready.opened ⟨knows.opened ready.proper name id, leads.opened ready, verdict, ?_⟩
    rwa [Task.start_expr, State.position_opened]
  | @seeded name id body seed s s1 _ _ _ _ ran _ _ ih =>
    obtain ⟨knows, leads, means⟩ := meaningful
    have runs := (runs_iff_evaluate ready.opened).mpr ran
    have orderly := runs.orderly ready.opened
    obtain ⟨answers, kept⟩ := runs.conforms unlimited ready.opened (knows.opened ready.proper name id)
      (leads.opened ready)
    rw [Task.start_expr, State.position_opened] at answers
    exact ih (ready.planted orderly)
      ⟨(kept _ rfl).planted ready orderly (Setting.conforming_of_answers ready.2.1 answers),
        leads.of_tidies ((runs.cleans ready.opened rfl).markers.planted ready orderly), means⟩
  | @round name id body position s _ _ _ _ ih =>
    obtain ⟨knows, leads, means⟩ := meaningful
    exact ih ready.moved ⟨knows.moved position, leads.moved position, means⟩
  | @regrown name id body position seed reached tree s s1 _ _ _ known ran further _ ih =>
    obtain ⟨knows, leads, means⟩ := meaningful
    have runs := (runs_iff_evaluate ready.moved).mpr ran
    have orderly := runs.orderly ready.moved
    obtain ⟨answers, kept⟩ := runs.conforms unlimited ready.moved (knows.moved position)
      (leads.moved position)
    have conforming := @Setting.conforming_of_answers _ _ ⟨id, position⟩ (some tree) _ ready.2.1 answers
    have tidies := (runs.cleans ready.moved rfl).markers.replanted (s := s) ready orderly
    exact ih (ready.replanted orderly)
      ⟨(kept _ rfl).replanted ready orderly conforming, leads.of_tidies tidies, means⟩

end

/-- The evaluation of an expression from a cursor in the input, before which nothing was evaluated, ends
    without a fault and reaches no left recursion exactly where the expression means that it matches or
    that it does not; and then it ends so. -/
theorem straight_iff_means {setting : Setting} (unlimited : setting.options.maxDepth = .none) {e : Expr}
    {position : Int} (low : 0 ≤ position) (high : position ≤ setting.input.size) :
    e.Straight setting position ↔ ∃ verdict, Means setting e position verdict ∧ verdict.IsDefined := by
  have start : Warm setting (setting.startAt position) :=
    Warm.fresh.moved low high
  have settled := start.settled unlimited
  constructor
  · rintro ⟨⟨tree, ended⟩, unmarked⟩
    have runs := Expr.evaluate_runs e settled.proper
    rw [ended] at runs
    have derived : (setting.startAt position).Knows setting.Derived := (State.Knows.fresh _).moved position
    obtain ⟨⟨verdict, means, answers⟩, _, _⟩ := runs.means settled.proper derived unmarked rfl rfl
    exact ⟨verdict, means, answers.isDefined_iff.mpr ⟨tree, rfl⟩⟩
  · rintro ⟨verdict, means, defined⟩
    have answers := (settled.conforms unlimited rfl).1 verdict means
    refine ⟨answers.isDefined_iff.mp defined, ?_⟩
    intro sites name s id body detected begins found known
    obtain ⟨_, leads, inner, means⟩ := begins.meaningful unlimited settled.proper
      ⟨settled.knows, settled.leads _ _, verdict, means⟩
    exact leads.means_nothing found known means

end SeedPeg
