import Mathlib
import SeedPeg.Proofs.Frame
import SeedPeg.Proofs.Meaning
import SeedPeg.Proofs.Results

/-!
# Conformance

Where an expression means something, evaluation ends with it, from every state that earlier
evaluations without a fault have left (`evaluate_conforms`). Two invariants carry the proof. Every
known result is what the definition of its rule means at its position, if that means anything
(`Setting.Conforming`). And while a rule application is open whose definition has a derivation, the
expression at hand has one that is not higher (`State.Leads`), so that an application never comes
back to the marker of such a rule: it would have a derivation lower than any of its own. What has no
derivation can go through left recursion, and leaves results of which nothing is asked.
-/

namespace SeedPeg

/-- Whether a result is what the definition of the rule means at the site, if it means anything. -/
def Setting.Conforming (setting : Setting) (site : Site) (tree : Option Tree) (next : Int) : Prop :=
  ∀ body verdict, setting.grammar.definitions[site.id]? = some body →
    Means setting body site.position verdict → verdict.Answers (.done tree) next

/-- The derivations of the definitions of open rules lead to the expression at hand. -/
def State.Leads (setting : Setting) (s : State) (e : Expr) (start : Int) : Prop :=
  ∀ site detected body height verdict, s.known site = some (.marker detected) →
    setting.grammar.definitions[site.id]? = some body →
    Within setting height body site.position verdict → ∃ inner, Within setting height e start inner

section

variable {setting : Setting} {s s' s1 : State} {e : Expr} {name : Value} {id : Nat} {body : Expr}
  {start : Int} {verdict : Verdict}

theorem Within.means {height : Nat} (within : Within setting height e start verdict) :
    Means setting e start verdict :=
  ⟨within.choose⟩

theorem Means.within (means : Means setting e start verdict) :
    ∃ height, Within setting height e start verdict :=
  means.elim fun derivation => ⟨_, derivation, Nat.le_refl _⟩

/-- A rule that is declared means what its definition does, with a lower derivation. -/
theorem Within.of_rule {height : Nat} (within : Within setting height (.rule name) start verdict)
    (found : setting.grammar.lookup name = .ok (id, body)) :
    ∃ lower, lower < height ∧ Within setting lower body start verdict := by
  obtain ⟨derivation, bound⟩ := within
  cases derivation with
  | interrupted first => cases first
  | unknown missing => rw [found] at missing; cases missing
  | rule known inner =>
    rw [found] at known
    cases known
    exact ⟨inner.height, bound, inner, Nat.le_refl _⟩

theorem Means.of_rule (means : Means setting (.rule name) start verdict)
    (found : setting.grammar.lookup name = .ok (id, body)) : Means setting body start verdict := by
  obtain ⟨height, within⟩ := means.within
  obtain ⟨lower, _, inner⟩ := within.of_rule found
  exact inner.means

namespace State.Leads

/-- A rule that comes back to its own marker means nothing: its definition would have lower and lower
    derivations. -/
theorem means_nothing (leads : s.Leads setting (.rule name) s.position)
    (found : setting.grammar.lookup name = .ok (id, body)) {detected : Bool}
    (known : s.known ⟨id, s.position⟩ = some (.marker detected)) :
    ¬ Means setting (.rule name) s.position verdict := by
  intro means
  have descends : ∀ height verdict, ¬ Within setting height body s.position verdict := by
    intro height
    induction height using Nat.strong_induction_on with
    | h height ih =>
      intro verdict within
      obtain ⟨inner, again⟩ := leads _ _ _ _ _ known (Grammar.definition_of_lookup found) within
      obtain ⟨lower, below, within⟩ := again.of_rule found
      exact ih lower below inner within
  obtain ⟨height, within⟩ := (means.of_rule found).within
  exact descends height verdict within

theorem of_tidies (leads : s.Leads setting e start) (tidies : s.Tidies s') :
    s'.Leads setting e start := by
  intro site detected body height verdict known defined within
  obtain ⟨before, marked⟩ := tidies site detected known
  exact leads site before body height verdict marked defined within

theorem part {part : Expr} (leads : s.Leads setting e s.position) (first : e.first? = some part) :
    s.Leads setting part s.position := by
  intro site detected body height verdict known defined within
  obtain ⟨inner, whole⟩ := leads site detected body height verdict known defined within
  obtain ⟨inner, split, _⟩ := whole.split first
  exact ⟨inner, split⟩

end State.Leads

namespace State.Tidies

theorem of_known (same : ∀ site, s'.known site = s.known site) : s.Tidies s' := by
  intro site detected known
  rw [same] at known
  exact ⟨detected, known⟩

/-- The result of a first evaluation takes the place of the marker. -/
theorem planted {tree : Option Tree} (tidies : (s.opened setting name id).Tidies s1)
    (ready : (Task.fresh name id body).Ready setting s)
    (orderly : Orderly setting (.expr body) (s.opened setting name id) (.done tree) s1) :
    s.Tidies (s1.put ⟨id, s.position⟩ (.ofResult s.position tree s1.position)) := by
  intro site detected known
  rw [@State.Proper.known_put _ _ ⟨id, s.position⟩ ready.proper.low ready.proper.high
    orderly.proper] at known
  split at known
  · cases known
  · rename_i other
    obtain ⟨before, marked⟩ := tidies site detected known
    rw [ready.proper.known_opened, if_neg other] at marked
    exact ⟨before, marked⟩

theorem replanted {position : Int} {tree : Tree} (tidies : s.Tidies s1)
    (ready : (Task.growth name id body position).Ready setting s)
    (orderly : Orderly setting (.expr body) (s.moved position) (.done (some tree)) s1) :
    s.Tidies ((s1.told setting (.grew name position s1.position)).put ⟨id, position⟩
      (.ofResult position (some tree) s1.position)) := by
  intro site detected known
  rw [@State.Proper.known_put _ _ ⟨id, position⟩ ready.inside.1 ready.inside.2
    (orderly.proper.told _), State.known_told] at known
  split at known
  · cases known
  · exact tidies site detected known

end State.Tidies

namespace State.Leads

theorem moved (leads : s.Leads setting e start) (position : Int) :
    (s.moved position).Leads setting e start :=
  leads.of_tidies (.of_known fun _ => rfl)

theorem applied (leads : s.Leads setting (.rule name) s.position)
    (found : setting.grammar.lookup name = .ok (id, body)) : s.Leads setting body s.position := by
  intro site detected definition height verdict known defined within
  obtain ⟨inner, whole⟩ := leads site detected definition height verdict known defined within
  obtain ⟨lower, below, derivation, bound⟩ := whole.of_rule found
  exact ⟨inner, derivation, Nat.le_trans bound (Nat.le_of_lt below)⟩

/-- The derivations of an opened rule are those of its definition. -/
theorem opened (leads : s.Leads setting body s.position)
    (ready : (Task.fresh name id body).Ready setting s) :
    (s.opened setting name id).Leads setting body (s.opened setting name id).position := by
  intro site detected definition height verdict known defined within
  rw [State.position_opened]
  rw [ready.proper.known_opened] at known
  split at known
  · rename_i same
    subst same
    rw [ready.2.1] at defined
    cases defined
    exact ⟨verdict, within⟩
  · exact leads site detected definition height verdict known defined within

/-- What an expression goes on as has a derivation where its first part ended as it means. -/
theorem next {part next : Expr} {result : Result} {back : Bool} {trees : List Tree}
    (leads : s.Leads setting e s.position) (first : e.first? = some part)
    (after : e.after result (s1.position = s.position) = .go next back trees) (tidies : s.Tidies s1)
    (ended : ∀ verdict, Means setting part s.position verdict → verdict.Answers result s1.position) :
    (s1.restored back s.position).Leads setting next (s1.restored back s.position).position := by
  intro site detected definition height verdict known defined within
  rw [State.known_restored] at known
  obtain ⟨before, marked⟩ := tidies site detected known
  obtain ⟨inner, whole⟩ := leads site before definition height verdict marked defined within
  obtain ⟨inner, split, rest⟩ := whole.split first
  have goes := rest result s1.position (ended inner split.means)
  rw [after] at goes
  obtain ⟨later, within, _⟩ := goes
  rw [State.position_restored]
  exact ⟨later, within⟩

end State.Leads

theorem Setting.refusal_of_unlimited (unlimited : setting.options.maxDepth = .none) :
    setting.refusal name s = none := by
  simp [refusal, Options.limitReached, unlimited]

theorem Setting.conforming_of_answers {site : Site} {tree : Option Tree} {stop : Int}
    (defined : setting.grammar.definitions[site.id]? = some body)
    (answers : ∀ verdict, Means setting body site.position verdict → verdict.Answers (.done tree) stop) :
    setting.Conforming site tree (if tree.isSome then stop else site.position) := by
  intro other verdict same means
  rw [defined] at same
  cases same
  exact (answers verdict means).placed _

/-- The literals of a terminal are matched as they mean. -/
theorem Means.literal {literal : Value} {result : Result} (proper : s.Proper setting)
    (means : Means setting (.terminal literal) s.position verdict)
    (matched : Action.literal setting literal s = (result, s')) : verdict.Answers result s'.position := by
  obtain ⟨derivation⟩ := means
  cases derivation with
  | literal made spells =>
    rw [literal_apply proper made, (setting.input.spells_iff_agreement proper.low).mp spells, if_pos rfl]
      at matched
    cases matched
    exact ⟨rfl, rfl⟩
  | mismatch made apart =>
    rw [setting.input.spells_iff_agreement proper.low] at apart
    rw [literal_apply proper made, if_neg apart] at matched
    cases matched
    rfl
  | interrupted first => cases first

/-- A run ends as its expression means, and keeps what is known conforming if it ends without a
    fault. -/
theorem Runs.conforms (unlimited : setting.options.maxDepth = .none) {task : Task} {result : Result}
    (runs : Runs setting task s result s') (ready : task.Ready setting s)
    (knows : s.Knows setting.Conforming) (leads : s.Leads setting task.expression (task.start s)) :
    (∀ verdict, Means setting task.expression (task.start s) verdict →
      verdict.Answers result s'.position) ∧
    (∀ tree, result = .done tree → s'.Knows setting.Conforming) := by
  induction runs with
  | @terminal literal s result s' matched =>
    refine ⟨fun verdict means => means.literal ready matched, ?_⟩
    rintro tree rfl
    cases made : literal.symbols? with
    | none => rw [literal_fault made] at matched; cases matched
    | some symbols =>
      rw [literal_apply ready made] at matched
      cases matched
      exact knows.moved _
  | bare | plain =>
    refine ⟨?_, by simp⟩
    rintro verdict ⟨derivation⟩
    cases derivation with | interrupted first => cases first
  | nothing =>
    refine ⟨?_, fun tree _ => knows⟩
    rintro verdict ⟨derivation⟩
    cases derivation with
    | nothing => exact ⟨rfl, rfl⟩
    | interrupted first => cases first
  | never =>
    refine ⟨?_, fun tree _ => knows⟩
    rintro verdict ⟨derivation⟩
    cases derivation with
    | never => rfl
    | interrupted first => cases first
  | @stop e part s result s1 ended back first _ after ih =>
    obtain ⟨inner, kept⟩ := ih ready knows (leads.part first)
    refine ⟨?_, ?_⟩
    · intro verdict means
      obtain ⟨height, within⟩ : ∃ height, Within setting height e s.position verdict := means.within
      obtain ⟨middle, split, rest⟩ := within.split first
      have stops := rest result s1.position (inner middle split.means)
      rw [after] at stops
      rwa [State.position_restored]
    · rintro tree rfl
      obtain ⟨tree', rfl⟩ := Expr.done_of_after_stop after
      exact (kept tree' rfl).restored _ _
  | @go e part s result s1 next back trees ended s2 first runs after _ ihPart ihNext =>
    obtain ⟨inner, kept⟩ := ihPart ready knows (leads.part first)
    obtain ⟨tree', rfl⟩ := Expr.done_of_after_go after
    have tidies := (runs.cleans ready rfl).markers
    obtain ⟨later, kept1⟩ := ihNext (Task.Ready.next ready (runs.orderly ready) back next)
      ((kept tree' rfl).restored _ _) (leads.next first after tidies inner)
    refine ⟨?_, ?_⟩
    · intro verdict means
      obtain ⟨height, within⟩ : ∃ height, Within setting height e s.position verdict := means.within
      obtain ⟨middle, split, rest⟩ := within.split first
      have goes := rest _ s1.position (inner middle split.means)
      rw [after] at goes
      obtain ⟨last, within, whole⟩ := goes
      refine whole _ _ (later last ?_)
      rw [Task.start_expr, State.position_restored]
      exact within.means
    · intro tree same
      obtain ⟨last, rfl⟩ := Outcome.prepend_eq_done same
      exact kept1 last rfl
  | @unknown name cause s missing =>
    refine ⟨?_, by simp⟩
    rintro verdict ⟨derivation⟩
    cases derivation with
    | interrupted first => cases first
    | unknown absent =>
      rw [missing] at absent
      cases absent
      rfl
    | rule found => rw [missing] at found; cases found
  | marked found known =>
    -- of a mismatch at a marker nothing is asked: by `leads` its rule means nothing here
    refine ⟨?_, fun tree _ => knows.flagged ready _ _ _⟩
    intro verdict means
    exact absurd means (leads.means_nothing found known)
  | remembered found known =>
    refine ⟨?_, fun tree _ => knows.restored _ _⟩
    intro verdict means
    have answers := knows.holds known _ _ (Grammar.definition_of_lookup found) (means.of_rule found)
    rw [State.position_restored]
    exact answers.placed _
  | applied found unknown _ ih =>
    obtain ⟨inner, kept⟩ := ih (Task.Ready.applied ready found unknown) knows (leads.applied found)
    exact ⟨fun verdict means => inner verdict (means.of_rule found), kept⟩
  | refused refused => rw [Setting.refusal_of_unlimited unlimited] at refused; cases refused
  | @broken name id body cause s s1 _ _ ih =>
    obtain ⟨inner, _⟩ := ih ready.opened (knows.opened ready.proper name id) (leads.opened ready)
    rw [Task.start_expr, State.position_opened] at inner
    exact ⟨inner, by simp⟩
  | @settled name id body tree detected s s1 _ runs _ _ ih =>
    have orderly := runs.orderly ready.opened
    obtain ⟨inner, kept⟩ := ih ready.opened (knows.opened ready.proper name id) (leads.opened ready)
    rw [Task.start_expr, State.position_opened] at inner
    have low : 0 ≤ (Site.mk id s.position).position := ready.proper.low
    have planted := (kept tree rfl).planted ready orderly (Setting.conforming_of_answers ready.2.1 inner)
    refine ⟨?_, fun _ _ => planted.closed name tree low⟩
    intro verdict means
    rw [State.position_closed]
    exact (inner verdict means).placed _
  | @ripened name id body seed tree s s1 s2 _ runs _ _ ihBody ihGrowth =>
    have orderly := runs.orderly ready.opened
    obtain ⟨inner, kept⟩ := ihBody ready.opened (knows.opened ready.proper name id) (leads.opened ready)
    rw [Task.start_expr, State.position_opened] at inner
    have low : 0 ≤ (Site.mk id s.position).position := ready.proper.low
    have planted := (kept _ rfl).planted ready orderly (Setting.conforming_of_answers ready.2.1 inner)
    have tidies := (runs.cleans ready.opened rfl).markers.planted ready orderly
    obtain ⟨later, kept2⟩ := ihGrowth (ready.planted orderly) planted (leads.of_tidies tidies)
    refine ⟨?_, fun _ _ => (kept2 tree rfl).closed name tree low⟩
    intro verdict means
    rw [State.position_closed]
    exact (later verdict means).placed _
  | @withered name id body seed cause s s1 s2 _ runs _ _ ihBody ihGrowth =>
    have orderly := runs.orderly ready.opened
    obtain ⟨inner, kept⟩ := ihBody ready.opened (knows.opened ready.proper name id) (leads.opened ready)
    rw [Task.start_expr, State.position_opened] at inner
    have planted := (kept _ rfl).planted ready orderly (Setting.conforming_of_answers ready.2.1 inner)
    have tidies := (runs.cleans ready.opened rfl).markers.planted ready orderly
    obtain ⟨later, _⟩ := ihGrowth (ready.planted orderly) planted (leads.of_tidies tidies)
    exact ⟨later, by simp⟩
  | @grown name id body position seed reached tree s s1 known _ _ ih =>
    obtain ⟨_, kept⟩ := ih ready.moved (knows.moved position) (leads.moved position)
    -- the last round is thrown away, so it is the seed that has to answer
    refine ⟨fun verdict means => knows.holds known _ _ ready.2.1 means, ?_⟩
    exact fun _ _ => (kept tree rfl).moved _
  | @growing name id body position seed reached tree s s1 ended s2 known runs further _ ihBody ihNext =>
    have orderly := runs.orderly ready.moved
    obtain ⟨inner, kept⟩ := ihBody ready.moved (knows.moved position) (leads.moved position)
    have answers := @Setting.conforming_of_answers _ _ ⟨id, position⟩ (some tree) _ ready.2.1 inner
    have tidies := (runs.cleans ready.moved rfl).markers.replanted (s := s) ready orderly
    exact ihNext (ready.replanted orderly) ((kept _ rfl).replanted ready orderly answers)
      (leads.of_tidies tidies)
  | stunted _ _ ih =>
    obtain ⟨inner, _⟩ := ih ready.moved (knows.moved _) (leads.moved _)
    exact ⟨inner, by simp⟩

end

/-! ## Evaluations and matches -/

/-- The states that evaluations without a fault lead to from a fresh one, one after the other, each
    from any cursor in the input. -/
inductive Warm (setting : Setting) : State → Prop where
  | fresh : Warm setting (.fresh setting.input.size)
  | evaluated {s s' : State} {e : Expr} {tree} :
      Warm setting s → e.evaluate setting s = (.done tree, s') → Warm setting s'
  | moved {s : State} {position : Int} :
      Warm setting s → 0 ≤ position → position ≤ setting.input.size → Warm setting (s.moved position)

/-- What holds between evaluations: all that is known conforms, and no rule application is open. -/
structure Settled (setting : Setting) (s : State) : Prop where
  proper : s.Proper setting
  knows : s.Knows setting.Conforming
  closed : ∀ site detected, s.known site ≠ some (.marker detected)

section

variable {setting : Setting} {s s' : State} {e : Expr} {verdict : Verdict} {result : Result}

theorem Settled.leads (settled : Settled setting s) (e : Expr) (start : Int) :
    s.Leads setting e start :=
  fun site detected _ _ _ known => absurd known (settled.closed site detected)

theorem Settled.conforms (settled : Settled setting s) (unlimited : setting.options.maxDepth = .none)
    (ran : e.evaluate setting s = (result, s')) :
    (∀ verdict, Means setting e s.position verdict → verdict.Answers result s'.position) ∧
    (∀ tree, result = .done tree → Settled setting s') := by
  have runs := (runs_iff_evaluate settled.proper).mpr ran
  obtain ⟨answers, kept⟩ := runs.conforms unlimited settled.proper settled.knows (settled.leads _ _)
  refine ⟨answers, fun tree same => ?_⟩
  have tidies := (runs.cleans settled.proper same).markers
  refine ⟨(runs.orderly settled.proper).proper, kept tree same, fun site detected known => ?_⟩
  obtain ⟨before, marked⟩ := tidies site detected known
  exact settled.closed site before marked

theorem Warm.next {tree : Option Tree} (warm : Warm setting s)
    (ended : (e.evaluate setting s).1 = .done tree) : Warm setting (e.evaluate setting s).2 :=
  warm.evaluated (Prod.ext ended rfl)

theorem Warm.settled (unlimited : setting.options.maxDepth = .none) (warm : Warm setting s) :
    Settled setting s := by
  induction warm with
  | fresh =>
    refine ⟨.fresh, .fresh _, fun site detected known => ?_⟩
    simp [State.known, State.fresh, MemoTable.known_ofLength] at known
  | evaluated _ ran ih => exact (ih.conforms unlimited ran).2 _ rfl
  | moved _ low high ih => exact ⟨ih.proper.moved low high, ih.knows.moved _, ih.closed⟩

end

/-- What a match ends with where its rule has a verdict: only a match up to the end counts. -/
def Verdict.whole (size : Nat) : Verdict → Result
  | .matched tree stop => .done (if stop = size then some tree else none)
  | .failed => .done none
  | .undefined name => .fault (.unknownRule name)

/-- Where an expression means something at a cursor, evaluation from there ends as it means, whatever
    was evaluated before and whether results are kept or not; and so does a match. -/
theorem evaluation_conforms (matcher : Matcher) (input : Input)
    (unlimited : matcher.options.maxDepth = .none) :
    (∀ s e verdict, Warm (matcher.setting input) s →
      Means (matcher.setting input) e s.position verdict →
      verdict.Answers (e.evaluate (matcher.setting input) s).1
        (e.evaluate (matcher.setting input) s).2.position) ∧
    (∀ start verdict, Means (matcher.setting input) (matcher.entry start) 0 verdict →
      (matcher.run input start).1 = verdict.whole input.size) := by
  have evaluated : ∀ s e verdict, Warm (matcher.setting input) s →
      Means (matcher.setting input) e s.position verdict →
      verdict.Answers (e.evaluate (matcher.setting input) s).1
        (e.evaluate (matcher.setting input) s).2.position :=
    fun s e verdict warm means => ((warm.settled unlimited).conforms unlimited rfl).1 verdict means
  refine ⟨evaluated, ?_⟩
  intro start verdict means
  have answers : verdict.Answers ((matcher.entry start).evaluate (matcher.setting input)
      (.fresh input.size)).1 ((matcher.entry start).evaluate (matcher.setting input)
      (.fresh input.size)).2.position := evaluated _ _ verdict .fresh means
  rw [Matcher.run_apply]
  rcases ran : (matcher.entry start).evaluate (matcher.setting input) (.fresh input.size) with
    ⟨result, s1⟩
  rw [ran] at answers
  cases verdict with
  | matched tree stop =>
    obtain ⟨rfl, rfl⟩ := answers
    by_cases ended : s1.position = input.size
    · simp [Verdict.whole, ended]
    · simp [Verdict.whole, ended, Matcher.setting]
  | failed => cases answers; rfl
  | undefined name => cases answers; rfl

/-- Ones, each before the others: the rule does not apply itself before it has moved. -/
def ones : Matcher where
  grammar := { entries := [(defaultStart, .choice [.sequence [.terminal (.str "1"), .rule defaultStart],
    .sequence []])] }
  options := { maxDepth := .none }

theorem ones_conform :
    Means (ones.setting (.text #['1'])) (.rule defaultStart) 0
      (.matched (.node [.leaf (.str "1"), .node []]) 1) ∧
    (∃ s, Warm (ones.setting (.text #['1'])) s ∧ s.known ⟨0, 0⟩ ≠ none ∧
      ((Expr.rule defaultStart).evaluate (ones.setting (.text #['1'])) s).1 =
        .done (some (.node [.leaf (.str "1"), .node []]))) ∧
    (ones.run (.text #['1'])).1 = .done (some (.node [.leaf (.str "1"), .node []])) := by
  have found : ones.grammar.lookup defaultStart = .ok (0, .choice [.sequence [.terminal (.str "1"),
      .rule defaultStart], .sequence []]) := by rfl
  have made : (Value.str "1").symbols? = some [Value.ofChar '1'] := by rfl
  have here : (Input.text #['1']).Spells [Value.ofChar '1'] 0 (0 + [Value.ofChar '1'].length) :=
    (Input.spells_iff_agreement _ (by decide)).mpr (by cbv)
  have there : ¬ (Input.text #['1']).Spells [Value.ofChar '1'] 1 (1 + [Value.ofChar '1'].length) := by
    rw [Input.spells_iff_agreement _ (by decide)]
    cbv
  have means : Means (ones.setting (.text #['1'])) (.rule defaultStart) 0
      (.matched (.node [.leaf (.str "1"), .node []]) 1) :=
    ⟨.rule found (.chosen (.item (.literal made here) (.item
      (.rule found (.other (.broken (.mismatch made there)) (.chosen .nothing))) .nothing)))⟩
  have ran : ((Expr.rule defaultStart).evaluate (ones.setting (.text #['1'])) (.fresh 1)).1 =
      .done (some (.node [.leaf (.str "1"), .node []])) := by cbv
  have start : Warm (ones.setting (.text #['1'])) (.fresh 1) := .fresh
  have warm := (start.next ran).moved (Int.le_refl 0) (by decide)
  obtain ⟨evaluated, matched⟩ := evaluation_conforms ones (.text #['1']) rfl
  refine ⟨means, ⟨_, warm, ?_, (evaluated _ _ _ warm means).1⟩, matched none _ means⟩
  cbv
  decide

end SeedPeg
