import SeedPeg.Proofs.Begins

/-!
# Termination

Matching ends, whatever the grammar: it does so without bounds (`Runs`), and within those of the
evaluator. No more rule applications are open at a time than there are rules and positions, so a
limit of at least that many is never exceeded; and if moreover every rule that is applied is
declared, and every expression is one that can be evaluated, a match ends with a tree or with none.
Faults have one of two causes (`Runs.caused`): an expression that cannot be evaluated, or a refusal
at a depth that there is room for.
-/

namespace SeedPeg

/-- The faults of an expression by itself. -/
inductive Expr.Raises (grammar : Grammar) : Expr → Fault → Prop where
  | terminal {literal} :
      literal.symbols? = none → Raises grammar (.terminal literal) (.notIterable literal.kindName)
  | rule {name cause} : grammar.lookup name = .error cause → Raises grammar (.rule name) cause
  | bare : Raises grammar .bare .abstract
  | plain {value} : Raises grammar (.plain value) (.noExpression value.kindName .evaluate)

theorem Grammar.fault_of_lookup {grammar : Grammar} {name : Value} {cause : Fault}
    (failed : grammar.lookup name = .error cause) :
    cause = .unknownRule name ∨ cause = .listAsKey := by
  simp only [lookup] at failed
  split at failed
  · split at failed
    · cases failed
    · cases failed; exact .inl rfl
  · cases failed; exact .inr rfl

theorem Setting.fault_of_refusal {setting : Setting} {name : Value} {s : State} {cause : Fault}
    (refused : setting.refusal name s = some cause) :
    cause = .tooDeep setting.options.maxDepth name s.position ∨
      cause = .incomparable setting.options.maxDepth.kindName := by
  simp only [refusal, Options.limitReached] at refused
  split at refused
  · cases refused
  · cases refused; exact .inl rfl
  · rename_i failed
    cases refused
    split at failed
    · cases failed
    · split at failed <;> cases failed
      exact .inr rfl

/-- A property of expressions that parts have from the whole, and that all definitions have. -/
structure Grammar.Inherits (grammar : Grammar) (property : Expr → Prop) : Prop where
  part : ∀ {e part}, e.first? = some part → property e → property part
  rest : ∀ {e result idle next back trees},
    e.after result idle = .go next back trees → property e → property next
  definition : ∀ {id : Nat} {body : Expr}, grammar.definitions[id]? = some body → property body

theorem Grammar.Inherits.anything {grammar : Grammar} : grammar.Inherits fun _ => True :=
  ⟨fun _ _ => trivial, fun _ _ => trivial, fun _ => trivial⟩

section

variable {setting : Setting} {task : Task} {s s' : State} {property : Expr → Prop} {cause : Fault}

/-- What a fault can come from: an expression with a property raises it, or a rule application is
    refused at a depth that there was room for. -/
def Setting.Causes (setting : Setting) (property : Expr → Prop) (s : State) (cause : Fault) : Prop :=
  (∃ e, property e ∧ e.Raises setting.grammar cause) ∨
    ∃ name s1, setting.refusal name s1 = some cause ∧ s1.depth < s.depth + s.room setting

theorem Setting.Causes.later {s1 : State} (causes : setting.Causes property s1 cause)
    (within : s1.depth + s1.room setting ≤ s.depth + s.room setting) :
    setting.Causes property s cause := by
  rcases causes with raised | ⟨name, s2, refused, below⟩
  · exact .inl raised
  · exact .inr ⟨name, s2, refused, Int.lt_of_lt_of_le below within⟩

/-- What follows an expression that has ended has as much depth and no more room. -/
theorem Orderly.within {e : Expr} {tree : Option Tree} {s1 : State}
    (orderly : Orderly setting (.expr e) s (.done tree) s1) :
    s1.depth + s1.room setting ≤ s.depth + s.room setting := by
  have depth := orderly.depth tree rfl
  have room : s1.room setting ≤ s.room setting := orderly.keeps.room_le
  omega

theorem Task.Ready.opened_within {name : Value} {id : Nat} {body : Expr}
    (ready : (Task.fresh name id body).Ready setting s) :
    (s.opened setting name id).depth + (s.opened setting name id).room setting ≤
      s.depth + s.room setting := by
  have room := ready.room_lt
  rw [State.depth_opened]
  omega

theorem Runs.caused {result : Result} (runs : Runs setting task s result s')
    (ready : task.Ready setting s) (inherits : setting.grammar.Inherits property)
    (held : property task.expression) (failed : result = .fault cause) :
    setting.Causes property s cause := by
  induction runs with
  | @terminal literal s result s' matched =>
    subst failed
    cases made : literal.symbols? with
    | none =>
      rw [literal_fault made] at matched
      cases matched
      exact .inl ⟨_, held, .terminal made⟩
    | some symbols =>
      rw [literal_apply ready made] at matched
      cases matched
  | bare => cases failed; exact .inl ⟨_, held, .bare⟩
  | plain => cases failed; exact .inl ⟨_, held, .plain⟩
  | nothing | never | marked | remembered | settled | ripened | grown => cases failed
  | unknown missing => cases failed; exact .inl ⟨_, held, .rule missing⟩
  | stop first _ after ih =>
    subst failed
    exact ih ready (inherits.part first held) (Expr.eq_of_after_stop after (by simp))
  | @go e part s result s1 next back trees ended s2 first runs after _ ihPart ihNext =>
    obtain ⟨tree, rfl⟩ := Expr.done_of_after_go after
    have orderly := runs.orderly ready
    refine (ihNext (Task.Ready.next ready orderly back next) (inherits.rest after held)
      (Outcome.eq_of_prepend failed (by simp))).later ?_
    rw [State.depth_restored, State.room_restored]
    exact orderly.within
  | applied found unknown _ ih =>
    have ready := Task.Ready.applied ready found unknown
    exact ih ready (inherits.definition ready.2.1) failed
  | @refused name id body cause s refused =>
    -- its site is free still, so there is room for one more
    cases failed
    have room := ready.room_lt
    exact .inr ⟨name, s, refused, by omega⟩
  | broken _ _ ih => exact (ih ready.opened held failed).later ready.opened_within
  | @withered name id body seed cause s s1 s2 _ runs _ _ _ ih =>
    have orderly := runs.orderly ready.opened
    refine ((ih (ready.planted orderly) held failed).later ?_).later ready.opened_within
    have room := @State.Proper.room_put_le _ _ orderly.proper ⟨id, s.position⟩ ready.proper.low
      ready.proper.high (.ofResult s.position (some seed) s1.position)
    have within := orderly.within
    rw [State.depth_put]
    omega
  | @growing name id body position seed reached tree s s1 ended s2 _ runs _ _ _ ih =>
    have orderly := runs.orderly ready.moved
    have told := orderly.proper.told (.grew name position s1.position)
    have room := @State.Proper.room_put_le _ _ told ⟨id, position⟩ ready.inside.1 ready.inside.2
      (.ofResult position (some tree) s1.position)
    have within := orderly.within
    refine (ih (ready.replanted orderly) held failed).later (Int.le_trans ?_ within)
    rw [State.depth_put, State.depth_told]
    rw [State.room_told] at room
    omega
  | stunted _ _ ih => exact (ih ready.moved held failed).later (Int.le_refl _)

end

/-! ## Grammars that raise nothing -/

/-- Whether every rule that an expression applies is declared, every literal is made of symbols, and
    no part is anything but an expression of some kind. -/
inductive Expr.Closed (grammar : Grammar) : Expr → Prop where
  | terminal {literal symbols} : literal.symbols? = some symbols → Closed grammar (.terminal literal)
  | rule {name found} : grammar.lookup name = .ok found → Closed grammar (.rule name)
  | sequence {items} : (∀ item ∈ items, Closed grammar item) → Closed grammar (.sequence items)
  | choice {alternatives} : (∀ alternative ∈ alternatives, Closed grammar alternative) →
      Closed grammar (.choice alternatives)
  | star {element} : Closed grammar element → Closed grammar (.star element)
  | plus {element} : Closed grammar element → Closed grammar (.plus element)
  | optional {element} : Closed grammar element → Closed grammar (.optional element)
  | ahead {element} : Closed grammar element → Closed grammar (.ahead element)
  | notAhead {element} : Closed grammar element → Closed grammar (.notAhead element)

/-- Whether all definitions of a grammar are closed. -/
def Grammar.Closed (grammar : Grammar) : Prop :=
  ∀ body ∈ grammar.definitions, body.Closed grammar

section

variable {grammar : Grammar} {e inner next : Expr}

theorem Expr.Closed.part (closed : e.Closed grammar) (first : e.first? = some inner) :
    inner.Closed grammar := by
  cases closed with
  | terminal | rule => cases first
  | @sequence items all =>
    cases items with
    | nil => cases first
    | cons item rest => cases first; exact all inner (by simp)
  | @choice alternatives all =>
    cases alternatives with
    | nil => cases first
    | cons alternative rest => cases first; exact all inner (by simp)
  | star closed | plus closed | optional closed | ahead closed | notAhead closed =>
    cases first; exact closed

theorem Expr.Closed.rest {result : Result} {idle back : Bool} {trees : List Tree}
    (closed : e.Closed grammar) (after : e.after result idle = .go next back trees) :
    next.Closed grammar := by
  obtain ⟨tree, rfl⟩ := Expr.done_of_after_go after
  cases closed with
  | terminal | rule => cases tree <;> cases after
  | @sequence items all =>
    cases items with
    | nil => cases tree <;> cases after
    | cons item rest =>
      cases tree <;> cases after
      exact .sequence fun item member => all item (by simp [member])
  | @choice alternatives all =>
    cases alternatives with
    | nil => cases tree <;> cases after
    | cons alternative rest =>
      cases tree <;> cases after
      exact .choice fun alternative member => all alternative (by simp [member])
  | star closed => cases tree <;> cases idle <;> cases after; exact .star closed
  | plus closed => cases tree <;> cases after; exact .star closed
  | optional closed | ahead closed | notAhead closed => cases tree <;> cases after

theorem Grammar.Closed.inherits (closed : grammar.Closed) :
    grammar.Inherits fun e => e.Closed grammar where
  part first held := held.part first
  rest after held := held.rest after
  definition found := closed _ (List.mem_of_getElem? found)

/-- What is closed raises nothing by itself. -/
theorem Expr.Closed.not_raises {cause : Fault} (closed : e.Closed grammar) :
    ¬ e.Raises grammar cause := by
  intro raises
  cases raises with
  | terminal unmade => cases closed with | terminal made => rw [made] at unmade; cases unmade
  | rule missing => cases closed with | rule found => rw [found] at missing; cases missing
  | bare | plain => cases closed

end

/-! ## Limits -/

/-- Whether so many rule applications may be open at a time. -/
def Options.Allows (options : Options) (count : Int) : Prop :=
  options.maxDepth = .none ∨ ∃ limit, options.maxDepth = .int limit ∧ count ≤ limit

theorem Options.Allows.limitReached {options : Options} {count depth : Int}
    (allows : options.Allows count) (below : depth < count) :
    options.limitReached depth = .ok false := by
  rcases allows with absent | ⟨limit, present, enough⟩
  · simp [Options.limitReached, absent]
  · simp only [Options.limitReached, present, Value.number?, Number.atMost_ofInt]
    simp only [Except.ok.injEq, decide_eq_false_iff_not]
    omega

/-! ## Matches -/

section

variable (matcher : Matcher) (input : Input)

/-- The number of rules and positions, of which each has one application open at most. -/
def Matcher.sites : Nat := matcher.grammar.size * (input.size + 1)

variable {matcher input} {start : Option Value}

/-- What a fault of a match comes from. -/
theorem Matcher.caused {property : Expr → Prop} {cause : Fault}
    (inherits : matcher.grammar.Inherits property) (held : property (matcher.entry start))
    (failed : (matcher.run input start).1 = .fault cause) :
    (∃ e, property e ∧ e.Raises matcher.grammar cause) ∨
      ∃ name s, (matcher.setting input).refusal name s = some cause ∧ s.depth < matcher.sites input := by
  have proper : (State.fresh input.size).Proper (matcher.setting input) := .fresh
  have runs := (matcher.entry start).evaluate_runs proper
  rw [run_eq_of_unfinished (by simp)] at failed
  rcases runs.caused proper inherits held failed with raised | ⟨name, s, refused, below⟩
  · exact .inl raised
  · have room : (State.fresh input.size).room (matcher.setting input) ≤ matcher.sites input :=
      (State.fresh input.size).room_le
    have depth : (State.fresh input.size).depth = 0 := rfl
    exact .inr ⟨name, s, refused, by omega⟩

/-- No open application misses its marker, and no growing one its seed. -/
theorem Matcher.not_lost {cause : Fault} (lost : cause = .markerLost ∨ cause = .seedLost) :
    (matcher.run input start).1 ≠ .fault cause := by
  intro failed
  rcases Matcher.caused .anything trivial failed with ⟨_, _, raises⟩ | ⟨_, _, refused, _⟩
  · cases raises with
    | rule missing => rcases lost with rfl | rfl <;> simpa using Grammar.fault_of_lookup missing
    | terminal | bare | plain => rcases lost with same | same <;> cases same
  · rcases lost with rfl | rfl <;> simpa using Setting.fault_of_refusal refused

/-- A match ends, within the bounds of the evaluator as without them. In the course of it no more
    rule applications are open than there are rules and positions, and these are what the depth
    counts; no open application misses its entry. Under a limit of as many applications, or none,
    there are never too many, and if the grammar is closed and the rule declared there is no fault
    at all. -/
theorem match_terminates (matcher : Matcher) (input : Input) (start : Option Value) :
    (∃ result s, Runs (matcher.setting input) (.expr (matcher.entry start)) (.fresh input.size)
      result s) ∧
    (matcher.run input start).1 ≠ .spent ∧
    (∀ sites task s, Begins (matcher.setting input) (.expr (matcher.entry start))
      (.fresh input.size) sites task s →
      sites.length ≤ matcher.sites input ∧ s.depth = sites.length) ∧
    (matcher.run input start).1 ≠ .fault .markerLost ∧
    (matcher.run input start).1 ≠ .fault .seedLost ∧
    (matcher.options.Allows (matcher.sites input) →
      (∀ limit name position, (matcher.run input start).1 ≠ .fault (.tooDeep limit name position)) ∧
      (matcher.grammar.Closed → (∃ found, matcher.grammar.lookup (start.getD matcher.start) = .ok found) →
        ∃ tree, (matcher.run input start).1 = .done tree)) := by
  have proper : (State.fresh input.size).Proper (matcher.setting input) := .fresh
  have runs := (matcher.entry start).evaluate_runs proper
  have finished : (matcher.run input start).1 ≠ .spent := by
    rw [ne_eq, Matcher.run_eq_of_unfinished (by simp)]
    exact (runs.orderly proper).finished
  refine ⟨⟨_, _, runs⟩, finished, ?_, Matcher.not_lost (.inl rfl), Matcher.not_lost (.inr rfl), ?_⟩
  · intro sites task s begins
    have steady := begins.steady proper
    have depth : s.depth = 0 + sites.length := steady.depth
    have taken := steady.room
    have room : (State.fresh input.size).room (matcher.setting input) ≤ matcher.sites input :=
      (State.fresh input.size).room_le
    exact ⟨by omega, by omega⟩
  · intro allows
    have accepted : ∀ name s cause, (matcher.setting input).refusal name s = some cause →
        ¬ s.depth < matcher.sites input := by
      intro name s cause refused below
      simp only [Setting.refusal, Matcher.setting, allows.limitReached below] at refused
      cases refused
    refine ⟨?_, ?_⟩
    · intro limit name position failed
      rcases Matcher.caused .anything trivial failed with ⟨_, _, raises⟩ | ⟨_, _, refused, below⟩
      · cases raises with | rule missing => simpa using Grammar.fault_of_lookup missing
      · exact accepted _ _ _ refused below
    · rintro closed ⟨found, declared⟩
      rcases ended : (matcher.run input start).1 with tree | cause | _
      · exact ⟨tree, rfl⟩
      · rcases Matcher.caused closed.inherits (.rule declared) ended with
          ⟨_, held, raises⟩ | ⟨_, _, refused, below⟩
        · exact absurd raises held.not_raises
        · exact absurd below (accepted _ _ _ refused)
      · exact absurd ended finished

end

theorem sums_terminate :
    sums.options.Allows (sums.sites (.text #['1', '+', '1'])) ∧ sums.grammar.Closed ∧
      (∃ found, sums.grammar.lookup sums.start = .ok found) ∧
      ∃ tree, (sums.run (.text #['1', '+', '1'])).1 = .done tree := by
  have allows : sums.options.Allows (sums.sites (.text #['1', '+', '1'])) := .inr ⟨200, rfl, by decide⟩
  have declared : sums.grammar.lookup defaultStart = .ok (0, leftSum) := by rfl
  have closed : sums.grammar.Closed := by
    intro body member
    obtain rfl := List.mem_singleton.mp member
    refine .choice (List.forall_mem_cons.mpr ⟨.sequence ?_, List.forall_mem_singleton.mpr (.terminal rfl)⟩)
    exact List.forall_mem_cons.mpr ⟨.rule declared, List.forall_mem_singleton.mpr (.terminal rfl)⟩
  exact ⟨allows, closed, ⟨_, declared⟩,
    ((match_terminates sums _ none).2.2.2.2.2 allows).2 closed ⟨_, declared⟩⟩

end SeedPeg
