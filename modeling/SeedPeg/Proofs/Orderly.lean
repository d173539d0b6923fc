import SeedPeg.Proofs.Run
import SeedPeg.Proofs.Spelling

/-!
# Orderly runs

What every run keeps, faults included: the state stays proper, the cursor does not go back behind
the place where the task began, what is known of a site stays known (a marker can only become
flagged), the depth is as before unless there is a fault, and the bounds are not used up. The growth
of a seed changes the entry of its own site, which in the end is the result. All of this is one
induction over runs (`Runs.orderly`).
-/

namespace SeedPeg

theorem Declarations.getElem?_of_locate {α : Type} {name : Value} {entries : List (Value × α)}
    {place : Nat} {item : α} (found : Declarations.locate name entries = some (place, item)) :
    (entries.map (·.2))[place]? = some item := by
  induction entries generalizing place with
  | nil => simp [locate] at found
  | cons entry rest ih =>
    simp only [locate] at found
    split at found
    · cases found; rfl
    · obtain ⟨⟨before, thing⟩, inner, same⟩ := Option.map_eq_some_iff.mp found
      cases same
      simpa using ih inner

/-- A rule that is looked up is the one with its id. -/
theorem Grammar.definition_of_lookup {grammar : Grammar} {name : Value} {id : Nat} {body : Expr}
    (found : grammar.lookup name = .ok (id, body)) : grammar.definitions[id]? = some body := by
  simp only [lookup] at found
  split at found
  · split at found
    · rename_i located
      cases found
      exact Declarations.getElem?_of_locate located
    · cases found
  · cases found

theorem Grammar.id_lt_of_definition {grammar : Grammar} {id : Nat} {body : Expr}
    (defined : grammar.definitions[id]? = some body) : id < grammar.size := by
  simpa [definitions, Declarations.size] using (List.getElem?_eq_some_iff.mp defined).1

/-! ## What is kept -/

/-- What an entry can have become while it is kept: itself, or its marker flagged. -/
def Entry.Kept : Entry → Option Entry → Prop
  | .marker detected, later => ∃ flag, later = some (.marker flag) ∧ (detected = true → flag = true)
  | .resolved tree next, later => later = some (.resolved tree next)

theorem Entry.Kept.refl (entry : Entry) : entry.Kept (some entry) := by
  cases entry with
  | marker detected => exact ⟨detected, rfl, id⟩
  | resolved tree next => rfl

/-- All entries are kept from one state to another, that of the own site apart. -/
def State.Keeps (s s' : State) (own : Option Site) : Prop :=
  ∀ site entry, own ≠ some site → s.known site = some entry → entry.Kept (s'.known site)

namespace State.Keeps

variable {s s' s'' : State} {own : Option Site}

theorem of_known (same : ∀ site, own ≠ some site → s'.known site = s.known site) : s.Keeps s' own := by
  intro site entry other found
  rw [same site other, found]
  exact Entry.Kept.refl entry

theorem trans (first : s.Keeps s' own) (second : s'.Keeps s'' own) : s.Keeps s'' own := by
  intro site entry other found
  have middle := first site entry other found
  cases entry with
  | marker detected =>
    obtain ⟨flag, here, raised⟩ := middle
    obtain ⟨later, there, raisedAgain⟩ := second site _ other here
    exact ⟨later, there, fun flagged => raisedAgain (raised flagged)⟩
  | resolved tree next => exact second site _ other middle

theorem anything {site : Site} (keeps : s.Keeps s' none) : s.Keeps s' (some site) :=
  fun other entry _ found => keeps other entry (by simp) found

/-- What becomes known of a site of which nothing was known disturbs nothing. -/
theorem of_unknown {site : Site} (keeps : s.Keeps s' (some site)) (unknown : s.known site = none) :
    s.Keeps s' none := by
  intro other entry _ found
  by_cases same : site = other
  · rw [← same, unknown] at found; cases found
  · exact keeps other entry (by simpa using same) found

theorem isSome {site : Site} (keeps : s.Keeps s' none) (held : s.known site ≠ none) :
    s'.known site ≠ none := by
  obtain ⟨entry, found⟩ := Option.ne_none_iff_exists'.mp held
  have kept := keeps site entry (by simp) found
  cases entry with
  | marker detected => obtain ⟨flag, here, _⟩ := kept; simp [here]
  | resolved tree next => simp [show s'.known site = _ from kept]

end State.Keeps

/-! ## Opening and closing a rule application -/

section

variable {setting : Setting} {s : State} {name : Value} {id : Nat}

theorem State.position_opened : (s.opened setting name id).position = s.position := by simp [opened]

theorem State.depth_opened : (s.opened setting name id).depth = s.depth + 1 := by simp [opened]

namespace State.Proper

variable (proper : s.Proper setting)
include proper

theorem raised (event : Event) (depth : Int) :
    ({ s.told setting event with depth } : State).Proper setting :=
  have told := proper.told event
  ⟨told.low, told.high, told.rows, fun found => told.results found⟩

theorem known_opened (site : Site) :
    (s.opened setting name id).known site =
      if site = ⟨id, s.position⟩ then some (.marker false) else s.known site := by
  have raised := proper.raised (.parsing name s.position) (s.depth + 1)
  have shown := @known_put _ _ ⟨id, s.position⟩ proper.low proper.high raised (.marker false) site
  rw [State.opened, shown]
  congr 1
  exact known_told s setting site _

theorem opened : (s.opened setting name id).Proper setting :=
  have raised := proper.raised (.parsing name s.position) (s.depth + 1)
  @put_marker _ _ ⟨id, s.position⟩ proper.low proper.high raised false

theorem known_flagged (detected : Bool) (site : Site) :
    (s.flagged setting name ⟨id, s.position⟩ detected).known site =
      if detected = false ∧ site = ⟨id, s.position⟩ then some (.marker true) else s.known site := by
  cases detected with
  | true => simp [State.flagged]
  | false =>
    have told := proper.told (.leftRecursion name s.position)
    have shown := @known_put _ _ ⟨id, s.position⟩ proper.low proper.high told (.marker true) site
    simpa [State.flagged] using shown

end State.Proper

namespace State

variable {site : Site} (tree : Option Tree)

theorem position_flagged (detected : Bool) :
    (s.flagged setting name site detected).position = s.position := by
  cases detected <;> simp [flagged]

theorem position_closed :
    (s.closed setting name site tree).position =
      if tree.isSome then s.position else site.position := by
  simp only [closed]
  split <;> cases tree <;> simp

theorem depth_closed : (s.closed setting name site tree).depth = s.depth - 1 := by
  simp only [closed]
  split <;> cases tree <;> simp

theorem memo_closed :
    (s.closed setting name site tree).memo =
      if setting.options.memoize then s.memo else (s.drop site).memo := by
  simp only [closed]
  split <;> cases tree <;> simp [drop]

theorem known_closed (low : 0 ≤ site.position) (other : Site) :
    (s.closed setting name site tree).known other =
      if setting.options.memoize = false ∧ other = site then none else s.known other := by
  simp only [known, memo_closed]
  cases setting.options.memoize with
  | true => simp
  | false => simpa [known] using Proper.known_drop low other

theorem Proper.closed (proper : s.Proper setting) (low : 0 ≤ site.position)
    (high : site.position ≤ setting.input.size) : (s.closed setting name site tree).Proper setting := by
  have rows := proper.rows
  refine ⟨?_, ?_, ?_, ?_⟩
  · rw [position_closed]; split <;> [exact proper.low; exact low]
  · rw [position_closed]; split <;> [exact proper.high; exact high]
  · rw [memo_closed]; split <;> simpa using rows
  · intro other result next found
    rw [known_closed tree low] at found
    split at found
    · simp at found
    · exact proper.results found

end State

end

/-! ## The invariant -/

namespace Task

/-- The expression that a task evaluates. -/
def expression : Task → Expr
  | .expr e => e
  | .fresh _ _ body => body
  | .growth _ _ body _ => body

/-- The place where a task begins. -/
def start : Task → State → Int
  | .expr _, s | .fresh .., s => s.position
  | .growth _ _ _ position, _ => position

@[simp] theorem start_expr (e : Expr) (s : State) : (Task.expr e).start s = s.position := rfl

/-- The site of which a task changes what is known. -/
def own? : Task → Option Site
  | .growth _ id _ position => some ⟨id, position⟩
  | _ => none

/-- Whether a task can begin: in a proper state, where a fresh application finds nothing known and
    growth finds a seed. -/
def Ready (setting : Setting) : Task → State → Prop
  | .expr _, s => s.Proper setting
  | .fresh _ id body, s =>
    s.Proper setting ∧ setting.grammar.definitions[id]? = some body ∧ s.known ⟨id, s.position⟩ = none
  | .growth _ id body position, s =>
    s.Proper setting ∧ setting.grammar.definitions[id]? = some body ∧
      ∃ seed reached, s.known ⟨id, position⟩ = some (.resolved (some seed) reached)

theorem Ready.proper {setting : Setting} {task : Task} {s : State} (ready : task.Ready setting s) :
    s.Proper setting := by
  cases task with
  | expr => exact ready
  | fresh => exact ready.1
  | growth => exact ready.1

end Task

/-- What a run keeps. -/
structure Orderly (setting : Setting) (task : Task) (s : State) (result : Result) (s' : State) :
    Prop where
  proper : s'.Proper setting
  forward : task.start s ≤ s'.position
  keeps : s.Keeps s' task.own?
  depth : ∀ tree, result = .done tree → s'.depth = s.depth
  finished : result ≠ .spent
  grown : ∀ site tree, task.own? = some site → result = .done tree →
    tree.isSome ∧ s'.known site = some (.resolved tree s'.position)

theorem State.Proper.restored {setting : Setting} {s s' : State} (proper : s.Proper setting)
    (ended : s'.Proper setting) (back : Bool) : (s'.restored back s.position).Proper setting := by
  cases back with
  | false => exact ended
  | true => exact ended.moved proper.low proper.high

theorem State.known_restored (s : State) (back : Bool) (position : Int) (site : Site) :
    (s.restored back position).known site = s.known site := by
  cases back <;> rfl

theorem State.depth_restored (s : State) (back : Bool) (position : Int) :
    (s.restored back position).depth = s.depth := by
  cases back <;> rfl

theorem State.position_restored (s : State) (back : Bool) (position : Int) :
    (s.restored back position).position = if back then position else s.position := by
  cases back <;> rfl

theorem State.le_position_restored {s s' : State} (forward : s.position ≤ s'.position) (back : Bool) :
    s.position ≤ (s'.restored back s.position).position := by
  cases back with
  | false => exact forward
  | true => exact Int.le_refl _

/-- An expression that ends after a part did finish, if its result is no fault. -/
theorem Outcome.prepend_eq_done {trees : List Tree} {result : Result} {tree : Option Tree}
    (same : result.prepend trees = .done tree) : ∃ tree', result = .done tree' := by
  cases result with
  | done tree' => exact ⟨tree', rfl⟩
  | fault | spent => simp [prepend] at same

/-- After a fault an expression ends with it. -/
theorem Expr.after_fault (e : Expr) (cause : Fault) (idle : Bool) :
    e.after (.fault cause) idle = .stop (.fault cause) false := by
  rcases e with _ | _ | (_ | _) | (_ | _) | _ | _ | _ | _ | _ | _ | _ <;> rfl

theorem Expr.after_spent (e : Expr) (idle : Bool) : e.after .spent idle = .stop .spent false := by
  rcases e with _ | _ | (_ | _) | (_ | _) | _ | _ | _ | _ | _ | _ | _ <;> rfl

section

variable {setting : Setting} {e part : Expr} {s s1 s2 : State} {result ended : Result} {idle back : Bool}

/-- An expression that ends with a part, and not with a fault, ends with a part that did not. -/
theorem Expr.done_of_after_stop {tree : Option Tree} (after : e.after result idle = .stop (.done tree) back) :
    ∃ tree', result = .done tree' := by
  cases result with
  | done tree' => exact ⟨tree', rfl⟩
  | fault cause => rw [after_fault] at after; cases after
  | spent => rw [after_spent] at after; cases after

/-- An expression that goes on after a part goes on after no fault. -/
theorem Expr.done_of_after_go {next : Expr} {trees : List Tree}
    (after : e.after result idle = .go next back trees) : ∃ tree, result = .done tree := by
  cases result with
  | done tree => exact ⟨tree, rfl⟩
  | fault cause => rw [after_fault] at after; cases after
  | spent => rw [after_spent] at after; cases after

/-- An expression that does not finish has ended as its part did. -/
theorem Expr.eq_of_after_stop (after : e.after result idle = .stop ended back)
    (unfinished : ∀ tree, ended ≠ .done tree) : result = ended := by
  rcases result with (_ | _) | cause | _
  · rcases e with _ | _ | (_ | _) | (_ | _) | _ | _ | _ | _ | _ | _ | _ <;>
      simp only [Expr.after, After.stop.injEq, reduceCtorEq] at after <;>
      exact absurd after.1.symm (unfinished _)
  · rcases e with _ | _ | (_ | _) | (_ | _) | _ | _ | _ | _ | _ | _ | _ <;> cases idle <;>
      simp only [Expr.after, After.stop.injEq, reduceCtorEq] at after <;>
      exact absurd after.1.symm (unfinished _)
  · rw [after_fault] at after; cases after; rfl
  · rw [after_spent] at after; cases after; rfl

theorem Outcome.eq_of_prepend {trees : List Tree} (same : result.prepend trees = ended)
    (unfinished : ∀ tree, ended ≠ .done tree) : result = ended := by
  rcases result with (_ | ⟨_ | _ | _⟩) | _ | _
  all_goals first
    | exact same
    | exact absurd same.symm (unfinished _)

theorem Orderly.moved {position : Int} (proper : s.Proper setting) (forward : s.position ≤ position)
    (inside : position ≤ setting.input.size) (finished : result ≠ .spent) :
    Orderly setting (.expr e) s result (s.moved position) where
  proper := proper.moved (Int.le_trans proper.low forward) inside
  forward := forward
  keeps := .of_known fun _ _ => rfl
  depth _ _ := rfl
  finished := finished
  grown _ _ other := by simp [Task.own?] at other

theorem Orderly.here (proper : s.Proper setting) (finished : result ≠ .spent) :
    Orderly setting (.expr e) s result s :=
  .moved proper (Int.le_refl _) proper.high finished

theorem State.Keeps.opened (proper : s.Proper setting) (name : Value) (id : Nat) :
    s.Keeps (s.opened setting name id) (some ⟨id, s.position⟩) :=
  .of_known fun site other => by
    have apart : ¬ site = ⟨id, s.position⟩ := fun same => other (by rw [same])
    rw [proper.known_opened, if_neg apart]

theorem State.Keeps.put (proper : s.Proper setting) {site : Site} (low : 0 ≤ site.position)
    (high : site.position ≤ setting.input.size) (entry : Entry) :
    s.Keeps (s.put site entry) (some site) :=
  .of_known fun other apart => by
    rw [proper.known_put low high, if_neg fun same => apart (by rw [same])]

theorem State.Keeps.closed {site : Site} (low : 0 ≤ site.position) (name : Value)
    (tree : Option Tree) : s.Keeps (s.closed setting name site tree) (some site) :=
  .of_known fun other apart => by
    rw [State.known_closed tree low, if_neg fun same => apart (by rw [same.2])]

/-- A rule that comes back to its marker only raises the flag. -/
theorem Orderly.flagged {name : Value} {id : Nat} {detected : Bool} (proper : s.Proper setting)
    (found : s.known ⟨id, s.position⟩ = some (.marker detected)) :
    Orderly setting (.expr e) s (.done none) (s.flagged setting name ⟨id, s.position⟩ detected) := by
  refine ⟨?_, ?_, ?_, ?_, by simp, by simp [Task.own?]⟩
  · cases detected with
    | true => exact proper
    | false =>
      have told := proper.told (.leftRecursion name s.position)
      exact @State.Proper.put_marker _ _ ⟨id, s.position⟩ proper.low proper.high told true
  · rw [State.position_flagged]
    exact Int.le_refl _
  · intro site entry _ known
    rw [proper.known_flagged]
    split
    · rename_i same
      rw [same.2, found] at known
      cases known
      exact ⟨true, rfl, by simp⟩
    · rw [known]
      exact Entry.Kept.refl entry
  · cases detected <;> simp [State.flagged]

/-- A fresh application may do to its own site what it likes, since nothing was known of it. -/
theorem Orderly.fresh {name : Value} {id : Nat} {body : Expr} {result : Result}
    (unknown : s.known ⟨id, s.position⟩ = none) (proper : s1.Proper setting)
    (forward : s.position ≤ s1.position) (keeps : s.Keeps s1 (some ⟨id, s.position⟩))
    (depth : ∀ tree, result = .done tree → s1.depth = s.depth) (finished : result ≠ .spent) :
    Orderly setting (.fresh name id body) s result s1 :=
  ⟨proper, forward, keeps.of_unknown unknown, depth, finished, by simp [Task.own?]⟩

/-! ### The tasks of a task are ready -/

namespace Task.Ready

variable {name : Value} {id : Nat} {body : Expr} {position : Int}

theorem next (ready : (Task.expr e).Ready setting s)
    (inner : Orderly setting (.expr part) s result s1) (back : Bool) (rest : Expr) :
    (Task.expr rest).Ready setting (s1.restored back s.position) :=
  State.Proper.restored ready inner.proper back

theorem applied (ready : (Task.expr (.rule name)).Ready setting s)
    (found : setting.grammar.lookup name = .ok (id, body)) (unknown : s.known ⟨id, s.position⟩ = none) :
    (Task.fresh name id body).Ready setting s :=
  ⟨ready, Grammar.definition_of_lookup found, unknown⟩

theorem opened (ready : (Task.fresh name id body).Ready setting s) :
    (Task.expr body).Ready setting (s.opened setting name id) :=
  State.Proper.opened ready.1

/-- The seed that a first evaluation leaves can be grown. -/
theorem planted {tree : Tree} (ready : (Task.fresh name id body).Ready setting s)
    (inner : Orderly setting (.expr body) (s.opened setting name id) (.done (some tree)) s1) :
    (Task.growth name id body s.position).Ready setting
      (s1.put ⟨id, s.position⟩ (.ofResult s.position (some tree) s1.position)) := by
  obtain ⟨proper, defined, _⟩ := ready
  have low : 0 ≤ (Site.mk id s.position).position := proper.low
  have high : (Site.mk id s.position).position ≤ setting.input.size := proper.high
  have forward : s.position ≤ s1.position := by
    simpa [Task.start, State.position_opened] using inner.forward
  exact ⟨inner.proper.put_result low high (some tree) forward inner.proper.high, defined, tree,
    s1.position, inner.proper.known_put_self low high _⟩

theorem inside (ready : (Task.growth name id body position).Ready setting s) :
    0 ≤ position ∧ position ≤ setting.input.size := by
  obtain ⟨proper, _, seed, reached, known⟩ := ready
  exact proper.inside known

theorem moved (ready : (Task.growth name id body position).Ready setting s) :
    (Task.expr body).Ready setting (s.moved position) :=
  ready.1.moved ready.inside.1 ready.inside.2

/-- A longer match can be grown again. -/
theorem replanted {tree : Tree} (ready : (Task.growth name id body position).Ready setting s)
    (inner : Orderly setting (.expr body) (s.moved position) (.done (some tree)) s1) :
    (Task.growth name id body position).Ready setting
      ((s1.told setting (.grew name position s1.position)).put ⟨id, position⟩
        (.ofResult position (some tree) s1.position)) := by
  obtain ⟨low, high⟩ := ready.inside
  have told := inner.proper.told (.grew name position s1.position)
  exact ⟨told.put_result low high (some tree) inner.forward inner.proper.high, ready.2.1, tree,
    s1.position, told.known_put_self low high _⟩

end Task.Ready

/-! ### Every run is orderly -/

theorem Runs.orderly {task : Task} {s s' : State} {result : Result}
    (runs : Runs setting task s result s') (ready : task.Ready setting s) :
    Orderly setting task s result s' := by
  induction runs with
  | @terminal literal s result s' matched =>
    cases made : literal.symbols? with
    | none =>
      rw [literal_fault made] at matched
      cases matched
      exact .here ready (by simp)
    | some symbols =>
      have low := State.Proper.low ready
      have inside := @Input.agreement_inside setting.input symbols s.position.toNat
        (by have := State.Proper.high ready; omega)
      rw [literal_apply ready made] at matched
      cases matched
      exact .moved ready (by omega) (by omega) (by simp)
  | bare | plain | nothing | never | unknown => exact .here ready (by simp)
  | @stop e part s result s1 ended back first _ after ih =>
    have inner := ih ready
    refine ⟨Task.Ready.next ready inner back e,
      State.le_position_restored inner.forward back, ?_, ?_, ?_, by simp [Task.own?]⟩
    · intro site entry other found
      rw [State.known_restored]
      exact inner.keeps site entry other found
    · rintro tree rfl
      obtain ⟨tree', rfl⟩ := Expr.done_of_after_stop after
      rw [State.depth_restored]
      exact inner.depth tree' rfl
    · rintro rfl
      exact inner.finished (Expr.eq_of_after_stop after (by simp))
  | @go e part s result s1 next back trees ended s2 first _ after _ ihPart ihNext =>
    have inner := ihPart ready
    have later := ihNext (Task.Ready.next ready inner back next)
    refine ⟨later.proper, Int.le_trans (State.le_position_restored inner.forward back) later.forward,
      ?_, ?_, fun same => later.finished (Outcome.eq_of_prepend same (by simp)), by simp [Task.own?]⟩
    · refine State.Keeps.trans ?_ later.keeps
      intro site entry other found
      rw [State.known_restored]
      exact inner.keeps site entry other found
    · intro tree same
      obtain ⟨last, rfl⟩ := Outcome.prepend_eq_done same
      obtain ⟨tree', rfl⟩ := Expr.done_of_after_go after
      rw [later.depth last rfl, State.depth_restored, inner.depth tree' rfl]
  | marked _ found => exact .flagged ready found
  | @remembered name id body tree next s _ found =>
    obtain ⟨behind, inside, _⟩ := State.Proper.results ready found
    cases tree with
    | none => exact .here ready (by simp)
    | some tree => exact .moved ready behind inside (by simp)
  | applied found unknown _ ih =>
    have inner := ih (Task.Ready.applied ready found unknown)
    exact ⟨inner.proper, inner.forward, inner.keeps, inner.depth, inner.finished,
      by simp [Task.own?]⟩
  | refused =>
    obtain ⟨proper, _, unknown⟩ := ready
    exact .fresh unknown proper (Int.le_refl _) (.of_known fun _ _ => rfl) (by simp) (by simp)
  | @broken name id body cause s s1 _ _ ih =>
    have inner := ih ready.opened
    obtain ⟨proper, _, unknown⟩ := ready
    refine .fresh unknown inner.proper ?_ ?_ (by simp) (by simp)
    · simpa [Task.start, State.position_opened] using inner.forward
    · exact (State.Keeps.opened proper name id).trans inner.keeps.anything
  | @settled name id body tree detected s s1 _ _ found _ ih =>
    have inner := ih ready.opened
    obtain ⟨proper, _, unknown⟩ := ready
    have forward : s.position ≤ s1.position := by
      simpa [Task.start, State.position_opened] using inner.forward
    have low : 0 ≤ (Site.mk id s.position).position := proper.low
    have high : (Site.mk id s.position).position ≤ setting.input.size := proper.high
    have stored := inner.proper.put_result low high tree forward inner.proper.high
    refine .fresh unknown (stored.closed tree low high) ?_ ?_ ?_ (by simp)
    · rw [State.position_closed]
      split <;> simp [forward]
    · exact ((State.Keeps.opened proper name id).trans inner.keeps.anything).trans
        ((State.Keeps.put inner.proper low high _).trans (State.Keeps.closed low name tree))
    · intro tree' _
      simp [State.depth_closed, inner.depth tree rfl, State.depth_opened]
  | @ripened name id body seed tree s s1 s2 _ _ found _ ihBody ihGrowth =>
    have inner := ihBody ready.opened
    have later := ihGrowth (ready.planted inner)
    obtain ⟨proper, _, unknown⟩ := ready
    have low : 0 ≤ (Site.mk id s.position).position := proper.low
    have high : (Site.mk id s.position).position ≤ setting.input.size := proper.high
    refine .fresh unknown (later.proper.closed tree low high) ?_ ?_ ?_ (by simp)
    · rw [State.position_closed]
      split <;> [exact later.forward; exact Int.le_refl _]
    · exact ((State.Keeps.opened proper name id).trans inner.keeps.anything).trans
        (((State.Keeps.put inner.proper low high _).trans later.keeps).trans
          (State.Keeps.closed low name tree))
    · intro tree' _
      simp [State.depth_closed, later.depth tree rfl, inner.depth _ rfl, State.depth_opened]
  | @withered name id body seed cause s s1 s2 _ _ found _ ihBody ihGrowth =>
    have inner := ihBody ready.opened
    have later := ihGrowth (ready.planted inner)
    obtain ⟨proper, _, unknown⟩ := ready
    have low : 0 ≤ (Site.mk id s.position).position := proper.low
    have high : (Site.mk id s.position).position ≤ setting.input.size := proper.high
    refine .fresh unknown later.proper later.forward ?_ (by simp) (by simp)
    exact ((State.Keeps.opened proper name id).trans inner.keeps.anything).trans
      ((State.Keeps.put inner.proper low high _).trans later.keeps)
  | @grown name id body position seed reached tree s s1 known _ _ ih =>
    have inner := ih ready.moved
    obtain ⟨proper, _, seed', reached', planted⟩ := ready
    rw [known] at planted
    cases planted
    obtain ⟨behind, within, _⟩ := proper.results known
    have low := (proper.inside known).1
    have kept : s1.known ⟨id, position⟩ = some (.resolved (some seed') reached) :=
      inner.keeps ⟨id, position⟩ _ (by simp [Task.own?]) known
    refine ⟨inner.proper.moved (Int.le_trans low behind) within, behind, ?_, ?_, by simp, ?_⟩
    · exact inner.keeps.anything
    · intro tree' _
      exact inner.depth tree rfl
    · rintro site tree' own same
      cases own; cases same
      exact ⟨rfl, kept⟩
  | @growing name id body position seed reached tree s s1 ended s2 known _ further _ ihBody ihNext =>
    have inner := ihBody ready.moved
    have later := ihNext (ready.replanted inner)
    have told := inner.proper.told (.grew name position s1.position)
    refine ⟨later.proper, later.forward, ?_, ?_, later.finished, later.grown⟩
    · refine State.Keeps.trans ?_ later.keeps
      refine State.Keeps.trans ?_ (State.Keeps.put told ready.inside.1 ready.inside.2 _)
      exact inner.keeps.anything.trans (.of_known fun _ _ => by simp)
    · intro tree' same
      rw [later.depth tree' same, State.depth_put, State.depth_told, inner.depth _ rfl,
        State.depth_moved]
  | @stunted name id body position seed reached cause s s1 known _ ih =>
    have inner := ih ready.moved
    exact ⟨inner.proper, inner.forward, inner.keeps.anything, by simp, by simp, by simp⟩

end

end SeedPeg
