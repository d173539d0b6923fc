import SeedPeg.Proofs.Begins

/-!
# The course of a run

A run is made of tasks that begin in states, one after the other. A task begins with a part
(`Moment.First`), and when this has ended it can go on with another (`Moment.Follows`); both have parts of
their own. `Course` lists these moments in the order in which they come, the task itself first, and every
run has one (`Runs.course`). So what happens in a run can be counted, and of two things that happen in it
one is the first.
-/

namespace SeedPeg

/-- A task that begins in a state. -/
structure Moment where
  task : Task
  state : State

/-- What a task begins with. -/
inductive Moment.First (setting : Setting) : Moment → Moment → Prop where
  | part {e part s} : e.first? = some part → First setting ⟨.expr e, s⟩ ⟨.expr part, s⟩
  | applied {name id body s} :
      setting.grammar.lookup name = .ok (id, body) → s.known ⟨id, s.position⟩ = none →
      First setting ⟨.expr (.rule name), s⟩ ⟨.fresh name id body, s⟩
  | opened {name id body s} : setting.refusal name s = none →
      First setting ⟨.fresh name id body, s⟩ ⟨.expr body, s.opened setting name id⟩
  | round {name id body position s} :
      First setting ⟨.growth name id body position, s⟩ ⟨.expr body, s.moved position⟩

/-- What a task goes on with when what it has begun with has ended. -/
inductive Moment.Follows (setting : Setting) : Moment → Result → State → Moment → Prop where
  | next {e next s result s1 back trees} :
      e.after result (s1.position = s.position) = .go next back trees →
      Follows setting ⟨.expr e, s⟩ result s1 ⟨.expr next, s1.restored back s.position⟩
  | seeded {name id body seed s s1} :
      s1.known ⟨id, s.position⟩ = some (.marker true) →
      Follows setting ⟨.fresh name id body, s⟩ (.done (some seed)) s1
        ⟨.growth name id body s.position,
          s1.put ⟨id, s.position⟩ (.ofResult s.position (some seed) s1.position)⟩
  | regrown {name id body position seed reached tree s s1} :
      s.known ⟨id, position⟩ = some (.resolved seed reached) → reached < s1.position →
      Follows setting ⟨.growth name id body position, s⟩ (.done (some tree)) s1
        ⟨.growth name id body position, (s1.told setting (.grew name position s1.position)).put
          ⟨id, position⟩ (.ofResult position (some tree) s1.position)⟩

/-- The moments of a run in order. -/
inductive Course (setting : Setting) : Moment → List Moment → Prop where
  | alone {moment} : (∀ part, ¬ Moment.First setting moment part) → Course setting moment [moment]
  | last {moment part result s1 inner} :
      Moment.First setting moment part → Runs setting part.task part.state result s1 →
      (∀ next, ¬ Moment.Follows setting moment result s1 next) →
      Course setting part inner → Course setting moment (moment :: inner)
  | more {moment part result s1 next inner later} :
      Moment.First setting moment part → Runs setting part.task part.state result s1 →
      Moment.Follows setting moment result s1 next →
      Course setting part inner → Course setting next later →
      Course setting moment (moment :: (inner ++ later))

section

variable {setting : Setting} {moment part other next : Moment} {s s' s1 : State} {result : Result}
  {moments inner : List Moment} {name : Value} {id : Nat} {body : Expr}

namespace Moment

theorem First.unique (first : First setting moment part) (second : First setting moment other) :
    part = other := by
  cases first with
  | part first => cases second <;> grind [Expr.first?]
  | _ => cases second <;> grind [Expr.first?]

theorem Follows.unique (first : Follows setting moment result s1 next)
    (second : Follows setting moment result s1 other) : next = other := by
  cases first with
  | next goes => cases second; grind
  | seeded | regrown => cases second; rfl

theorem First.ready (first : First setting moment part) (ready : moment.task.Ready setting moment.state) :
    part.task.Ready setting part.state := by
  cases first with
  | part => exact ready
  | applied found unknown => exact Task.Ready.applied ready found unknown
  | opened => exact ready.opened
  | round => exact ready.moved

theorem Follows.ready (follows : Follows setting moment result s1 next)
    (first : First setting moment part) (ready : moment.task.Ready setting moment.state)
    (runs : Runs setting part.task part.state result s1) : next.task.Ready setting next.state := by
  have orderly := runs.orderly (first.ready ready)
  cases follows with
  | next after =>
    cases first with
    | part => exact Task.Ready.next ready orderly _ _
    | applied => cases after
  | seeded => cases first with | opened => exact ready.planted orderly
  | regrown => cases first with | round => exact ready.replanted orderly

/-- What a task goes on with is as deep as what it has begun with. -/
theorem Follows.depth (follows : Follows setting moment result s1 next)
    (first : First setting moment part) (ready : moment.task.Ready setting moment.state)
    (runs : Runs setting part.task part.state result s1) : next.state.depth = part.state.depth := by
  have orderly := runs.orderly (first.ready ready)
  cases follows with
  | next after =>
    cases first with
    | part =>
      obtain ⟨tree, rfl⟩ := Expr.done_of_after_go after
      rw [State.depth_restored, orderly.depth tree rfl]
    | applied => cases after
  | seeded => exact orderly.depth _ rfl
  | regrown => rw [State.depth_put, State.depth_told, orderly.depth _ rfl]

/-- A fault of what a task begins with is its own. -/
theorem First.fault {cause : Fault} (first : First setting moment part)
    (ready : moment.task.Ready setting moment.state)
    (failed : Runs setting part.task part.state (.fault cause) s') :
    Runs setting moment.task moment.state (.fault cause) s' := by
  cases first with
  | part first => exact failed.fault first
  | applied found unknown => exact .applied found unknown failed
  | opened accepted => exact .broken accepted failed
  | round =>
    obtain ⟨seed, reached, known⟩ := ready.2.2
    exact .stunted known failed

/-- A fault of what a task goes on with is its own. -/
theorem Follows.fault {cause : Fault} (follows : Follows setting moment result s1 next)
    (first : First setting moment part) (runs : Runs setting part.task part.state result s1)
    (failed : Runs setting next.task next.state (.fault cause) s') :
    Runs setting moment.task moment.state (.fault cause) s' := by
  cases follows with
  | next after =>
    cases first with
    | part first => exact .go first runs after failed
    | applied => cases after
  | seeded flagged => cases first with | opened accepted => exact .withered accepted runs flagged failed
  | regrown known further => cases first with | round => exact .growing known runs further failed

end Moment

namespace Course

theorem mem_self (course : Course setting moment moments) : moment ∈ moments := by
  cases course <;> exact List.mem_cons_self

/-- A run has one course. -/
theorem unique {others : List Moment} (course : Course setting moment moments)
    (again : Course setting moment others) : moments = others := by
  induction course generalizing others with
  | alone single =>
    cases again with
    | alone => rfl
    | last first | more first => exact absurd first (single _)
  | last first runs ends _ ih =>
    cases again with
    | alone single => exact absurd first (single _)
    | last first' _ _ course =>
      obtain rfl := first.unique first'
      rw [ih course]
    | more first' runs' follows =>
      obtain rfl := first.unique first'
      obtain ⟨rfl, rfl⟩ := runs.deterministic runs'
      exact absurd follows (ends _)
  | more first runs follows _ _ ihInner ihLater =>
    cases again with
    | alone single => exact absurd first (single _)
    | last first' runs' ends =>
      obtain rfl := first.unique first'
      obtain ⟨rfl, rfl⟩ := runs.deterministic runs'
      exact absurd follows (ends _)
    | more first' runs' follows' course further =>
      obtain rfl := first.unique first'
      obtain ⟨rfl, rfl⟩ := runs.deterministic runs'
      obtain rfl := follows.unique follows'
      rw [ihInner course, ihLater further]

variable {property : Moment → Prop}

/-- What a task begins with has its course in that of the task. -/
theorem first (course : Course setting moment moments) (all : ∀ each ∈ moments, property each)
    (first : Moment.First setting moment part) :
    ∃ inner, Course setting part inner ∧ ∀ each ∈ inner, property each := by
  cases course with
  | alone single => exact absurd first (single part)
  | @last _ other _ _ inner begun _ _ course =>
    rw [first.unique begun]
    exact ⟨inner, course, fun each member => all each (List.mem_cons_of_mem _ member)⟩
  | @more _ other _ _ _ inner later begun _ _ course _ =>
    rw [first.unique begun]
    exact ⟨inner, course, fun each member =>
      all each (List.mem_cons_of_mem _ (List.mem_append_left _ member))⟩

/-- What a task goes on with has its course in that of the task. -/
theorem follows (course : Course setting moment moments) (all : ∀ each ∈ moments, property each)
    (first : Moment.First setting moment part) (runs : Runs setting part.task part.state result s1)
    (follows : Moment.Follows setting moment result s1 next) :
    ∃ later, Course setting next later ∧ ∀ each ∈ later, property each := by
  cases course with
  | alone single => exact absurd first (single part)
  | last begun again ends _ =>
    obtain rfl := first.unique begun
    obtain ⟨rfl, rfl⟩ := runs.deterministic again
    exact absurd follows (ends next)
  | @more _ other _ _ _ inner later begun again further _ course =>
    obtain rfl := first.unique begun
    obtain ⟨rfl, rfl⟩ := runs.deterministic again
    rw [follows.unique further]
    exact ⟨later, course, fun each member =>
      all each (List.mem_cons_of_mem _ (List.mem_append_right _ member))⟩

variable {e : Expr}

theorem still (whole : e.first? = none) (other : ∀ name, e ≠ .rule name) :
    Course setting ⟨.expr e, s⟩ [⟨.expr e, s⟩] := by
  refine .alone fun part first => ?_
  cases first with
  | part first => rw [whole] at first; cases first
  | applied => exact other _ rfl

theorem undeclared {cause : Fault} (missing : setting.grammar.lookup name = .error cause) :
    Course setting ⟨.expr (.rule name), s⟩ [⟨.expr (.rule name), s⟩] := by
  refine .alone fun part first => ?_
  cases first with
  | part first => cases first
  | applied found => rw [missing] at found; cases found

theorem known {entry : Entry} (found : setting.grammar.lookup name = .ok (id, body))
    (held : s.known ⟨id, s.position⟩ = some entry) :
    Course setting ⟨.expr (.rule name), s⟩ [⟨.expr (.rule name), s⟩] := by
  refine .alone fun part first => ?_
  cases first with
  | part first => cases first
  | applied again unknown =>
    rw [found] at again
    cases again
    rw [held] at unknown
    cases unknown

theorem refused {cause : Fault} (refused : setting.refusal name s = some cause) :
    Course setting ⟨.fresh name id body, s⟩ [⟨.fresh name id body, s⟩] := by
  refine .alone fun part first => ?_
  cases first with | opened accepted => rw [refused] at accepted; cases accepted

theorem stop {part : Expr} {ended : Result} {back : Bool} (first : e.first? = some part)
    (runs : Runs setting (.expr part) s result s1)
    (after : e.after result (s1.position = s.position) = .stop ended back)
    (course : Course setting ⟨.expr part, s⟩ inner) :
    Course setting ⟨.expr e, s⟩ (⟨.expr e, s⟩ :: inner) := by
  refine .last (.part first) runs (fun next follows => ?_) course
  cases follows with | next goes => rw [after] at goes; cases goes

theorem applied (found : setting.grammar.lookup name = .ok (id, body))
    (unknown : s.known ⟨id, s.position⟩ = none) (runs : Runs setting (.fresh name id body) s result s1)
    (course : Course setting ⟨.fresh name id body, s⟩ inner) :
    Course setting ⟨.expr (.rule name), s⟩ (⟨.expr (.rule name), s⟩ :: inner) := by
  refine .last (.applied found unknown) runs (fun next follows => ?_) course
  cases follows with | next after => cases after

/-- A fault in the definition ends a rule application, and so does a result that is no seed. -/
theorem ended (accepted : setting.refusal name s = none)
    (runs : Runs setting (.expr body) (s.opened setting name id) result s1)
    (unflagged : ∀ seed, result = .done (some seed) → s1.known ⟨id, s.position⟩ ≠ some (.marker true))
    (course : Course setting ⟨.expr body, s.opened setting name id⟩ inner) :
    Course setting ⟨.fresh name id body, s⟩ (⟨.fresh name id body, s⟩ :: inner) := by
  refine .last (.opened accepted) runs (fun next follows => ?_) course
  cases follows with | seeded flagged => exact unflagged _ rfl flagged

/-- A fault in the definition ends growth, and so does a result that is no longer match. -/
theorem stopped {position reached : Int} {seed : Option Tree}
    (known : s.known ⟨id, position⟩ = some (.resolved seed reached))
    (runs : Runs setting (.expr body) (s.moved position) result s1)
    (short : ∀ tree, result = .done (some tree) → s1.position ≤ reached)
    (course : Course setting ⟨.expr body, s.moved position⟩ inner) :
    Course setting ⟨.growth name id body position, s⟩ (⟨.growth name id body position, s⟩ :: inner) := by
  refine .last .round runs (fun next follows => ?_) course
  cases follows with
  | regrown again further =>
    have least := short _ rfl
    rw [known] at again
    cases again
    omega

end Course

/-- Every run has a course. -/
theorem Runs.course {task : Task} (runs : Runs setting task s result s') :
    ∃ moments, Course setting ⟨task, s⟩ moments := by
  induction runs with
  | terminal | bare | plain | nothing | never => exact ⟨_, .still rfl (by simp)⟩
  | stop first runs after ih =>
    obtain ⟨inner, course⟩ := ih
    exact ⟨_, .stop first runs after course⟩
  | go first runs after _ ihPart ihNext =>
    obtain ⟨inner, course⟩ := ihPart
    obtain ⟨later, further⟩ := ihNext
    exact ⟨_, .more (.part first) runs (.next after) course further⟩
  | unknown missing => exact ⟨_, .undeclared missing⟩
  | marked found known | remembered found known => exact ⟨_, .known found known⟩
  | applied found unknown runs ih =>
    obtain ⟨inner, course⟩ := ih
    exact ⟨_, .applied found unknown runs course⟩
  | refused refused => exact ⟨_, .refused refused⟩
  | broken accepted runs ih =>
    obtain ⟨inner, course⟩ := ih
    exact ⟨_, .ended accepted runs (by simp) course⟩
  | settled accepted runs found unflagged ih =>
    obtain ⟨inner, course⟩ := ih
    refine ⟨_, .ended accepted runs (fun seed same => ?_) course⟩
    rcases unflagged with rfl | rfl
    · cases same
    · simp [found]
  | ripened accepted runs flagged _ ihBody ihGrowth | withered accepted runs flagged _ ihBody ihGrowth =>
    obtain ⟨inner, course⟩ := ihBody
    obtain ⟨later, further⟩ := ihGrowth
    exact ⟨_, .more (.opened accepted) runs (.seeded flagged) course further⟩
  | grown known runs short ih =>
    obtain ⟨inner, course⟩ := ih
    refine ⟨_, .stopped known runs (fun tree same => ?_) course⟩
    cases same
    exact short.resolve_left (by simp)
  | growing known runs further _ ihBody ihNext =>
    obtain ⟨inner, course⟩ := ihBody
    obtain ⟨later, more⟩ := ihNext
    exact ⟨_, .more .round runs (.regrown known further) course more⟩
  | stunted known runs ih =>
    obtain ⟨inner, course⟩ := ih
    exact ⟨_, .stopped known runs (by simp) course⟩

end

end SeedPeg
