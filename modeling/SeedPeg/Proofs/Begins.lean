import SeedPeg.Proofs.Evaluator

/-!
# What begins in an evaluation

While an expression is evaluated, its parts are, and the definitions of the rules that it applies,
some of them again and again. `Begins` says which of these evaluations begin in which states, and
which rule applications have been opened since and not closed: the innermost is the first. Every
open application is counted by the depth, and takes up room of its own (`Begins.steady`).
-/

namespace SeedPeg

/-- While a task runs another one begins, inside of applications opened at some sites. -/
inductive Begins (setting : Setting) : Task → State → List Site → Task → State → Prop where
  | here {task s} : Begins setting task s [] task s
  | first {e part s sites inner s'} :
      e.first? = some part → Begins setting (.expr part) s sites inner s' →
      Begins setting (.expr e) s sites inner s'
  | next {e part s result s1 next back trees sites inner s'} :
      e.first? = some part → part.evaluate setting s = (result, s1) →
      e.after result (s1.position = s.position) = .go next back trees →
      Begins setting (.expr next) (s1.restored back s.position) sites inner s' →
      Begins setting (.expr e) s sites inner s'
  | applied {name id body s sites inner s'} :
      setting.grammar.lookup name = .ok (id, body) → s.known ⟨id, s.position⟩ = none →
      Begins setting (.fresh name id body) s sites inner s' →
      Begins setting (.expr (.rule name)) s sites inner s'
  | opened {name id body s sites inner s'} :
      setting.refusal name s = none →
      Begins setting (.expr body) (s.opened setting name id) sites inner s' →
      Begins setting (.fresh name id body) s (sites ++ [⟨id, s.position⟩]) inner s'
  | seeded {name id body seed s s1 sites inner s'} :
      setting.refusal name s = none →
      body.evaluate setting (s.opened setting name id) = (.done (some seed), s1) →
      s1.known ⟨id, s.position⟩ = some (.marker true) →
      Begins setting (.growth name id body s.position)
        (s1.put ⟨id, s.position⟩ (.ofResult s.position (some seed) s1.position)) sites inner s' →
      Begins setting (.fresh name id body) s (sites ++ [⟨id, s.position⟩]) inner s'
  | round {name id body position s sites inner s'} :
      Begins setting (.expr body) (s.moved position) sites inner s' →
      Begins setting (.growth name id body position) s sites inner s'
  | regrown {name id body position seed reached tree s s1 sites inner s'} :
      s.known ⟨id, position⟩ = some (.resolved seed reached) →
      body.evaluate setting (s.moved position) = (.done (some tree), s1) → reached < s1.position →
      Begins setting (.growth name id body position)
        ((s1.told setting (.grew name position s1.position)).put ⟨id, position⟩
          (.ofResult position (some tree) s1.position)) sites inner s' →
      Begins setting (.growth name id body position) s sites inner s'

variable {setting : Setting} {task inner : Task} {s s' : State} {sites : List Site}

/-- What evaluation from a proper state leaves behind. -/
theorem Expr.evaluate_orderly {e : Expr} {result : Result} (proper : s.Proper setting)
    (ran : e.evaluate setting s = (result, s')) : Orderly setting (.expr e) s result s' :=
  ((runs_iff_evaluate proper).mpr ran).orderly proper

/-- What holds when something begins inside of applications opened at some sites. -/
structure Steady (setting : Setting) (s : State) (sites : List Site) (inner : Task) (s' : State) :
    Prop where
  ready : inner.Ready setting s'
  depth : s'.depth = s.depth + sites.length
  room : sites.length + s'.room setting ≤ s.room setting

namespace Steady

variable {s1 : State}

theorem later (steady : Steady setting s1 sites inner s') (depth : s1.depth = s.depth)
    (room : s1.room setting ≤ s.room setting) : Steady setting s sites inner s' :=
  ⟨steady.ready, by rw [steady.depth, depth], Nat.le_trans steady.room room⟩

theorem inside (steady : Steady setting s1 sites inner s') (site : Site)
    (depth : s1.depth = s.depth + 1) (room : s1.room setting < s.room setting) :
    Steady setting s (sites ++ [site]) inner s' := by
  have counted := steady.depth
  have taken := steady.room
  exact ⟨steady.ready, by simp only [List.length_append, List.length_singleton]; omega,
    by simp only [List.length_append, List.length_singleton]; omega⟩

end Steady

theorem Begins.steady (begins : Begins setting task s sites inner s') (ready : task.Ready setting s) :
    Steady setting s sites inner s' := by
  induction begins with
  | here => exact ⟨ready, by simp, by simp⟩
  | first _ _ ih => exact ih ready
  | @next e part s result s1 next back trees sites inner s' _ ran after _ ih =>
    have orderly := Expr.evaluate_orderly ready ran
    obtain ⟨tree, rfl⟩ := Expr.done_of_after_go after
    refine (ih (Task.Ready.next ready orderly back next)).later ?_ ?_
    · rw [State.depth_restored, orderly.depth tree rfl]
    · rw [State.room_restored]
      exact orderly.keeps.room_le
  | applied found unknown _ ih => exact ih (Task.Ready.applied ready found unknown)
  | opened _ _ ih => exact (ih ready.opened).inside _ State.depth_opened ready.room_lt
  | @seeded name id body seed s s1 _ _ _ _ ran _ _ ih =>
    have orderly := Expr.evaluate_orderly ready.opened ran
    have proper := ready.proper
    refine (ih (ready.planted orderly)).inside _ ?_ ?_
    · rw [State.depth_put, orderly.depth _ rfl, State.depth_opened]
    · refine Nat.lt_of_le_of_lt ?_ (Nat.lt_of_le_of_lt orderly.keeps.room_le ready.room_lt)
      exact @State.Proper.room_put_le _ _ orderly.proper ⟨id, s.position⟩ proper.low proper.high _
  | round _ ih => exact (ih ready.moved).later rfl (Nat.le_refl _)
  | @regrown name id body position seed reached tree s s1 _ _ _ _ ran _ _ ih =>
    have orderly := Expr.evaluate_orderly ready.moved ran
    have told := orderly.proper.told (.grew name position s1.position)
    refine (ih (ready.replanted orderly)).later ?_ ?_
    · rw [State.depth_put, State.depth_told, orderly.depth _ rfl, State.depth_moved]
    · refine Nat.le_trans ?_ orderly.keeps.room_le
      rw [← State.room_told s1]
      exact @State.Proper.room_put_le _ _ told ⟨id, position⟩ ready.inside.1 ready.inside.2 _

/-- What begins in something that begins, begins. -/
theorem Begins.trans {deepest : Task} {more : List Site} {s'' : State}
    (begins : Begins setting task s sites inner s') (deeper : Begins setting inner s' more deepest s'') :
    Begins setting task s (more ++ sites) deepest s'' := by
  induction begins with
  | here => simpa using deeper
  | first part _ ih => exact .first part (ih deeper)
  | next part ran after _ ih => exact .next part ran after (ih deeper)
  | applied found unknown _ ih => exact .applied found unknown (ih deeper)
  | opened accepted _ ih => simpa using Begins.opened accepted (ih deeper)
  | seeded accepted ran flagged _ ih => simpa using Begins.seeded accepted ran flagged (ih deeper)
  | round _ ih => exact .round (ih deeper)
  | regrown known ran further _ ih => exact .regrown known ran further (ih deeper)

/-- A fault of what begins is the fault of the whole. -/
theorem Begins.fault {cause : Fault} {s'' : State} (begins : Begins setting task s sites inner s')
    (ready : task.Ready setting s) (failed : Runs setting inner s' (.fault cause) s'') :
    Runs setting task s (.fault cause) s'' := by
  induction begins with
  | here => exact failed
  | first part _ ih => exact (ih ready failed).fault part
  | next part ran after _ ih =>
    have runs := (runs_iff_evaluate ready).mpr ran
    exact .go part runs after (ih (Task.Ready.next ready (runs.orderly ready) _ _) failed)
  | applied found unknown _ ih =>
    exact .applied found unknown (ih (Task.Ready.applied ready found unknown) failed)
  | opened accepted _ ih => exact .broken accepted (ih ready.opened failed)
  | seeded accepted ran flagged _ ih =>
    have runs := (runs_iff_evaluate ready.opened).mpr ran
    exact .withered accepted runs flagged (ih (ready.planted (runs.orderly ready.opened)) failed)
  | round _ ih =>
    obtain ⟨seed, reached, known⟩ := ready.2.2
    exact .stunted known (ih ready.moved failed)
  | regrown known ran further _ ih =>
    have runs := (runs_iff_evaluate ready.moved).mpr ran
    exact .growing known runs further (ih (ready.replanted (runs.orderly ready.moved)) failed)

/-! ## States that are visited -/

/-- The states that can be come to from a fresh one: by evaluations, whether they end with a fault
    or not, by what begins in them, by consuming symbols, and by putting the cursor anywhere in the
    input. -/
inductive Visited (setting : Setting) : State → Prop where
  | fresh : Visited setting (.fresh setting.input.size)
  | evaluated {s : State} (e : Expr) : Visited setting s → Visited setting (e.evaluate setting s).2
  | begun {s : State} {e sites inner s'} :
      Visited setting s → Begins setting (.expr e) s sites inner s' → Visited setting s'
  | consumed {s : State} (symbol : Value) :
      Visited setting s → Visited setting (Action.consume setting symbol s).2
  | moved {s : State} {position : Int} :
      Visited setting s → 0 ≤ position → position ≤ setting.input.size → Visited setting (s.moved position)

/-- Consuming moves the cursor in the input, and changes nothing else. -/
theorem State.Proper.consumed (proper : s.Proper setting) (symbol : Value) :
    ∃ position, (Action.consume setting symbol s).2 = s.moved position ∧ 0 ≤ position ∧
      position ≤ setting.input.size := by
  have low := proper.low
  have high := proper.high
  rw [consume_apply proper]
  cases here : setting.input.get? s.position.toNat with
  | none => exact ⟨s.position, rfl, low, high⟩
  | some found =>
    have below := (setting.input.get?_isSome_iff _).mp (by rw [here]; rfl)
    by_cases same : found.equals symbol = true
    · exact ⟨s.position + 1, by simp [same], by omega, by omega⟩
    · exact ⟨s.position, by simp [same], low, high⟩

theorem Visited.proper (visited : Visited setting s) : s.Proper setting := by
  induction visited with
  | fresh => exact .fresh
  | evaluated e _ ih => exact (Expr.evaluate_orderly ih rfl).proper
  | begun _ begins ih => exact (begins.steady ih).ready.proper
  | consumed symbol _ ih =>
    obtain ⟨position, same, low, high⟩ := ih.consumed symbol
    rw [same]
    exact ih.moved low high
  | moved _ low high ih => exact ih.moved low high

/-- An evaluation is its result and the state that it leaves. -/
theorem Expr.evaluate_eq_of_fst {setting : Setting} {s : State} {e : Expr} {result : Result}
    (ended : (e.evaluate setting s).1 = result) :
    e.evaluate setting s = (result, (e.evaluate setting s).2) :=
  Prod.ext ended rfl

/-! ## A grammar to try -/

/-- A sum of ones, the last of which is added to the others: the rule applies itself at once. -/
def leftSum : Expr :=
  .choice [.sequence [.rule defaultStart, .terminal (.str "+1")], .terminal (.str "1")]

def sums : Matcher where
  grammar := { entries := [(defaultStart, leftSum)] }

end SeedPeg
