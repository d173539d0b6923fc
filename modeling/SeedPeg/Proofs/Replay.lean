import Mathlib
import SeedPeg.Proofs.Frame

/-!
# Replaying an evaluation

Where results are kept, an evaluation that has ended without a fault can be replayed from the table that
it has left: from the same cursor, and under any options, it ends in the same way and changes nothing
(`replay_changes_nothing`). For every rule that the first evaluation applied has an entry now, which is
the result of its application or a marker that is flagged, and evaluation keeps such entries.
-/

namespace SeedPeg

/-- The setting with other options. -/
def Setting.under (setting : Setting) (options : Options) : Setting := { setting with options }

section

variable {setting : Setting} {s s' : State}

/-- Whether a state is proper does not depend on the options. -/
theorem State.Proper.under (proper : s.Proper setting) (options : Options) :
    s.Proper (setting.under options) :=
  ⟨proper.low, proper.high, proper.rows, proper.results⟩

theorem State.moved_restored (s t : State) (back : Bool) (position : Int) :
    (t.moved s.position).restored back position = t.moved (s.restored back position).position := by
  cases back <;> rfl

/-- What is kept does not depend on the cursor. -/
theorem State.Keeps.of_restored {t : State} {own : Option Site} {back : Bool} {position : Int}
    (keeps : (s.restored back position).Keeps t own) : s.Keeps t own := by
  intro site entry other known
  apply keeps site entry other
  rwa [State.known_restored]

/-- Where results are kept, a fresh application leaves its own. -/
theorem Runs.stored {name : Value} {id : Nat} {body : Expr} {tree : Option Tree}
    (kept : setting.options.memoize = true) (runs : Runs setting (.fresh name id body) s (.done tree) s')
    (ready : (Task.fresh name id body).Ready setting s) :
    ∃ next, s'.known ⟨id, s.position⟩ = some (.resolved tree next) ∧
      s'.position = if tree.isSome then next else s.position := by
  obtain ⟨low, high⟩ := ready.site_inside
  have lasting (s : State) (name : Value) (site : Site) (inside : 0 ≤ site.position) :
      (s.closed setting name site tree).known site = s.known site := by
    rw [State.known_closed tree inside, if_neg (by simp [kept])]
  cases runs with
  | @settled _ _ _ _ detected _ s1 _ runs found _ =>
    have orderly := runs.orderly ready.opened
    refine ⟨if tree.isSome then s1.position else s.position, ?_, ?_⟩
    · rw [lasting _ _ _ low]
      exact orderly.proper.known_put_self low high _
    · rw [State.position_closed, State.position_put]
      split <;> rfl
  | @ripened _ _ _ seed _ _ s1 s2 _ runs _ grows =>
    have later := grows.orderly (ready.planted (runs.orderly ready.opened))
    obtain ⟨_, known⟩ := later.grown _ _ rfl rfl
    refine ⟨s2.position, ?_, State.position_closed _⟩
    rw [lasting _ _ _ low]
    exact known

/-- A run of an expression can be repeated later, as long as what it has left known is kept: it ends with
    the same result, and does nothing but move the cursor. -/
theorem Runs.replays {task : Task} {result : Result} (kept : setting.options.memoize = true)
    (runs : Runs setting task s result s') (ready : task.Ready setting s) {e : Expr}
    (whole : task = .expr e) {tree : Option Tree} (ended : result = .done tree) {t : State}
    (options : Options) (proper : t.Proper (setting.under options)) (keeps : s'.Keeps t none)
    (same : t.position = s.position) :
    Runs (setting.under options) (.expr e) t (.done tree) (t.moved s'.position) := by
  induction runs generalizing e tree t with
  | @terminal literal s result s' matched =>
    cases whole
    cases made : literal.symbols? with
    | none =>
      rw [literal_fault made] at matched
      cases matched
      cases ended
    | some symbols =>
      have again := literal_apply proper made
      rw [literal_apply ready made] at matched
      rw [same] at again
      cases matched
      cases ended
      exact .terminal again
  | bare | plain | unknown => cases ended
  | refused | broken | settled | ripened | withered | grown | growing | stunted => cases whole
  | nothing =>
    cases whole
    cases ended
    rw [← same]
    exact .nothing
  | never =>
    cases whole
    cases ended
    rw [← same]
    exact .never
  | @stop e part s result s1 ended' back first runs after ih =>
    cases whole
    subst ended
    obtain ⟨tree', rfl⟩ := Expr.done_of_after_stop after
    have again := ih ready rfl rfl proper (keeps.of_restored) same
    have idle : ((t.moved s1.position).position = t.position) = (s1.position = s.position) := by
      rw [State.position_moved, same]
    simp only [← idle] at after
    have stopped : Runs (setting.under options) (.expr e) t (.done tree) _ := .stop first again after
    rwa [same, State.moved_restored] at stopped
  | @go e part s result s1 next back trees last s2 first runs after rest ihPart ihNext =>
    cases whole
    obtain ⟨last, rfl⟩ := Outcome.prepend_eq_done ended
    obtain ⟨tree', rfl⟩ := Expr.done_of_after_go after
    have ready1 := Task.Ready.next ready (runs.orderly ready) back next
    have later := (rest.orderly ready1).keeps.trans keeps
    have again := ihPart ready rfl rfl proper later.of_restored same
    have idle : ((t.moved s1.position).position = t.position) = (s1.position = s.position) := by
      rw [State.position_moved, same]
    simp only [← idle] at after
    have proper1 := Task.Ready.next (e := part) proper (again.orderly proper) back next
    rw [same, State.moved_restored] at proper1
    have further := ihNext ready1 rfl rfl proper1 keeps rfl
    rw [State.moved_moved, ← State.moved_restored, ← same] at further
    exact ended ▸ .go first again after further
  | @marked name id body detected s found known =>
    cases whole
    cases ended
    -- the marker is flagged by now, whether it was before or not
    have flagged : (s.flagged setting name ⟨id, s.position⟩ detected).known ⟨id, s.position⟩ =
        some (.marker true) := by
      rw [State.Proper.known_flagged ready]
      cases detected with
      | true => simpa using known
      | false => simp
    obtain ⟨flag, known', raised⟩ := keeps _ _ (by simp) flagged
    rw [raised rfl, ← same] at known'
    have again : Runs (setting.under options) (.expr (.rule name)) t (.done none)
        (t.flagged (setting.under options) name ⟨id, t.position⟩ true) := .marked found known'
    rw [State.position_flagged, ← same]
    exact again
  | @remembered name id body tree' next s found known =>
    cases whole
    cases ended
    have known' := keeps ⟨id, s.position⟩ _ (by simp) (by rw [State.known_restored, known])
    rw [← same] at known'
    have again : Runs (setting.under options) (.expr (.rule name)) t (.done tree')
        (t.restored tree'.isSome next) := .remembered found known'
    rw [State.position_restored, ← same]
    cases tree' <;> exact again
  | @applied name id body s result s1 found unknown runs ih =>
    cases whole
    subst ended
    obtain ⟨next, known, ends⟩ := runs.stored kept (Task.Ready.applied ready found unknown)
    have known' := keeps ⟨id, s.position⟩ _ (by simp) known
    rw [← same] at known'
    have again : Runs (setting.under options) (.expr (.rule name)) t (.done tree)
        (t.restored tree.isSome next) := .remembered found known'
    rw [ends, ← same]
    cases tree <;> exact again

end

/-- In any state that can be visited where results are kept, while rule applications are open and seeds
    are grown too: if evaluation from a cursor ends without a fault, then evaluation from the same cursor
    again ends with the same result and leaves the state that the first has left, its cursor, table and
    trace included, whatever the options are now. -/
theorem replay_changes_nothing (setting : Setting) (kept : setting.options.memoize = true) {s s' : State}
    {e : Expr} {tree : Option Tree} {position : Int} (visited : Visited setting s) (low : 0 ≤ position)
    (high : position ≤ setting.input.size)
    (ran : e.evaluate setting (s.moved position) = (.done tree, s')) (options : Options) :
    e.evaluate (setting.under options) (s'.moved position) = (.done tree, s') := by
  have proper : (s.moved position).Proper setting := visited.proper.moved low high
  have runs := (runs_iff_evaluate proper).mpr ran
  have again : (s'.moved position).Proper (setting.under options) :=
    ((runs.orderly proper).proper.moved low high).under options
  have keeps : s'.Keeps (s'.moved position) none := .of_known fun _ _ => rfl
  have replayed := runs.replays kept proper rfl rfl options again keeps rfl
  exact (runs_iff_evaluate again).mp replayed

/-- While the sum is open it comes back to its marker, which is flagged then and stays so. -/
theorem sums_replay :
    ∃ s s', (sums.setting (.text #['1'])).options.memoize = true ∧
      Visited (sums.setting (.text #['1'])) s ∧ s.known ⟨0, 0⟩ = some (.marker false) ∧
      leftSum.evaluate (sums.setting (.text #['1'])) (s.moved 0) = (.done (some (.leaf (.str "1"))), s') ∧
      s'.known ⟨0, 0⟩ = some (.marker true) ∧ s'.position = 1 ∧
      leftSum.evaluate ((sums.setting (.text #['1'])).under { maxDepth := .int 0, debug := true })
        (s'.moved 0) = (.done (some (.leaf (.str "1"))), s') := by
  let setting := sums.setting (.text #['1'])
  let s := (State.fresh 1).opened setting defaultStart 0
  have found : setting.grammar.lookup defaultStart = .ok (0, leftSum) := by rfl
  have accepted : setting.refusal defaultStart (.fresh 1) = none := by rfl
  have begins : Begins setting (.expr (.rule defaultStart)) (.fresh 1) [⟨0, 0⟩] (.expr leftSum) s :=
    .applied found rfl (.opened accepted .here)
  have visited := Visited.begun .fresh begins
  have ran : leftSum.evaluate setting (s.moved 0) =
      (.done (some (.leaf (.str "1"))), (leftSum.evaluate setting (s.moved 0)).2) := Prod.ext (by cbv) rfl
  have again := replay_changes_nothing setting rfl visited (Int.le_refl 0) (by decide) ran
    { maxDepth := .int 0, debug := true }
  exact ⟨s, _, rfl, visited, by rfl, ran, by cbv, by cbv, again⟩

end SeedPeg
