import SeedPeg.Proofs.Begins

/-!
# Frame

What evaluation leaves alone in the memo table. What is stored elsewhere stays: a result as it is, a
marker but for its flag (`Runs.orderly`). The rows before the place where a task begins are not
touched, and nothing is stored but under the id of a rule (`Runs.lasting`). A task that ends without a
fault leaves no marker that was not there, and no entry at all if results are not kept (`Runs.cleans`). A
result is overwritten by the growth of its own seed only, inside of the application that has found it
(`Begins.owner`).
-/

namespace SeedPeg

section

variable {setting : Setting} {s s' s1 s2 : State} {task : Task} {name : Value} {id : Nat} {body : Expr}

theorem State.memo_restored (s : State) (back : Bool) (position : Int) :
    (s.restored back position).memo = s.memo := by
  cases back <;> rfl

theorem State.memo_opened :
    (s.opened setting name id).memo = (s.put ⟨id, s.position⟩ (.marker false)).memo := by
  simp [opened, put]

theorem Task.Ready.site_inside (ready : (Task.fresh name id body).Ready setting s) :
    0 ≤ (Site.mk id s.position).position ∧ (Site.mk id s.position).position ≤ setting.input.size :=
  ⟨ready.proper.low, ready.proper.high⟩

/-- A round of growth keeps the seed that it has begun with. -/
theorem Orderly.keeps_seed {position reached : Int} {seed tree : Option Tree} {event : Event}
    (orderly : Orderly setting (.expr body) (s.moved position) (.done tree) s1)
    (known : s.known ⟨id, position⟩ = some (.resolved seed reached)) :
    (s1.told setting event).known ⟨id, position⟩ = some (.resolved seed reached) := by
  rw [State.known_told]
  exact orderly.keeps ⟨id, position⟩ _ (by simp [Task.own?]) known

/-! ## Properties of tables that last -/

/-- A property of tables that lasts while entries are stored and removed for rules of the grammar, at
    positions from a place on. -/
structure Setting.Lasting (setting : Setting) (floor : Int) (property : MemoTable → Prop) : Prop where
  put : ∀ {table : MemoTable} {site : Site} (entry : Entry),
    table.rows.size = setting.input.size + 1 → site.id < setting.grammar.size → floor ≤ site.position →
    0 ≤ site.position → site.position ≤ setting.input.size → property table →
    property (table.put site.position.toNat site.id entry)
  remove : ∀ {table : MemoTable} {site : Site}, floor ≤ site.position → 0 ≤ site.position →
    property table → property (table.remove site.position.toNat site.id)

namespace Setting.Lasting

variable {floor : Int} {property : MemoTable → Prop} (lasting : setting.Lasting floor property)
include lasting

theorem stored (proper : s.Proper setting) {site : Site}
    (defined : setting.grammar.definitions[site.id]? = some body) (above : floor ≤ site.position)
    (low : 0 ≤ site.position) (high : site.position ≤ setting.input.size) (entry : Entry)
    (held : property s.memo) : property (s.put site entry).memo :=
  lasting.put entry proper.rows (Grammar.id_lt_of_definition defined) above low high held

theorem opened (ready : (Task.fresh name id body).Ready setting s) (above : floor ≤ s.position)
    (held : property s.memo) : property (s.opened setting name id).memo := by
  obtain ⟨low, high⟩ := ready.site_inside
  rw [State.memo_opened]
  exact @stored _ _ _ _ _ lasting ready.1 ⟨id, s.position⟩ ready.2.1 above low high _ held

theorem flagged (proper : s.Proper setting) (found : setting.grammar.lookup name = .ok (id, body))
    (above : floor ≤ s.position) (detected : Bool) (held : property s.memo) :
    property (s.flagged setting name ⟨id, s.position⟩ detected).memo := by
  cases detected with
  | true => exact held
  | false =>
    have told := proper.told (.leftRecursion name s.position)
    exact @stored _ _ _ _ _ lasting told ⟨id, s.position⟩ (Grammar.definition_of_lookup found) above
      proper.low proper.high _ (by rwa [State.memo_told])

theorem closed {site : Site} (above : floor ≤ site.position) (low : 0 ≤ site.position) (name : Value)
    (tree : Option Tree) (held : property s.memo) : property (s.closed setting name site tree).memo := by
  rw [State.memo_closed]
  split
  · exact held
  · exact lasting.remove above low held

end Setting.Lasting

theorem Runs.lasting {floor : Int} {property : MemoTable → Prop} {result : Result}
    (lasting : setting.Lasting floor property) (runs : Runs setting task s result s')
    (ready : task.Ready setting s) (above : floor ≤ task.start s) (held : property s.memo) :
    property s'.memo := by
  induction runs with
  | terminal matched =>
    obtain ⟨position, rfl⟩ := literal_moves ready matched
    exact held
  | bare | plain | nothing | never | unknown | refused => exact held
  | stop _ _ _ ih =>
    rw [State.memo_restored]
    exact ih ready above held
  | @go e part s result s1 next back trees ended s2 _ runs _ _ ihPart ihNext =>
    have orderly := runs.orderly ready
    refine ihNext (Task.Ready.next ready orderly back next) ?_ ?_
    · exact Int.le_trans above (State.le_position_restored orderly.forward back)
    · rw [State.memo_restored]
      exact ihPart ready above held
  | marked found => exact lasting.flagged ready found above _ held
  | remembered => rw [State.memo_restored]; exact held
  | applied found unknown _ ih => exact ih (Task.Ready.applied ready found unknown) above held
  | @broken name id body cause s s1 _ _ ih =>
    exact ih ready.opened (by rwa [Task.start_expr, State.position_opened])
      (lasting.opened ready above held)
  | @settled name id body tree detected s s1 _ runs _ _ ih =>
    have orderly := runs.orderly ready.opened
    obtain ⟨low, high⟩ := ready.site_inside
    have inner := ih ready.opened (by rwa [Task.start_expr, State.position_opened])
      (lasting.opened ready above held)
    exact lasting.closed above low name tree
      (lasting.stored orderly.proper ready.2.1 above low high _ inner)
  | @ripened name id body seed tree s s1 s2 _ runs _ _ ihBody ihGrowth =>
    have orderly := runs.orderly ready.opened
    obtain ⟨low, high⟩ := ready.site_inside
    have inner := ihBody ready.opened (by rwa [Task.start_expr, State.position_opened])
      (lasting.opened ready above held)
    have stored := @Setting.Lasting.stored _ _ _ _ _ lasting orderly.proper ⟨id, s.position⟩ ready.2.1
      above low high (.ofResult s.position (some seed) s1.position) inner
    exact lasting.closed above low name tree (ihGrowth (ready.planted orderly) above stored)
  | @withered name id body seed cause s s1 s2 _ runs _ _ ihBody ihGrowth =>
    have orderly := runs.orderly ready.opened
    obtain ⟨low, high⟩ := ready.site_inside
    have inner := ihBody ready.opened (by rwa [Task.start_expr, State.position_opened])
      (lasting.opened ready above held)
    have stored := @Setting.Lasting.stored _ _ _ _ _ lasting orderly.proper ⟨id, s.position⟩ ready.2.1
      above low high (.ofResult s.position (some seed) s1.position) inner
    exact ihGrowth (ready.planted orderly) above stored
  | grown _ _ _ ih => exact ih ready.moved above held
  | @growing name id body position seed reached tree s s1 ended s2 _ runs _ _ ihBody ihNext =>
    have orderly := runs.orderly ready.moved
    have told := orderly.proper.told (.grew name position s1.position)
    have inner := ihBody ready.moved above held
    have stored := @Setting.Lasting.stored _ _ _ _ _ lasting told ⟨id, position⟩ ready.2.1 above
      ready.inside.1 ready.inside.2 (.ofResult position (some tree) s1.position)
      (by rwa [State.memo_told])
    exact ihNext (ready.replanted orderly) above stored
  | stunted _ _ ih => exact ih ready.moved above held

/-- Every key in a table is the id of a rule. -/
def MemoTable.Filed (grammar : Grammar) (table : MemoTable) : Prop :=
  ∀ place key entry, (table.row place).get? key = some entry → ∃ id : Nat, id < grammar.size ∧ key = id

theorem Setting.lasting_filed (setting : Setting) :
    setting.Lasting 0 (MemoTable.Filed setting.grammar) where
  put {table site} entry rows declared _ low high held := by
    intro place key found known
    rw [table.row_put (by omega)] at known
    split at known
    · rw [Row.get?_insert] at known
      split at known
      · rename_i same
        exact ⟨site.id, declared, same⟩
      · exact held _ _ _ known
    · exact held _ _ _ known
  remove {table site} _ low held := by
    intro place key found known
    rw [table.row_remove] at known
    split at known
    · rw [Row.get?_erase] at known
      split at known
      · cases known
      · exact held _ _ _ known
    · exact held _ _ _ known

/-- Rows before the place from which entries are stored stay as they are, absent ones absent. -/
theorem Setting.lasting_rows (setting : Setting) (floor : Int) (rows : Array (Option (Row Entry))) :
    setting.Lasting floor fun table => ∀ place : Nat, place < floor → table.rows[place]? = rows[place]? where
  put {table site} entry _ _ above low _ held := by
    intro place before
    rw [MemoTable.put, Array.getElem?_modify, if_neg (by omega)]
    exact held place before
  remove {table site} above low held := by
    intro place before
    rw [MemoTable.remove, Array.getElem?_modify, if_neg (by omega)]
    exact held place before

/-! ## What is left behind -/

/-- There are no more markers than before. -/
def State.Tidies (s s' : State) : Prop :=
  ∀ site detected, s'.known site = some (.marker detected) →
    ∃ before, s.known site = some (.marker before)

/-- What a task leaves behind that ends without a fault: no markers, and where results are not kept
    nothing at all. -/
structure State.Cleans (setting : Setting) (s s' : State) : Prop where
  markers : s.Tidies s'
  entries : setting.options.memoize = false → ∀ site, s'.known site ≠ none → s.known site ≠ none

namespace State.Cleans

theorem of_known (same : ∀ site, s'.known site = s.known site) : s.Cleans setting s' :=
  ⟨fun site detected known => ⟨detected, by rwa [same] at known⟩, fun _ site held => by rwa [same] at held⟩

theorem trans (first : s.Cleans setting s1) (second : s1.Cleans setting s') : s.Cleans setting s' where
  markers site detected known := by
    obtain ⟨middle, marked⟩ := second.markers site detected known
    exact first.markers site middle marked
  entries forgets site held := first.entries forgets site (second.entries forgets site held)

theorem restored (cleans : s.Cleans setting s') (back : Bool) (position : Int) :
    s.Cleans setting (s'.restored back position) :=
  cleans.trans (.of_known fun site => s'.known_restored back position site)

/-- A marker that is flagged was one before. -/
theorem flagged (proper : s.Proper setting) {detected : Bool}
    (found : s.known ⟨id, s.position⟩ = some (.marker detected)) :
    s.Cleans setting (s.flagged setting name ⟨id, s.position⟩ detected) := by
  refine ⟨fun site flag known => ?_, fun _ site held => ?_⟩
  · rw [proper.known_flagged] at known
    split at known
    · rename_i same
      exact ⟨detected, by rw [same.2, found]⟩
    · exact ⟨flag, known⟩
  · rw [proper.known_flagged] at held
    split at held
    · rename_i same
      simp [same.2, found]
    · exact held

/-- A result where something was known adds nothing. -/
theorem put_result (proper : s.Proper setting) {site : Site} (low : 0 ≤ site.position)
    (high : site.position ≤ setting.input.size) (known : s.known site ≠ none) (tree : Option Tree)
    (next : Int) : s.Cleans setting (s.put site (.ofResult site.position tree next)) := by
  refine ⟨fun other detected marked => ?_, fun _ other held => ?_⟩
  · rw [proper.known_put low high] at marked
    split at marked
    · cases marked
    · exact ⟨detected, marked⟩
  · rw [proper.known_put low high] at held
    split at held
    · rename_i same
      rwa [same]
    · exact held

/-- The marker of a rule application has become a result when it is closed, which is removed if results
    are not kept. -/
theorem closed {tree result : Option Tree} (ready : (Task.fresh name id body).Ready setting s)
    (proper : s1.Proper setting) (inner : (s.opened setting name id).Cleans setting s1)
    (later : (s1.put ⟨id, s.position⟩ (.ofResult s.position result s1.position)).Cleans setting s2) :
    s.Cleans setting (s2.closed setting name ⟨id, s.position⟩ tree) := by
  obtain ⟨low, high⟩ := ready.site_inside
  refine ⟨fun site detected marked => ?_, fun forgets site held => ?_⟩
  · rw [State.known_closed tree low] at marked
    split at marked
    · cases marked
    · obtain ⟨middle, marked⟩ := later.markers site detected marked
      rw [proper.known_put low high] at marked
      split at marked
      · cases marked
      · rename_i other
        obtain ⟨before, marked⟩ := inner.markers site middle marked
        rw [ready.proper.known_opened, if_neg other] at marked
        exact ⟨before, marked⟩
  · rw [State.known_closed tree low] at held
    split at held
    · exact absurd rfl held
    · rename_i kept
      have other : ¬ site = ⟨id, s.position⟩ := fun same => kept ⟨forgets, same⟩
      have held := later.entries forgets site held
      rw [proper.known_put low high, if_neg other] at held
      have held := inner.entries forgets site held
      rwa [ready.proper.known_opened, if_neg other] at held

/-- A longer seed takes the place of the one that was there. -/
theorem regrown {position reached : Int} {seed : Option Tree} {tree : Tree}
    (ready : (Task.growth name id body position).Ready setting s)
    (known : s.known ⟨id, position⟩ = some (.resolved seed reached))
    (orderly : Orderly setting (.expr body) (s.moved position) (.done (some tree)) s1) :
    s1.Cleans setting ((s1.told setting (.grew name position s1.position)).put ⟨id, position⟩
      (.ofResult position (some tree) s1.position)) := by
  have told := orderly.proper.told (.grew name position s1.position)
  have ran : s1.Cleans setting (s1.told setting (.grew name position s1.position)) :=
    .of_known fun _ => by simp
  exact ran.trans (@put_result _ _ told ⟨id, position⟩ ready.inside.1 ready.inside.2
    (by simp [orderly.keeps_seed known]) (some tree) s1.position)

end State.Cleans

/-- A task that ends without a fault leaves nothing behind but results, and those only if they are
    kept. -/
theorem Runs.cleans {result : Result} (runs : Runs setting task s result s') (ready : task.Ready setting s)
    {tree : Option Tree} (ended : result = .done tree) : s.Cleans setting s' := by
  induction runs generalizing tree with
  | terminal matched =>
    obtain ⟨position, rfl⟩ := literal_moves ready matched
    exact .of_known fun _ => rfl
  | bare | plain | unknown | refused | broken | withered | stunted => cases ended
  | nothing | never => exact .of_known fun _ => rfl
  | stop _ _ after ih =>
    subst ended
    obtain ⟨tree', rfl⟩ := Expr.done_of_after_stop after
    exact (ih ready rfl).restored _ _
  | @go e part s result s1 next back trees _ _ first runs after _ ihPart ihNext =>
    obtain ⟨last, rfl⟩ := Outcome.prepend_eq_done ended
    obtain ⟨tree', rfl⟩ := Expr.done_of_after_go after
    exact ((ihPart ready rfl).restored _ _).trans
      (ihNext (Task.Ready.next ready (runs.orderly ready) back next) rfl)
  | marked _ found => exact .flagged ready found
  | remembered => exact (State.Cleans.of_known fun _ => rfl).restored _ _
  | applied found unknown _ ih => exact ih (Task.Ready.applied ready found unknown) ended
  | settled _ runs _ _ ih =>
    exact .closed ready (runs.orderly ready.opened).proper (ih ready.opened rfl) (.of_known fun _ => rfl)
  | ripened _ runs _ _ ihBody ihGrowth =>
    have orderly := runs.orderly ready.opened
    exact .closed ready orderly.proper (ihBody ready.opened rfl) (ihGrowth (ready.planted orderly) rfl)
  | @grown name id body position seed reached tree' s s1 _ _ _ ih =>
    have began : s.Cleans setting (s.moved position) := .of_known fun _ => rfl
    exact (began.trans (ih ready.moved rfl)).trans (.of_known fun _ => rfl)
  | @growing name id body position seed reached tree' s s1 ended' s2 known runs further _ ihBody ihNext =>
    have orderly := runs.orderly ready.moved
    have began : s.Cleans setting (s.moved position) := .of_known fun _ => rfl
    exact ((began.trans (ihBody ready.moved rfl)).trans (.regrown ready known orderly)).trans
      (ihNext (ready.replanted orderly) ended)

/-! ## Who overwrites a result -/

/-- Growth begins inside of the application that has found the seed, and of none that is open in it. -/
theorem Begins.owner {sites : List Site} {position : Int}
    (begins : Begins setting task s sites (.growth name id body position) s') :
    (sites ++ task.own?.toList).head? = some ⟨id, position⟩ := by
  generalize grows : Task.growth name id body position = inner at begins
  induction begins with
  | here => subst grows; rfl
  | first _ _ ih | next _ _ _ _ ih | applied _ _ _ ih => exact ih grows
  | opened _ _ ih | round _ ih =>
    have first := ih grows
    simp only [Task.own?, Option.toList_none, List.append_nil] at first
    simp [List.head?_append, first]
  | seeded _ _ _ _ ih | regrown _ _ _ _ ih => simpa [Task.own?] using ih grows

end

/-! ## Evaluations -/

/-- Evaluation in any state that can be visited, while other applications are open and seeds are grown
    too, and whether it ends with a fault or not, keeps every result that is known, every marker but for
    its flag, and the rows before the cursor. Without a fault it leaves the same sites known if results
    are not kept, and new results only if they are. Whatever in the course of it changes a result is the
    growth of that seed, and the innermost application that has been opened is that of the seed. -/
theorem evaluation_leaves_others_alone (setting : Setting) {s s' : State} {e : Expr} {result : Result}
    (visited : Visited setting s) (ran : e.evaluate setting s = (result, s')) :
    (∀ site tree next, s.known site = some (.resolved tree next) →
      s'.known site = some (.resolved tree next)) ∧
    (∀ site detected, s.known site = some (.marker detected) →
      ∃ flag, s'.known site = some (.marker flag) ∧ (detected = true → flag = true)) ∧
    (∀ place : Nat, place < s.position → s'.memo.rows[place]? = s.memo.rows[place]?) ∧
    (∀ tree, result = .done tree →
      (setting.options.memoize = false → ∀ site, s'.known site = none ↔ s.known site = none) ∧
      (setting.options.memoize = true → ∀ site entry, s.known site = none →
        s'.known site = some entry → ∃ tree next, entry = .resolved tree next)) ∧
    (∀ sites task s1 result1 s2 site tree next, Begins setting (.expr e) s sites task s1 →
      Runs setting task s1 result1 s2 → s1.known site = some (.resolved tree next) →
      s2.known site ≠ some (.resolved tree next) →
      sites.head? = some site ∧ ∃ name body, task = .growth name site.id body site.position) := by
  have proper := visited.proper
  have runs := (runs_iff_evaluate proper).mpr ran
  have orderly := runs.orderly proper
  refine ⟨?_, ?_, ?_, ?_, ?_⟩
  · intro site tree next known
    exact orderly.keeps site _ (by simp [Task.own?]) known
  · intro site detected known
    exact orderly.keeps site _ (by simp [Task.own?]) known
  · exact runs.lasting (setting.lasting_rows s.position s.memo.rows) proper (Int.le_refl _) fun _ _ => rfl
  · intro tree ended
    have cleans := runs.cleans proper ended
    refine ⟨fun forgets site => ⟨fun gone => ?_, fun unknown => ?_⟩, fun _ site entry unknown known => ?_⟩
    · by_contra held
      exact orderly.keeps.isSome held gone
    · by_contra held
      exact cleans.entries forgets site held unknown
    · cases entry with
      | marker detected =>
        obtain ⟨before, marked⟩ := cleans.markers site detected known
        rw [unknown] at marked
        cases marked
      | resolved tree next => exact ⟨tree, next, rfl⟩
  · intro sites task s1 result1 s2 site tree next begins inner known changed
    have own : task.own? = some site := by
      by_contra other
      exact changed ((inner.orderly (begins.steady proper).ready).keeps site _ other known)
    cases task with
    | expr | fresh => cases own
    | growth name id body position =>
      cases own
      exact ⟨by simpa [Task.own?] using begins.owner, name, body, rfl⟩

theorem sums_flag_their_marker :
    ∃ s s', Visited (sums.setting (.text #['1'])) s ∧ s.known ⟨0, 0⟩ = some (.marker false) ∧
      (Expr.rule defaultStart).evaluate (sums.setting (.text #['1'])) s = (.done none, s') ∧
      ∃ flag, s'.known ⟨0, 0⟩ = some (.marker flag) := by
  let setting := sums.setting (.text #['1'])
  let s := (State.fresh 1).opened setting defaultStart 0
  have found : setting.grammar.lookup defaultStart = .ok (0, leftSum) := by rfl
  have accepted : setting.refusal defaultStart (.fresh 1) = none := by rfl
  have begins : Begins setting (.expr (.rule defaultStart)) (.fresh 1) [⟨0, 0⟩] (.expr leftSum) s :=
    .applied found rfl (.opened accepted .here)
  have visited := Visited.begun .fresh begins
  have marked : s.known ⟨0, 0⟩ = some (.marker false) := by rfl
  have ran : (Expr.rule defaultStart).evaluate setting s =
      (.done none, s.flagged setting defaultStart ⟨0, 0⟩ false) := by rfl
  obtain ⟨flag, known, _⟩ := (evaluation_leaves_others_alone setting visited ran).2.1 ⟨0, 0⟩ false marked
  exact ⟨s, _, visited, marked, ran, flag, known⟩

end SeedPeg
