import SeedPeg.Proofs.Replay

/-!
# Repetition

A repetition of at least one differs from a repetition only where the repetition is empty
(`plus_against_star`). It attempts its element once more there, if the first attempt has matched without
consuming, and that attempt ends as the first has. Where results are kept this is replaying. Where they
are not, the first attempt leaves nothing but flags of markers that were there before, and no run depends
on those: states that differ in the flags of some markers only, the same task brings to the same result
and to states that differ so (`Runs.abreast`).
-/

namespace SeedPeg

/-- Two states that differ at most in the flags of the markers of some sites, and in what they have told. -/
structure Abreast (outer : Site → Prop) (s t : State) : Prop where
  position : t.position = s.position
  depth : t.depth = s.depth
  same : ∀ site, ¬ outer site → t.known site = s.known site
  marked : ∀ site, outer site →
    ∃ flag flag', s.known site = some (.marker flag) ∧ t.known site = some (.marker flag')

section

variable {setting : Setting} {outer : Site → Prop} {s s' t t' s1 t1 : State} {site : Site} {name : Value}
  {id : Nat} {body : Expr}

/-- A marker that is come back to is flagged afterwards, whether it was before or not. -/
theorem State.Proper.known_flagged_marker {detected : Bool} (proper : s.Proper setting)
    (marked : s.known ⟨id, s.position⟩ = some (.marker detected)) (site : Site) :
    (s.flagged setting name ⟨id, s.position⟩ detected).known site =
      if site = ⟨id, s.position⟩ then some (.marker true) else s.known site := by
  rw [proper.known_flagged]
  by_cases own : site = ⟨id, s.position⟩
  · cases detected with
    | true => simp [own, marked]
    | false => simp [own]
  · simp [own]

namespace Abreast

/-- What is no marker is the same in both. -/
theorem known (abreast : Abreast outer s t) (other : ∀ flag, s.known site ≠ some (.marker flag)) :
    t.known site = s.known site :=
  abreast.same site fun inside => by
    obtain ⟨flag, _, marked, _⟩ := abreast.marked site inside
    exact other flag marked

/-- A marker is one in both. -/
theorem marker {flag : Bool} (abreast : Abreast outer s t) (marked : s.known site = some (.marker flag)) :
    ∃ flag', t.known site = some (.marker flag') := by
  by_cases inside : outer site
  · obtain ⟨_, flag', _, marked'⟩ := abreast.marked site inside
    exact ⟨flag', marked'⟩
  · exact ⟨flag, by rw [abreast.same site inside, marked]⟩

/-- What is not known in one of the states, or a result, is not a marker that may differ. -/
theorem inner (abreast : Abreast outer s t) (other : ∀ flag, s.known site ≠ some (.marker flag)) :
    ¬ outer site := fun inside => by
  obtain ⟨flag, _, marked, _⟩ := abreast.marked site inside
  exact other flag marked

theorem of_known (abreast : Abreast outer s t) (position : t1.position = s1.position)
    (depth : t1.depth = s1.depth) (known : ∀ site, s1.known site = s.known site)
    (known' : ∀ site, t1.known site = t.known site) : Abreast outer s1 t1 where
  position := position
  depth := depth
  same site other := by rw [known, known', abreast.same site other]
  marked site inside := by rw [known, known']; exact abreast.marked site inside

/-- Both come to know the same of some sites, or both no longer know anything of them. -/
theorem changed (abreast : Abreast outer s t) (position : t1.position = s1.position)
    (depth : t1.depth = s1.depth) {at? : Site → Prop} [DecidablePred at?] {entry : Option Entry}
    (known : ∀ site, s1.known site = if at? site then entry else s.known site)
    (known' : ∀ site, t1.known site = if at? site then entry else t.known site)
    (apart : ∀ site, at? site → outer site → ∃ flag, entry = some (.marker flag)) :
    Abreast outer s1 t1 where
  position := position
  depth := depth
  same site other := by rw [known, known', abreast.same site other]
  marked site inside := by
    rw [known, known']
    split
    · obtain ⟨flag, rfl⟩ := apart site ‹_› inside
      exact ⟨flag, flag, rfl, rfl⟩
    · exact abreast.marked site inside

theorem moved (abreast : Abreast outer s t) (position : Int) :
    Abreast outer (s.moved position) (t.moved position) :=
  abreast.of_known rfl abreast.depth (fun _ => rfl) (fun _ => rfl)

theorem restored (abreast : Abreast outer s1 t1) (same : t.position = s.position) (back : Bool) :
    Abreast outer (s1.restored back s.position) (t1.restored back t.position) := by
  cases back with
  | true => exact same ▸ abreast.moved t.position
  | false => exact abreast

theorem told (abreast : Abreast outer s t) (event event' : Event) :
    Abreast outer (s.told setting event) (t.told setting event') :=
  abreast.of_known (by simpa using abreast.position) (by simpa using abreast.depth) (by simp) (by simp)

theorem refusal (abreast : Abreast outer s t) (name : Value) :
    setting.refusal name t = setting.refusal name s := by
  rw [Setting.refusal, Setting.refusal, abreast.depth, abreast.position]

theorem idle (abreast : Abreast outer s t) (later : Abreast outer s1 t1) :
    (t1.position = t.position) = (s1.position = s.position) := by
  rw [abreast.position, later.position]

theorem ready {task : Task} (abreast : Abreast outer s t) (ready : task.Ready setting s)
    (proper : t.Proper setting) : task.Ready setting t := by
  cases task with
  | expr e => exact proper
  | fresh name id body =>
    obtain ⟨_, defined, unknown⟩ := ready
    refine ⟨proper, defined, ?_⟩
    rw [abreast.position, abreast.known (by simp [unknown]), unknown]
  | growth name id body position =>
    obtain ⟨_, defined, seed, reached, known⟩ := ready
    refine ⟨proper, defined, seed, reached, ?_⟩
    rw [abreast.known (by simp [known]), known]

section

variable (proper : s.Proper setting) (proper' : t.Proper setting)
include proper proper'

theorem put (abreast : Abreast outer s t) (low : 0 ≤ site.position)
    (high : site.position ≤ setting.input.size) (other : ¬ outer site) (entry : Entry) :
    Abreast outer (s.put site entry) (t.put site entry) :=
  abreast.changed abreast.position abreast.depth (proper.known_put low high entry)
    (proper'.known_put low high entry) (by rintro _ rfl inside; exact absurd inside other)

theorem opened (abreast : Abreast outer s t) (name : Value) (id : Nat)
    (other : ¬ outer ⟨id, s.position⟩) :
    Abreast outer (s.opened setting name id) (t.opened setting name id) := by
  refine abreast.changed ?_ ?_ (fun _ => proper.known_opened _) (fun site => ?_)
    (by rintro _ rfl inside; exact absurd inside other)
  · rw [State.position_opened, State.position_opened, abreast.position]
  · rw [State.depth_opened, State.depth_opened, abreast.depth]
  · rw [proper'.known_opened, abreast.position]

/-- What the body has matched is stored alike. -/
theorem planted {position position' : Int} (abreast : Abreast outer s t) (same : position' = position)
    (low : 0 ≤ position) (high : position ≤ setting.input.size) (id : Nat)
    (other : ¬ outer ⟨id, position⟩) (tree : Option Tree) :
    Abreast outer (s.put ⟨id, position⟩ (.ofResult position tree s.position))
      (t.put ⟨id, position'⟩ (.ofResult position' tree t.position)) := by
  rw [same, abreast.position]
  exact @put _ _ _ _ ⟨id, position⟩ proper proper' abreast low high other _

/-- A longer match is stored alike. -/
theorem replanted {position : Int} (abreast : Abreast outer s t) (low : 0 ≤ position)
    (high : position ≤ setting.input.size) (id : Nat) (other : ¬ outer ⟨id, position⟩) (name : Value)
    (tree : Option Tree) :
    Abreast outer
      ((s.told setting (.grew name position s.position)).put ⟨id, position⟩
        (.ofResult position tree s.position))
      ((t.told setting (.grew name position t.position)).put ⟨id, position⟩
        (.ofResult position tree t.position)) := by
  rw [abreast.position]
  exact @put _ _ _ _ ⟨id, position⟩ (proper.told _) (proper'.told _) (abreast.told _ _) low high other _

/-- Flagging makes markers the same, or leaves them as they are. -/
theorem flagged {detected detected' : Bool} (abreast : Abreast outer s t)
    (marked : s.known ⟨id, s.position⟩ = some (.marker detected))
    (marked' : t.known ⟨id, t.position⟩ = some (.marker detected')) :
    Abreast outer (s.flagged setting name ⟨id, s.position⟩ detected)
      (t.flagged setting name ⟨id, t.position⟩ detected') := by
  refine abreast.changed ?_ ?_ (proper.known_flagged_marker marked) (fun site => ?_) fun _ _ _ => ⟨true, rfl⟩
  · rw [State.position_flagged, State.position_flagged, abreast.position]
  · cases detected <;> cases detected' <;> simp [State.flagged, abreast.depth]
  · rw [proper'.known_flagged_marker marked', abreast.position]

end

theorem closed {site' : Site} (abreast : Abreast outer s t) (same : site' = site) (low : 0 ≤ site.position)
    (other : ¬ outer site) (name : Value) (tree : Option Tree) :
    Abreast outer (s.closed setting name site tree) (t.closed setting name site' tree) := by
  subst same
  refine abreast.changed ?_ ?_ (State.known_closed tree low) (State.known_closed tree low)
    (by rintro _ ⟨_, rfl⟩ inside; exact absurd inside other)
  · rw [State.position_closed, State.position_closed, abreast.position]
  · rw [State.depth_closed, State.depth_closed, abreast.depth]

section

variable (abreast : Abreast outer s t) (ready : (Task.fresh name id body).Ready setting s)
include abreast ready

/-- A site where an application is fresh is not one that may differ. -/
theorem apart : ¬ outer ⟨id, s.position⟩ := abreast.inner (by simp [ready.2.2])

theorem began (proper : t.Proper setting) :
    Abreast outer (s.opened setting name id) (t.opened setting name id) :=
  abreast.opened ready.proper proper name id (abreast.apart ready)

/-- What an application finds of itself is the same in both. -/
theorem own {entry : Entry} (later : Abreast outer s1 t1)
    (found : s1.known ⟨id, s.position⟩ = some entry) : t1.known ⟨id, t.position⟩ = some entry := by
  rw [abreast.position, later.same _ (abreast.apart ready), found]

theorem sown (later : Abreast outer s1 t1) (proper : s1.Proper setting) (proper' : t1.Proper setting)
    (tree : Option Tree) :
    Abreast outer (s1.put ⟨id, s.position⟩ (.ofResult s.position tree s1.position))
      (t1.put ⟨id, t.position⟩ (.ofResult t.position tree t1.position)) :=
  later.planted proper proper' abreast.position ready.site_inside.1 ready.site_inside.2 id
    (abreast.apart ready) tree

theorem left (later : Abreast outer s1 t1) (tree : Option Tree) :
    Abreast outer (s1.closed setting name ⟨id, s.position⟩ tree)
      (t1.closed setting name ⟨id, t.position⟩ tree) :=
  later.closed (by rw [abreast.position]) ready.site_inside.1 (abreast.apart ready) name tree

end

end Abreast

/-- No run depends on the flags of markers that were there when it began. -/
theorem Runs.abreast {task : Task} {result : Result} (runs : Runs setting task s result s')
    (ready : task.Ready setting s) (proper : t.Proper setting) (abreast : Abreast outer s t) :
    ∃ t', Runs setting task t result t' ∧ Abreast outer s' t' := by
  induction runs generalizing t with
  | @terminal literal s result s' matched =>
    cases made : literal.symbols? with
    | none =>
      rw [literal_fault made] at matched
      cases matched
      exact ⟨t, .terminal (literal_fault made), abreast⟩
    | some symbols =>
      have again := literal_apply proper made
      rw [literal_apply ready made] at matched
      rw [abreast.position] at again
      cases matched
      exact ⟨_, .terminal again, abreast.moved _⟩
  | bare => exact ⟨t, .bare, abreast⟩
  | plain => exact ⟨t, .plain, abreast⟩
  | nothing => exact ⟨t, .nothing, abreast⟩
  | never => exact ⟨t, .never, abreast⟩
  | @stop e part s result s1 ended back first _ after ih =>
    obtain ⟨t1, again, later⟩ := ih ready proper abreast
    simp only [← abreast.idle later] at after
    exact ⟨_, .stop first again after, later.restored abreast.position back⟩
  | @go e part s result s1 next back trees ended s2 first runs after _ ihPart ihNext =>
    obtain ⟨t1, again, later⟩ := ihPart ready proper abreast
    simp only [← abreast.idle later] at after
    have proper1 := Task.Ready.next (e := part) proper (again.orderly proper) back next
    obtain ⟨t2, rest, last⟩ := ihNext (Task.Ready.next ready (runs.orderly ready) back next) proper1
      (later.restored abreast.position back)
    exact ⟨t2, .go first again after rest, last⟩
  | unknown missing => exact ⟨t, .unknown missing, abreast⟩
  | @marked name id body detected s found known =>
    obtain ⟨detected', known'⟩ := abreast.marker known
    rw [← abreast.position] at known'
    exact ⟨_, .marked found known', abreast.flagged ready proper known known'⟩
  | @remembered name id body tree next s found known =>
    have known' : t.known ⟨id, t.position⟩ = some (.resolved tree next) := by
      rw [abreast.position, abreast.known (by simp [known]), known]
    refine ⟨_, .remembered found known', ?_⟩
    cases tree with
    | none => exact abreast
    | some tree => exact abreast.moved next
  | @applied name id body s result s1 found unknown _ ih =>
    have unknown' : t.known ⟨id, t.position⟩ = none := by
      rw [abreast.position, abreast.known (by simp [unknown]), unknown]
    obtain ⟨t1, again, later⟩ := ih (Task.Ready.applied ready found unknown) proper abreast
    exact ⟨t1, .applied found unknown' again, later⟩
  | refused refused => exact ⟨t, .refused (by rw [abreast.refusal, refused]), abreast⟩
  | broken accepted _ ih =>
    obtain ⟨t1, again, later⟩ := ih ready.opened proper.opened (abreast.began ready proper)
    exact ⟨t1, .broken (by rw [abreast.refusal, accepted]) again, later⟩
  | settled accepted runs found seeded ih =>
    obtain ⟨t1, again, later⟩ := ih ready.opened proper.opened (abreast.began ready proper)
    have sown := abreast.sown ready later (runs.orderly ready.opened).proper
      (again.orderly proper.opened).proper
    exact ⟨_, .settled (by rw [abreast.refusal, accepted]) again (abreast.own ready later found) seeded,
      abreast.left ready (sown _) _⟩
  | ripened accepted runs flagged _ ihBody ihGrowth =>
    obtain ⟨t1, again, later⟩ := ihBody ready.opened proper.opened (abreast.began ready proper)
    have orderly := runs.orderly ready.opened
    have orderly' := again.orderly proper.opened
    obtain ⟨t2, grows, last⟩ := ihGrowth (ready.planted orderly)
      ((abreast.ready ready proper).planted orderly').proper
      (abreast.sown ready later orderly.proper orderly'.proper _)
    rw [← abreast.position] at grows
    exact ⟨_, .ripened (by rw [abreast.refusal, accepted]) again (abreast.own ready later flagged) grows,
      abreast.left ready last _⟩
  | withered accepted runs flagged _ ihBody ihGrowth =>
    obtain ⟨t1, again, later⟩ := ihBody ready.opened proper.opened (abreast.began ready proper)
    have orderly := runs.orderly ready.opened
    have orderly' := again.orderly proper.opened
    obtain ⟨t2, grows, last⟩ := ihGrowth (ready.planted orderly)
      ((abreast.ready ready proper).planted orderly').proper
      (abreast.sown ready later orderly.proper orderly'.proper _)
    rw [← abreast.position] at grows
    exact ⟨t2, .withered (by rw [abreast.refusal, accepted]) again (abreast.own ready later flagged) grows,
      last⟩
  | @grown name id body position seed reached tree s s1 known _ short ih =>
    have known' : t.known ⟨id, position⟩ = some (.resolved seed reached) := by
      rw [abreast.known (by simp [known]), known]
    obtain ⟨t1, again, later⟩ := ih ready.moved (proper.moved ready.inside.1 ready.inside.2)
      (abreast.moved position)
    rw [← later.position] at short
    exact ⟨_, .grown known' again short, later.moved reached⟩
  | @growing name id body position seed reached tree s s1 ended s2 known runs further _ ihBody ihNext =>
    have known' : t.known ⟨id, position⟩ = some (.resolved seed reached) := by
      rw [abreast.known (by simp [known]), known]
    obtain ⟨t1, again, later⟩ := ihBody ready.moved (proper.moved ready.inside.1 ready.inside.2)
      (abreast.moved position)
    have other : ¬ outer ⟨id, position⟩ := abreast.inner (by simp [known])
    have orderly := runs.orderly ready.moved
    have orderly' := again.orderly (proper.moved ready.inside.1 ready.inside.2)
    have planted := later.replanted orderly.proper orderly'.proper ready.inside.1 ready.inside.2 id other name
      (some tree)
    obtain ⟨t2, rest, last⟩ := ihNext (ready.replanted orderly)
      ((abreast.ready ready proper).replanted orderly').proper planted
    exact ⟨t2, .growing known' again (by rwa [later.position]) rest, last⟩
  | @stunted name id body position seed reached cause s s1 known _ ih =>
    have known' : t.known ⟨id, position⟩ = some (.resolved seed reached) := by
      rw [abreast.known (by simp [known]), known]
    obtain ⟨t1, again, later⟩ := ih ready.moved (proper.moved ready.inside.1 ready.inside.2)
      (abreast.moved position)
    exact ⟨t1, .stunted known' again, later⟩

/-! ## The same attempt again -/

section

variable {e : Expr} {tree : Option Tree}

/-- Where results are not kept, an expression that is idle leaves what was there but for flags. -/
theorem Runs.leaves_flags (forgets : setting.options.memoize = false)
    (runs : Runs setting (.expr e) s (.done tree) s') (proper : s.Proper setting)
    (idle : s'.position = s.position) :
    Abreast (fun site => ∃ flag, s.known site = some (.marker flag)) s s' := by
  have orderly := runs.orderly proper
  have cleans := runs.cleans proper rfl
  refine ⟨idle, orderly.depth tree rfl, fun site other => ?_, ?_⟩
  · cases known : s.known site with
    | none =>
      by_contra held
      exact cleans.entries forgets site held known
    | some entry =>
      cases entry with
      | marker flag => exact absurd ⟨flag, known⟩ other
      | resolved result next => exact orderly.keeps site _ (by simp [Task.own?]) known
  · rintro site ⟨flag, known⟩
    obtain ⟨flag', known', _⟩ := orderly.keeps site _ (by simp [Task.own?]) known
    exact ⟨flag, flag', known, known'⟩

/-- An expression that has not consumed ends again as it has ended, in whatever it has left. -/
theorem Runs.again (runs : Runs setting (.expr e) s (.done tree) s') (proper : s.Proper setting)
    (idle : s'.position = s.position) :
    ∃ s'', Runs setting (.expr e) s' (.done tree) s'' ∧ s''.position = s.position := by
  have proper' := (runs.orderly proper).proper
  cases kept : setting.options.memoize with
  | true =>
    have replayed := runs.replays kept proper rfl rfl setting.options (proper'.under _)
      (.of_known fun _ _ => rfl) idle
    exact ⟨_, replayed, idle⟩
  | false =>
    obtain ⟨s'', again, abreast⟩ := runs.abreast proper proper' (runs.leaves_flags kept proper idle)
    exact ⟨s'', again, by rw [abreast.position, idle]⟩

/-! ## Repetitions -/

theorem Expr.after_star_stop {found : Option Tree} {idle : Bool} {ended : Result} {back : Bool} :
    (Expr.star e).after (.done found) idle = .stop ended back ↔
      (found = none ∨ idle = true) ∧ ended = .done (some (.node [])) ∧ back = true := by
  cases found <;> cases idle <;> simp [after, eq_comm]

theorem Expr.after_star_go {found : Option Tree} {idle : Bool} {next : Expr} {back : Bool}
    {trees : List Tree} :
    (Expr.star e).after (.done found) idle = .go next back trees ↔
      ∃ first, found = some first ∧ idle = false ∧ next = .star e ∧ back = false ∧ trees = [first] := by
  cases found <;> cases idle <;> simp [after, eq_comm]

/-- A repetition matches a list. -/
theorem Runs.star_list {task : Task} {result : Result} (runs : Runs setting task s result s')
    (whole : task = .expr (.star e)) (ended : result = .done tree) :
    ∃ trees, tree = some (.node trees) := by
  induction runs generalizing tree with
  | @stop _ _ _ _ _ _ _ first _ after =>
    cases whole
    cases first
    subst ended
    obtain ⟨found, rfl⟩ := Expr.done_of_after_stop after
    obtain ⟨_, ended, _⟩ := Expr.after_star_stop.mp after
    cases ended
    exact ⟨[], rfl⟩
  | @go _ _ _ _ _ _ _ _ _ _ first _ after _ _ ihNext =>
    cases whole
    cases first
    obtain ⟨last, rfl⟩ := Outcome.prepend_eq_done ended
    obtain ⟨found, rfl⟩ := Expr.done_of_after_go after
    obtain ⟨head, _, _, rfl, _, rfl⟩ := Expr.after_star_go.mp after
    obtain ⟨rest, rfl⟩ := ihNext rfl rfl
    cases ended
    exact ⟨head :: rest, rfl⟩
  | terminal | bare | plain | nothing | never | unknown | marked | remembered | applied => cases whole
  | refused | broken | settled | ripened | withered | grown | growing | stunted => cases whole

/-- A repetition ends after an attempt that fails or is idle, and goes on after any other. -/
theorem Runs.of_star {trees : List Tree}
    (runs : Runs setting (.expr (.star e)) s (.done (some (.node trees))) s') :
    (∃ found s1, Runs setting (.expr e) s (.done found) s1 ∧ (found = none ∨ s1.position = s.position) ∧
      trees = [] ∧ s' = s1.moved s.position) ∨
    ∃ first rest s1, Runs setting (.expr e) s (.done (some first)) s1 ∧ trees = first :: rest ∧
      Runs setting (.expr (.star e)) s1 (.done (some (.node rest))) s' := by
  generalize ended : Outcome.done (some (Tree.node trees)) = result at runs
  cases runs with
  | @stop _ _ _ _ s1 _ _ first inner after =>
    cases first
    subst ended
    obtain ⟨found, rfl⟩ := Expr.done_of_after_stop after
    obtain ⟨last, ended, rfl⟩ := Expr.after_star_stop.mp after
    cases ended
    exact .inl ⟨found, s1, inner, by simpa using last, rfl, rfl⟩
  | @go _ _ _ _ s1 _ _ _ _ _ first inner after later =>
    cases first
    obtain ⟨last, rfl⟩ := Outcome.prepend_eq_done ended.symm
    obtain ⟨found, rfl⟩ := Expr.done_of_after_go after
    obtain ⟨head, rfl, _, rfl, rfl, rfl⟩ := Expr.after_star_go.mp after
    obtain ⟨rest, rfl⟩ := later.star_list rfl rfl
    cases ended
    exact .inr ⟨head, rest, s1, inner, rfl, later⟩

/-- A repetition of at least one goes on as a repetition after its first attempt. -/
theorem Runs.plus {first : Tree} {rest : List Tree} {s'' : State}
    (inner : Runs setting (.expr e) s (.done (some first)) s')
    (later : Runs setting (.expr (.star e)) s' (.done (some (.node rest))) s'') :
    Runs setting (.expr (.plus e)) s (.done (some (.node (first :: rest)))) s'' :=
  @Runs.go _ _ _ _ _ _ _ false [first] _ _ rfl inner rfl later

theorem Runs.plus_none (inner : Runs setting (.expr e) s (.done none) s') :
    Runs setting (.expr (.plus e)) s (.done none) (s'.moved s.position) :=
  @Runs.stop _ _ _ _ _ _ _ true rfl inner rfl

/-- A repetition ends after an idle attempt. -/
theorem Runs.star_idle {first : Tree} (inner : Runs setting (.expr e) s (.done (some first)) s')
    (idle : s'.position = s.position) :
    Runs setting (.expr (.star e)) s (.done (some (.node []))) (s'.moved s.position) :=
  @Runs.stop _ _ _ _ _ _ _ true rfl inner (Expr.after_star_stop.mpr ⟨.inr (by simpa), rfl, rfl⟩)

end

end

/-- In any state that can be visited, while other applications are open and seeds are grown too, and
    whether results are kept or not: if a repetition ends without a fault, then it matches a list. Where
    that is not empty, the repetition of at least one matches the same list, and leaves the same state.
    Where it is empty because the first attempt fails, the other fails, and leaves the same state. Where it
    is empty because the first attempt matches without consuming, the other makes one more attempt, which
    ends as the first and does not consume either, and matches the list of the first match alone. -/
theorem plus_against_star (setting : Setting) {s s' : State} {e : Expr} {answer : Option Tree}
    (visited : Visited setting s) (ran : (Expr.star e).evaluate setting s = (.done answer, s')) :
    ∃ trees, answer = some (.node trees) ∧
      (trees ≠ [] → (Expr.plus e).evaluate setting s = (.done answer, s')) ∧
      (trees = [] → s'.position = s.position ∧
        ((∃ s1, e.evaluate setting s = (.done none, s1) ∧
            (Expr.plus e).evaluate setting s = (.done none, s')) ∨
          ∃ first s1 s2 s3, e.evaluate setting s = (.done (some first), s1) ∧ s1.position = s.position ∧
            e.evaluate setting s1 = (.done (some first), s2) ∧ s2.position = s.position ∧
            (Expr.plus e).evaluate setting s = (.done (some (.node [first])), s3) ∧
            s3.position = s.position)) := by
  have proper := visited.proper
  have runs := (runs_iff_evaluate proper).mpr ran
  obtain ⟨trees, rfl⟩ := runs.star_list rfl rfl
  refine ⟨trees, rfl, fun some => ?_, fun empty => ?_⟩
  · rcases runs.of_star with ⟨_, _, _, _, empty, _⟩ | ⟨first, rest, s1, inner, rfl, later⟩
    · exact absurd empty some
    · exact (runs_iff_evaluate proper).mp (inner.plus later)
  · rcases runs.of_star with ⟨found, s1, inner, last, _, rfl⟩ | ⟨_, _, _, _, full, _⟩
    · refine ⟨rfl, ?_⟩
      cases found with
      | none =>
        exact .inl ⟨s1, (runs_iff_evaluate proper).mp inner,
          (runs_iff_evaluate proper).mp inner.plus_none⟩
      | some first =>
        have idle : s1.position = s.position := last.resolve_left (by simp)
        have proper1 := (inner.orderly proper).proper
        obtain ⟨s2, again, idle'⟩ := inner.again proper idle
        have twice := inner.plus (again.star_idle (idle'.trans idle.symm))
        exact .inr ⟨first, s1, s2, _, (runs_iff_evaluate proper).mp inner, idle,
          (runs_iff_evaluate proper1).mp again, idle', (runs_iff_evaluate proper).mp twice, idle⟩
    · exact absurd (empty.symm.trans full) (by simp)

/-- While the sum is open, where results are not kept, coming back to it fails and flags its marker. That it
    does not match there is an idle match, which is found again after the flag is raised. -/
theorem sums_repeated :
    ∃ setting s s' s1 s2 s3, setting.options.memoize = false ∧ Visited setting s ∧
      s.known ⟨0, 0⟩ = some (.marker false) ∧
      (Expr.star (.notAhead (.rule defaultStart))).evaluate setting s = (.done (some (.node [])), s') ∧
      (Expr.notAhead (.rule defaultStart)).evaluate setting s = (.done (some .lookahead), s1) ∧
      s1.known ⟨0, 0⟩ = some (.marker true) ∧
      (Expr.notAhead (.rule defaultStart)).evaluate setting s1 = (.done (some .lookahead), s2) ∧
      (Expr.plus (.notAhead (.rule defaultStart))).evaluate setting s =
        (.done (some (.node [.lookahead])), s3) ∧ s3.position = 0 := by
  let setting := (sums.setting (.text #['1'])).under { memoize := false }
  let s := (State.fresh 1).opened setting defaultStart 0
  let e := Expr.notAhead (.rule defaultStart)
  have found : setting.grammar.lookup defaultStart = .ok (0, leftSum) := by rfl
  have accepted : setting.refusal defaultStart (.fresh 1) = none := by rfl
  have begins : Begins setting (.expr (.rule defaultStart)) (.fresh 1) [⟨0, 0⟩] (.expr leftSum) s :=
    .applied found rfl (.opened accepted .here)
  have visited := Visited.begun .fresh begins
  have ended : ((Expr.star e).evaluate setting s).1 = .done (some (.node [])) := by cbv
  have found : (e.evaluate setting s).1 = .done (some .lookahead) := by cbv
  have ran := Expr.evaluate_eq_of_fst ended
  have matched := Expr.evaluate_eq_of_fst found
  obtain ⟨trees, list, _, empty⟩ := plus_against_star setting visited ran
  cases list
  obtain ⟨_, ⟨_, failed, _⟩ | ⟨first, s1, s2, s3, one, _, two, _, both, back⟩⟩ := empty rfl
  · rw [matched] at failed
    cases failed
  · rw [matched] at one
    cases one
    exact ⟨setting, s, _, _, s2, s3, rfl, visited, by rfl, ran, matched, by cbv, two, both, back⟩

end SeedPeg
