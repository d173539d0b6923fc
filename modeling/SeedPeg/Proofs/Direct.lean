import SeedPeg.Proofs.Begins

/-!
# Direct tasks

A task is direct if every rule application in it that finds an entry finds that of the innermost open
application, and none exceeds the limit (`Direct`). Where results are not kept, the head, which is the
innermost application open when the task begins, is the only site of which such a task changes what is
known (`Runs.local`), and all it reads of the table is the entry of the head: begun again at the same
position with the same entry for the head, whatever else is open, it ends in the same way
(`Runs.repeats`).
-/

namespace SeedPeg

/-- A task in which only the innermost open application is come back to, and the limit is kept. -/
structure Direct (setting : Setting) (head : Option Site) (task : Task) (s : State) : Prop where
  innermost : ∀ {sites name s' id body entry}, Begins setting task s sites (.expr (.rule name)) s' →
    setting.grammar.lookup name = .ok (id, body) → s'.known ⟨id, s'.position⟩ = some entry →
    (sites ++ head.toList).head? = some ⟨id, s'.position⟩
  shallow : ∀ {sites name id body s'}, Begins setting task s sites (.fresh name id body) s' →
    ∀ limit rule position, setting.refusal name s' ≠ some (.tooDeep limit rule position)

/-- A limit that is no number is none at any depth. -/
theorem Options.limitReached_error {options : Options} {depth : Int} {cause : Fault}
    (failed : options.limitReached depth = .error cause) (other : Int) :
    options.limitReached other = .error cause := by
  simp only [limitReached] at failed ⊢
  split at failed
  · cases failed
  · split at failed
    · cases failed
    · exact failed

/-- Which heads are asked for: none for a fresh application, for which no head matters, and its own
    site for growth. -/
def Task.Fits : Task → Option Site → Prop
  | .expr _, _ => True
  | .fresh .., head => head = none
  | .growth _ id _ position, head => head = some ⟨id, position⟩

section

variable {setting : Setting} {head : Option Site} {task inner : Task} {s s' s1 : State}
  {e : Expr} {name : Value} {id : Nat} {body : Expr} {position : Int}

namespace Direct

/-- What begins in a direct task is direct, with the innermost of the sites opened as its head. -/
theorem later (direct : Direct setting head task s) {sites : List Site}
    (begins : Begins setting task s sites inner s') :
    Direct setting (sites ++ head.toList).head? inner s' where
  innermost {more name s'' id body entry} deeper found known := by
    have first := direct.innermost (begins.trans deeper) found known
    cases more with
    | nil => simpa using first
    | cons site rest => simpa using first
  shallow deeper := direct.shallow (begins.trans deeper)

theorem part {part : Expr} (direct : Direct setting head (.expr e) s) (first : e.first? = some part) :
    Direct setting head (.expr part) s := by
  simpa using direct.later (.first first .here)

theorem next {part next : Expr} {result : Result} {back : Bool} {trees : List Tree}
    (direct : Direct setting head (.expr e) s) (proper : s.Proper setting) (first : e.first? = some part)
    (runs : Runs setting (.expr part) s result s1)
    (after : e.after result (s1.position = s.position) = .go next back trees) :
    Direct setting head (.expr next) (s1.restored back s.position) := by
  simpa using direct.later (.next first ((runs_iff_evaluate proper).mp runs) after .here)

/-- Which application is the innermost before does not matter to a fresh one. -/
theorem applied (direct : Direct setting head (.expr (.rule name)) s)
    (found : setting.grammar.lookup name = .ok (id, body)) (unknown : s.known ⟨id, s.position⟩ = none) :
    Direct setting none (.fresh name id body) s where
  innermost {sites _ _ _ _ _} begins found' known := by
    have first := direct.innermost (.applied found unknown begins) found' known
    cases begins with
    | opened | seeded => simpa [List.head?_append] using first
  shallow begins := direct.shallow (.applied found unknown begins)

theorem opened (direct : Direct setting head (.fresh name id body) s)
    (accepted : setting.refusal name s = none) :
    Direct setting (some ⟨id, s.position⟩) (.expr body) (s.opened setting name id) := by
  simpa using direct.later (.opened accepted .here)

theorem seeded {seed : Tree} (direct : Direct setting head (.fresh name id body) s)
    (ready : (Task.fresh name id body).Ready setting s) (accepted : setting.refusal name s = none)
    (runs : Runs setting (.expr body) (s.opened setting name id) (.done (some seed)) s1)
    (flagged : s1.known ⟨id, s.position⟩ = some (.marker true)) :
    Direct setting (some ⟨id, s.position⟩) (.growth name id body s.position)
      (s1.put ⟨id, s.position⟩ (.ofResult s.position (some seed) s1.position)) := by
  simpa using direct.later (.seeded accepted ((runs_iff_evaluate ready.opened).mp runs) flagged .here)

theorem round (direct : Direct setting head (.growth name id body position) s) :
    Direct setting head (.expr body) (s.moved position) := by
  simpa using direct.later (.round .here)

theorem regrown {seed : Option Tree} {reached : Int} {tree : Tree}
    (direct : Direct setting head (.growth name id body position) s)
    (ready : (Task.growth name id body position).Ready setting s)
    (known : s.known ⟨id, position⟩ = some (.resolved seed reached))
    (runs : Runs setting (.expr body) (s.moved position) (.done (some tree)) s1)
    (further : reached < s1.position) :
    Direct setting head (.growth name id body position)
      ((s1.told setting (.grew name position s1.position)).put ⟨id, position⟩
        (.ofResult position (some tree) s1.position)) := by
  simpa using direct.later (.regrown known ((runs_iff_evaluate ready.moved).mp runs) further .here)

/-- A rule that finds an entry finds that of the head. -/
theorem head_eq (direct : Direct setting head (.expr (.rule name)) s)
    (found : setting.grammar.lookup name = .ok (id, body)) {entry : Entry}
    (known : s.known ⟨id, s.position⟩ = some entry) : head = some ⟨id, s.position⟩ := by
  simpa using direct.innermost .here found known

/-- If a rule application is accepted anywhere, those of a direct task are. -/
theorem accepted {other : Value} (direct : Direct setting head (.fresh name id body) s)
    (elsewhere : setting.refusal other s1 = none) : setting.refusal name s = none := by
  have within := direct.shallow .here
  rcases reached : setting.options.limitReached s.depth with cause | _ | _
  · simp [Setting.refusal, Options.limitReached_error reached s1.depth] at elsewhere
  · simp [Setting.refusal, reached]
  · simp [Setting.refusal, reached] at within

end Direct

/-! ## What a direct task changes -/

/-- A direct task that ends without a fault changes what is known of its head and of nothing else. -/
theorem Runs.local {result : Result} (forgets : setting.options.memoize = false)
    (runs : Runs setting task s result s') (ready : task.Ready setting s)
    (direct : Direct setting head task s) (fits : task.Fits head)
    {tree : Option Tree} (ended : result = .done tree) {site : Site} (other : head ≠ some site) :
    s'.known site = s.known site := by
  induction runs generalizing head tree with
  | @terminal literal s result s' matched =>
    cases made : literal.symbols? with
    | none => rw [literal_fault made] at matched; cases matched; cases ended
    | some symbols =>
      rw [literal_apply ready made] at matched
      cases matched
      rfl
  | bare | plain | unknown | refused | broken | withered | stunted => cases ended
  | nothing | never => rfl
  | stop first _ after ih =>
    subst ended
    obtain ⟨tree', rfl⟩ := Expr.done_of_after_stop after
    rw [State.known_restored]
    exact ih ready (direct.part first) trivial rfl other
  | @go e part s result s1 next back trees _ _ first runs after _ ihPart ihNext =>
    obtain ⟨last, rfl⟩ := Outcome.prepend_eq_done ended
    obtain ⟨tree', rfl⟩ := Expr.done_of_after_go after
    have ready1 := Task.Ready.next ready (runs.orderly ready) back next
    rw [ihNext ready1 (direct.next ready first runs after) trivial rfl other,
      State.known_restored]
    exact ihPart ready (direct.part first) trivial rfl other
  | @marked name id body detected s found known =>
    have own := direct.head_eq found known
    have apart : ¬ site = ⟨id, s.position⟩ := fun same => other (by rw [own, same])
    rw [State.Proper.known_flagged ready, if_neg fun both => apart both.2]
  | remembered => rw [State.known_restored]
  | applied found unknown _ ih =>
    -- a fresh application has no head, whatever the head of the expression that it is in
    exact ih (Task.Ready.applied ready found unknown) (direct.applied found unknown) rfl ended (by simp)
  | @settled name id body tree' detected s s1 accepted runs found _ ih =>
    have low : 0 ≤ (Site.mk id s.position).position := ready.proper.low
    have high : (Site.mk id s.position).position ≤ setting.input.size := ready.proper.high
    have orderly := runs.orderly ready.opened
    rw [State.known_closed _ low]
    by_cases own : site = ⟨id, s.position⟩
    · rw [if_pos ⟨forgets, own⟩, own, ready.2.2]
    · have apart : (some ⟨id, s.position⟩ : Option Site) ≠ some site := fun same => own (by cases same; rfl)
      rw [if_neg fun both => own both.2, orderly.proper.known_put low high, if_neg own,
        ih ready.opened (direct.opened accepted) trivial rfl apart,
        ready.proper.known_opened, if_neg own]
  | @ripened name id body seed tree' s s1 s2 accepted runs flagged _ ihBody ihGrowth =>
    have low : 0 ≤ (Site.mk id s.position).position := ready.proper.low
    have high : (Site.mk id s.position).position ≤ setting.input.size := ready.proper.high
    have orderly := runs.orderly ready.opened
    rw [State.known_closed _ low]
    by_cases own : site = ⟨id, s.position⟩
    · rw [if_pos ⟨forgets, own⟩, own, ready.2.2]
    · have apart : (some ⟨id, s.position⟩ : Option Site) ≠ some site := fun same => own (by cases same; rfl)
      rw [if_neg fun both => own both.2,
        ihGrowth (ready.planted orderly) (direct.seeded ready accepted runs flagged) rfl rfl apart,
        orderly.proper.known_put low high, if_neg own,
        ihBody ready.opened (direct.opened accepted) trivial rfl apart,
        ready.proper.known_opened, if_neg own]
  | grown _ _ _ ih => exact ih ready.moved direct.round trivial rfl other
  | @growing name id body position seed reached tree' s s1 ended' s2 known runs further _ ihBody ihNext =>
    have orderly := runs.orderly ready.moved
    have own : ¬ site = ⟨id, position⟩ := fun same => other (by rw [fits, same])
    have told := orderly.proper.told (.grew name position s1.position)
    rw [ihNext (ready.replanted orderly) (direct.regrown ready known runs further) fits ended other,
      @State.Proper.known_put _ _ ⟨id, position⟩ ready.inside.1 ready.inside.2 told, if_neg own,
      State.known_told]
    exact ihBody ready.moved direct.round trivial rfl other

end

/-! ## Direct tasks again -/

/-- The task with the rule applied under another of its names. -/
def Task.named : Task → Value → Task
  | .expr e, _ => .expr e
  | .fresh _ id body, name => .fresh name id body
  | .growth _ id body position, name => .growth name id body position

/-- Two states in which a task with some head does the same. -/
structure Akin (head : Option Site) (s t : State) : Prop where
  position : t.position = s.position
  entry : ∀ site, head = some site → t.known site = s.known site

section

variable {setting : Setting} {head : Option Site} {task : Task} {s s' t t' s1 t1 : State}
  {name rule : Value} {id : Nat} {body : Expr} {position : Int}

namespace Akin

theorem restored (akin : Akin head s1 t1) (same : Akin head s t) (back : Bool) :
    Akin head (s1.restored back s.position) (t1.restored back t.position) := by
  refine ⟨?_, fun site own => ?_⟩
  · rw [State.position_restored, State.position_restored, akin.position, same.position]
  · rw [State.known_restored, State.known_restored]
    exact akin.entry site own

theorem moved (akin : Akin head s t) (position : Int) : Akin head (s.moved position) (t.moved position) :=
  ⟨rfl, akin.entry⟩

theorem none (same : t.position = s.position) : Akin none s t := ⟨same, by simp⟩

theorem opened (akin : Akin head s t) (proper : s.Proper setting) (proper' : t.Proper setting) :
    Akin (some ⟨id, s.position⟩) (s.opened setting name id) (t.opened setting rule id) := by
  refine ⟨by rw [State.position_opened, State.position_opened, akin.position], ?_⟩
  rintro site ⟨⟩
  rw [proper.known_opened, proper'.known_opened, akin.position, if_pos rfl, if_pos rfl]

theorem put {site : Site} (akin : Akin (some site) s t) (proper : s.Proper setting)
    (proper' : t.Proper setting) (low : 0 ≤ site.position) (high : site.position ≤ setting.input.size)
    (entry : Entry) : Akin (some site) (s.put site entry) (t.put site entry) := by
  refine ⟨akin.position, ?_⟩
  rintro other ⟨⟩
  rw [proper.known_put_self low high, proper'.known_put_self low high]

theorem told (akin : Akin head s t) (event event' : Event) :
    Akin head (s.told setting event) (t.told setting event') := by
  refine ⟨by simpa using akin.position, fun site own => ?_⟩
  simpa using akin.entry site own

/-- A longer match is stored alike. -/
theorem replanted {tree : Option Tree} (akin : Akin (some ⟨id, position⟩) s1 t1)
    (proper : s1.Proper setting) (proper' : t1.Proper setting) (low : 0 ≤ position)
    (high : position ≤ setting.input.size) :
    Akin (some ⟨id, position⟩)
      ((s1.told setting (.grew name position s1.position)).put ⟨id, position⟩
        (.ofResult position tree s1.position))
      ((t1.told setting (.grew rule position t1.position)).put ⟨id, position⟩
        (.ofResult position tree t1.position)) := by
  rw [akin.position]
  exact (akin.told _ _).put (proper.told _) (proper'.told _) low high _

theorem flagged {detected : Bool} (akin : Akin head s t) (proper : s.Proper setting)
    (proper' : t.Proper setting) :
    Akin head (s.flagged setting name ⟨id, s.position⟩ detected)
      (t.flagged setting rule ⟨id, t.position⟩ detected) := by
  refine ⟨by rw [State.position_flagged, State.position_flagged, akin.position], fun site own => ?_⟩
  rw [proper.known_flagged, proper'.known_flagged, akin.position, akin.entry site own]

end Akin

/-- A direct task, begun again in a proper state with the same cursor and the same entry for its head,
    ends in the same way. -/
theorem Runs.repeats {result : Result} (forgets : setting.options.memoize = false)
    (runs : Runs setting task s result s') (ready : task.Ready setting s)
    (direct : Direct setting head task s) (fits : task.Fits head) {tree : Option Tree}
    (ended : result = .done tree) (readyAgain : (task.named rule).Ready setting t)
    (directAgain : Direct setting head (task.named rule) t) (akin : Akin head s t) :
    ∃ t', Runs setting (task.named rule) t (.done tree) t' ∧ Akin head s' t' := by
  induction runs generalizing head tree t rule with
  | @terminal literal s result s' matched =>
    cases made : literal.symbols? with
    | none => rw [literal_fault made] at matched; cases matched; cases ended
    | some symbols =>
      have again := literal_apply readyAgain made
      rw [literal_apply ready made] at matched
      rw [akin.position] at again
      cases matched
      cases ended
      exact ⟨_, .terminal again, rfl, akin.entry⟩
  | bare | plain | unknown | refused | broken | withered | stunted => cases ended
  | nothing => cases ended; exact ⟨t, .nothing, akin⟩
  | never => cases ended; exact ⟨t, .never, akin⟩
  | @stop e part s result s1 ended back first runs after ih =>
    subst ended
    obtain ⟨tree', rfl⟩ := Expr.done_of_after_stop after
    obtain ⟨t1, again, akin1⟩ := @ih head t rule ready (direct.part first) trivial _ rfl readyAgain
      (directAgain.part first) akin
    have idle : (t1.position = t.position) = (s1.position = s.position) := by
      rw [akin1.position, akin.position]
    simp only [← idle] at after
    exact ⟨_, .stop first again after, akin1.restored akin back⟩
  | @go e part s result s1 next back trees last s2 first runs after _ ihPart ihNext =>
    obtain ⟨last, rfl⟩ := Outcome.prepend_eq_done ended
    obtain ⟨tree', rfl⟩ := Expr.done_of_after_go after
    have ready1 := Task.Ready.next ready (runs.orderly ready) back next
    have direct1 := direct.next ready first runs after
    obtain ⟨t1, again, akin1⟩ := @ihPart head t rule ready (direct.part first) trivial _ rfl readyAgain
      (directAgain.part first) akin
    have idle : (t1.position = t.position) = (s1.position = s.position) := by
      rw [akin1.position, akin.position]
    simp only [← idle] at after
    have readyAgain1 := Task.Ready.next readyAgain (again.orderly readyAgain) back next
    obtain ⟨t2, later, akin2⟩ := @ihNext head _ rule ready1 direct1 trivial _ rfl readyAgain1
      (directAgain.next readyAgain first again after) (akin1.restored akin back)
    exact ⟨t2, ended ▸ .go first again after later, akin2⟩
  | @marked name id body detected s found known =>
    cases ended
    have own := direct.head_eq found known
    have known' : t.known ⟨id, t.position⟩ = some (.marker detected) := by
      rw [akin.position, akin.entry _ own, known]
    exact ⟨_, .marked found known', akin.flagged ready readyAgain⟩
  | @remembered name id body tree' next s found known =>
    cases ended
    have own := direct.head_eq found known
    have known' : t.known ⟨id, t.position⟩ = some (.resolved tree' next) := by
      rw [akin.position, akin.entry _ own, known]
    refine ⟨_, .remembered found known', ?_⟩
    cases tree' with
    | none => exact akin
    | some tree' => exact akin.moved next
  | @applied name id body s result s1 found unknown runs ih =>
    -- an entry here would be that of the head, and the head has the same entry in both states
    have unknown' : t.known ⟨id, t.position⟩ = none := by
      cases known' : t.known ⟨id, t.position⟩ with
      | none => rfl
      | some entry =>
        have own := directAgain.head_eq found known'
        rw [akin.entry _ own, akin.position, unknown] at known'
        cases known'
    subst ended
    have ready1 := Task.Ready.applied ready found unknown
    have direct1 := direct.applied found unknown
    have readyAgain1 := Task.Ready.applied readyAgain found unknown'
    have directAgain1 := directAgain.applied found unknown'
    obtain ⟨t1, again, akin1⟩ :=
      @ih none t name ready1 direct1 rfl tree rfl readyAgain1 directAgain1 (.none akin.position)
    refine ⟨t1, .applied found unknown' again, akin1.position, fun site own => ?_⟩
    rw [runs.local forgets ready1 direct1 rfl rfl (by simp),
      again.local forgets readyAgain1 directAgain1 rfl rfl (by simp)]
    exact akin.entry site own
  | @settled name id body tree' detected s s1 accepted runs found seeded ih =>
    cases ended
    cases fits
    have same := akin.position
    have accepted' := directAgain.accepted accepted
    have directAgain1 := directAgain.opened accepted'
    rw [same] at directAgain1
    obtain ⟨t1, again, akin1⟩ := @ih _ _ rule ready.opened (direct.opened accepted) trivial _ rfl
      readyAgain.opened directAgain1 (akin.opened ready.proper readyAgain.proper)
    have found' : t1.known ⟨id, t.position⟩ = some (.marker detected) := by
      rw [same, akin1.entry _ rfl, found]
    refine ⟨_, .settled accepted' again found' seeded, .none ?_⟩
    rw [State.position_closed, State.position_closed, State.position_put, State.position_put,
      akin1.position, same]
  | @ripened name id body seed tree' s s1 s2 accepted runs flagged _ ihBody ihGrowth =>
    cases ended
    cases fits
    have same := akin.position
    have accepted' := directAgain.accepted accepted
    have directAgain1 := directAgain.opened accepted'
    rw [same] at directAgain1
    obtain ⟨t1, again, akin1⟩ := @ihBody _ _ rule ready.opened (direct.opened accepted) trivial _ rfl
      readyAgain.opened directAgain1 (akin.opened ready.proper readyAgain.proper)
    have flagged' : t1.known ⟨id, t.position⟩ = some (.marker true) := by
      rw [same, akin1.entry _ rfl, flagged]
    have orderly := runs.orderly ready.opened
    have orderlyAgain := again.orderly readyAgain.opened
    have planted := akin1.put orderly.proper orderlyAgain.proper ready.proper.low ready.proper.high
      (.ofResult s.position (some seed) s1.position)
    have readyAgain2 := readyAgain.planted orderlyAgain
    have directAgain2 := directAgain.seeded readyAgain accepted' again flagged'
    rw [same, akin1.position] at readyAgain2 directAgain2
    obtain ⟨t2, later, akin2⟩ := @ihGrowth _ _ rule (ready.planted orderly)
      (direct.seeded ready accepted runs flagged) rfl _ rfl readyAgain2 directAgain2 planted
    have later' : Runs setting (.growth rule id body t.position)
        (t1.put ⟨id, t.position⟩ (.ofResult t.position (some seed) t1.position)) (.done tree') t2 := by
      rw [same, akin1.position]
      exact later
    refine ⟨_, .ripened accepted' again flagged' later', .none ?_⟩
    rw [State.position_closed, State.position_closed, akin2.position, same]
  | @grown name id body position seed reached tree' s s1 known _ ends ih =>
    cases ended
    cases fits
    obtain ⟨t1, again, akin1⟩ := @ih _ _ rule ready.moved direct.round trivial _ rfl readyAgain.moved
      directAgain.round (akin.moved position)
    have known' : t.known ⟨id, position⟩ = some (.resolved seed reached) := by
      rw [akin.entry _ rfl, known]
    rw [← akin1.position] at ends
    exact ⟨_, .grown known' again ends, akin1.moved reached⟩
  | @growing name id body position seed reached tree' s s1 last s2 known runs further _ ihBody ihNext =>
    cases fits
    obtain ⟨t1, again, akin1⟩ := @ihBody _ _ rule ready.moved direct.round trivial _ rfl
      readyAgain.moved directAgain.round (akin.moved position)
    have known' : t.known ⟨id, position⟩ = some (.resolved seed reached) := by
      rw [akin.entry _ rfl, known]
    have further' : reached < t1.position := by rw [akin1.position]; exact further
    have orderly := runs.orderly ready.moved
    have orderlyAgain := again.orderly readyAgain.moved
    have planted := @Akin.replanted setting _ _ name rule _ _ (some tree') akin1 orderly.proper
      orderlyAgain.proper ready.inside.1 ready.inside.2
    obtain ⟨t2, later, akin2⟩ := @ihNext _ _ rule (ready.replanted orderly)
      (direct.regrown ready known runs further) rfl _ ended (readyAgain.replanted orderlyAgain)
      (directAgain.regrown readyAgain known' again further') planted
    exact ⟨t2, .growing known' again further' later, akin2⟩

end

end SeedPeg
