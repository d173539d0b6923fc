import Mathlib
import SeedPeg.Proofs.Frame

/-!
# The brackets of a trace

What a match tells is well bracketed: the messages of a rule application are a block, which its start and
its end enclose, and what is told in between is one level deeper (`Bracketed`). A rule that comes back to a
site does so inside of the block that has been opened there, and once in it. A seed is told to grow in the
block that has found it, after that, and further and further up to where the block says the rule has matched
(`Truthful`). The messages of a run are read off its parts (`Runs.tells`): markers are where blocks are open,
each is flagged once, and an application of a rule of which nothing is known is one block (`Task.Whole`).
-/

namespace SeedPeg

/-! ## What messages tell -/

/-- The site that an event tells a rule to come back to. -/
def Event.revisit? (grammar : Grammar) : Event → Option Site
  | .leftRecursion name position =>
    match grammar.lookup name with
    | .ok (id, _) => some ⟨id, position⟩
    | .error _ => none
  | _ => none

/-- The sites that messages tell rules to come back to, in order. -/
def Grammar.revisits (grammar : Grammar) (messages : List Message) : List Site :=
  messages.filterMap (·.event.revisit? grammar)

/-- How far a message at a depth tells a seed to have grown. -/
def Message.stop? (depth : Int) : Message → Option Int
  | ⟨other, .grew _ _ stop⟩ => if other = depth then some stop else none
  | _ => none

/-- How far the messages at a depth tell seeds to have grown, in order. -/
def stopsAt (depth : Int) (messages : List Message) : List Int := messages.filterMap (Message.stop? depth)

/-- How the block of a rule application ends, with what it tells inside at a depth. -/
structure Truthful (grammar : Grammar) (name : Value) (site : Site) (depth : Int) (inside : List Message)
    (closing : Event) : Prop where
  closes : closing = .failed name site.position ∨ ∃ stop, closing = .matched name site.position stop
  /-- The rule comes back to the site at most once. -/
  once : (grammar.revisits inside).count site ≤ 1
  /-- The seed grows only after that. -/
  ripe : ∀ before stop after, inside = before ++ ⟨depth, .grew name site.position stop⟩ :: after →
    site ∈ grammar.revisits before
  /-- It becomes longer every time. -/
  longer : (stopsAt depth inside).Pairwise (· < ·)
  /-- The rule matches what it has become in the end. -/
  whole : ∀ stop, (stopsAt depth inside).getLast? = some stop → closing = .matched name site.position stop

/-- Messages one level below rule applications that are open, the innermost first: blocks of messages that
    are well bracketed, rules that come back to open applications, and the growth of the innermost one. So
    there are only blocks where no application is open. -/
inductive Bracketed (grammar : Grammar) : List (Value × Site) → Int → List Message → Prop
  | nil {around depth} : Bracketed grammar around depth []
  | block {around depth name id body position inside closing rest} :
      grammar.lookup name = .ok (id, body) →
      Bracketed grammar ((name, ⟨id, position⟩) :: around) (depth + 1) inside →
      Truthful grammar name ⟨id, position⟩ (depth + 1) inside closing →
      Bracketed grammar around depth rest →
      Bracketed grammar around depth
        (⟨depth, .parsing name position⟩ :: (inside ++ ⟨depth, closing⟩ :: rest))
  | revisit {around depth name id body position rest} :
      grammar.lookup name = .ok (id, body) → ⟨id, position⟩ ∈ around.map (·.2) →
      Bracketed grammar around depth rest →
      Bracketed grammar around depth (⟨depth, .leftRecursion name position⟩ :: rest)
  | grew {around depth name site stop rest} :
      around.head? = some (name, site) → Bracketed grammar around depth rest →
      Bracketed grammar around depth (⟨depth, .grew name site.position stop⟩ :: rest)

section

variable {grammar : Grammar} {around : List (Value × Site)} {depth : Int} {messages before after : List Message}

@[simp] theorem Grammar.revisits_append :
    grammar.revisits (before ++ after) = grammar.revisits before ++ grammar.revisits after :=
  List.filterMap_append

@[simp] theorem stopsAt_append : stopsAt depth (before ++ after) = stopsAt depth before ++ stopsAt depth after :=
  List.filterMap_append

namespace Bracketed

theorem append (first : Bracketed grammar around depth before) (second : Bracketed grammar around depth after) :
    Bracketed grammar around depth (before ++ after) := by
  induction first with
  | nil => exact second
  | block found inner truthful _ _ ih =>
    rw [List.cons_append, List.append_assoc, List.cons_append]
    exact .block found inner truthful (ih second)
  | revisit found held _ ih => exact .revisit found held (ih second)
  | grew own _ ih => exact .grew own (ih second)

/-- No message is told above the level of the others, and in blocks they are below it. -/
theorem deep (bracketed : Bracketed grammar around depth messages) :
    ∀ message ∈ messages, depth ≤ message.depth := by
  induction bracketed with
  | nil => simp
  | block _ _ _ _ ihInside ihRest =>
    intro message member
    simp only [List.mem_cons, List.mem_append] at member
    rcases member with rfl | inside | rfl | later
    · exact Int.le_refl _
    · have := ihInside message inside
      omega
    · exact Int.le_refl _
    · exact ihRest message later
  | revisit _ _ _ ih | grew _ _ ih =>
    exact List.forall_mem_cons.mpr ⟨Int.le_refl _, ih⟩

/-- Nothing that is told below a level grows on it. -/
theorem stopsAt_eq_nil (bracketed : Bracketed grammar around (depth + 1) messages) :
    stopsAt depth messages = [] := by
  refine List.filterMap_eq_nil_iff.mpr fun message member => ?_
  have below := bracketed.deep message member
  obtain ⟨other, event⟩ := message
  cases event with
  | grew => exact if_neg (by simp only at below; omega)
  | _ => rfl

end Bracketed

theorem mem_stopsAt {name : Value} {position stop : Int}
    (member : ⟨depth, .grew name position stop⟩ ∈ messages) : stop ∈ stopsAt depth messages :=
  List.mem_filterMap.mpr ⟨_, member, by simp [Message.stop?]⟩

/-- What is told until a seed is there, and what is told of its growth after that. -/
theorem Truthful.of_growth {name : Value} {site : Site} {closing : Event}
    (closes : closing = .failed name site.position ∨ ∃ stop, closing = .matched name site.position stop)
    (once : (grammar.revisits before).count site ≤ 1) (still : stopsAt depth before = [])
    (spared : (grammar.revisits after).count site = 0)
    (ripe : stopsAt depth after ≠ [] → site ∈ grammar.revisits before)
    (longer : (stopsAt depth after).Pairwise (· < ·))
    (whole : ∀ stop, (stopsAt depth after).getLast? = some stop → closing = .matched name site.position stop) :
    Truthful grammar name site depth (before ++ after) closing where
  closes := closes
  once := by rwa [Grammar.revisits_append, List.count_append, spared, Nat.add_zero]
  ripe start stop rest parted := by
    let grew : Message := ⟨depth, .grew name site.position stop⟩
    rcases List.append_eq_append_iff.mp parted with ⟨more, rfl, same⟩ | ⟨more, same, same'⟩
    · have grown : grew ∈ after := by simp [same, grew]
      rw [Grammar.revisits_append]
      exact List.mem_append_left _ (ripe (List.ne_nil_of_mem (mem_stopsAt grown)))
    · cases more with
      | nil =>
        have grown : grew ∈ after := by rw [← List.nil_append after, ← same']; exact List.mem_cons_self
        rw [← List.append_nil start, ← same]
        exact ripe (List.ne_nil_of_mem (mem_stopsAt grown))
      | cons message more =>
        obtain ⟨rfl, -⟩ := List.cons.inj same'
        have grown : grew ∈ before := by simp [same, grew]
        exact absurd still (List.ne_nil_of_mem (mem_stopsAt grown))
  longer := by rwa [stopsAt_append, still]
  whole := by rwa [stopsAt_append, still]

end

/-! ## What a run tells -/

/-- The flags at a site: one if there is a marker that is flagged. -/
def State.flags (s : State) (site : Site) : Nat :=
  match s.known site with
  | some (.marker true) => 1
  | _ => 0

/-- Wherever there is a marker, a rule application is open. -/
def State.Covered (s : State) (around : List (Value × Site)) : Prop :=
  ∀ site detected, s.known site = some (.marker detected) → site ∈ around.map (·.2)

/-- Whether a task belongs to the innermost of some open rule applications, or opens another one. -/
def Task.Inside (grammar : Grammar) (around : List (Value × Site)) : Task → Prop
  | .expr _ => True
  | .fresh name id body => grammar.lookup name = .ok (id, body)
  | .growth name id _ position => around.head? = some (name, ⟨id, position⟩)

/-- How far a task has its seed grow: growth further every time, up to where it ends, other tasks not at
    all. -/
def Task.Stops : Task → State → List Int → State → Prop
  | .growth _ id _ position, s, stops, s' =>
    ∃ seed reached, s.known ⟨id, position⟩ = some (.resolved seed reached) ∧
      (reached :: stops).Pairwise (· < ·) ∧ s'.position = stops.getLastD reached
  | _, _, stops, _ => stops = []

/-- What a task tells inside of the rule applications that are open: messages that are well bracketed, with
    one revisit for each flag that is raised. -/
structure Tells (setting : Setting) (around : List (Value × Site)) (task : Task) (s : State)
    (messages : List Message) (s' : State) : Prop where
  trace : s'.trace.toList = s.trace.toList ++ messages
  bracketed : Bracketed setting.grammar around s.depth messages
  flags : ∀ site, s.known site ≠ none →
    (setting.grammar.revisits messages).count site + s.flags site = s'.flags site
  stops : task.Stops s (stopsAt s.depth messages) s'

/-- How a rule application is told to end. -/
def Event.ending (name : Value) (site : Site) (tree : Option Tree) (stop : Int) : Event :=
  if tree.isSome then .matched name site.position stop else .failed name site.position

/-- Whether what a rule application tells is its own block, which ends as it does. Other tasks tell anything. -/
def Task.Whole : Task → State → List Message → Option Tree → State → Prop
  | .fresh name id _, s, messages, tree, s' =>
    ∃ inside, messages = ⟨s.depth, .parsing name s.position⟩ ::
      (inside ++ [⟨s.depth, .ending name ⟨id, s.position⟩ tree s'.position⟩])
  | _, _, _, _, _ => True

section

variable {setting : Setting} {s s' s1 s2 : State} {name : Value} {id : Nat} {site : Site} {e part body : Expr}
  {tree : Option Tree} {position reached : Int} {around : List (Value × Site)}
  {messages inside later : List Message}

theorem State.flags_congr (same : s'.known site = s.known site) : s'.flags site = s.flags site := by
  rw [flags, flags, same]

theorem State.flags_le_one (s : State) (site : Site) : s.flags site ≤ 1 := by
  rw [flags]
  split <;> simp

/-- A longer seed in the place of the one that was there flags nothing. -/
theorem State.flags_regrown (ready : (Task.growth name id body position).Ready setting s)
    {seed : Option Tree} {result : Tree} (known : s.known ⟨id, position⟩ = some (.resolved seed reached))
    (orderly : Orderly setting (.expr body) (s.moved position) (.done (some result)) s1) (site : Site) :
    ((s1.told setting (.grew name position s1.position)).put ⟨id, position⟩
      (.ofResult position (some result) s1.position)).flags site = s1.flags site := by
  have told := orderly.proper.told (.grew name position s1.position)
  have planted := @State.Proper.known_put _ _ ⟨id, position⟩ ready.inside.1 ready.inside.2 told
    (.ofResult position (some result) s1.position) site
  by_cases same : site = ⟨id, position⟩
  · have seeded := orderly.keeps ⟨id, position⟩ _ (by simp [Task.own?]) known
    subst same
    rw [State.flags, State.flags, planted, if_pos rfl, seeded]
    rfl
  · exact State.flags_congr (by rw [planted, if_neg same, State.known_told])

theorem Event.ending_closes (name : Value) (site : Site) (tree : Option Tree) (stop : Int) :
    ending name site tree stop = .failed name site.position ∨
      ∃ stop', ending name site tree stop = .matched name site.position stop' := by
  cases tree with
  | none => exact .inl rfl
  | some => exact .inr ⟨stop, rfl⟩

theorem Event.ending_closed (name : Value) (site : Site) (tree : Option Tree) :
    ending name site tree (s.closed setting name site tree).position = ending name site tree s.position := by
  cases tree with
  | none => rfl
  | some =>
    rw [State.position_closed]
    rfl

theorem State.Covered.after (covered : s.Covered around) (tidies : s.Tidies s') : s'.Covered around := by
  intro site detected known
  obtain ⟨before, marked⟩ := tidies site detected known
  exact covered site before marked

theorem State.Covered.opened (proper : s.Proper setting) (covered : s.Covered around) (name : Value) (id : Nat) :
    (s.opened setting name id).Covered ((name, ⟨id, s.position⟩) :: around) := by
  intro site detected known
  rw [proper.known_opened] at known
  rw [List.map_cons, List.mem_cons]
  split at known
  · exact .inl (by assumption)
  · exact .inr (covered site detected known)

/-! ### The trace -/

section

variable (debug : setting.options.debug = true)
include debug

theorem State.trace_told (event : Event) :
    (s.told setting event).trace.toList = s.trace.toList ++ [⟨s.depth, event⟩] := by
  simp [told, debug]

theorem State.trace_opened :
    (s.opened setting name id).trace.toList = s.trace.toList ++ [⟨s.depth, .parsing name s.position⟩] :=
  State.trace_told debug _

theorem State.trace_closed (tree : Option Tree) :
    (s.closed setting name site tree).trace.toList =
      s.trace.toList ++ [⟨s.depth - 1, .ending name site tree s.position⟩] := by
  have forgets (t : State) : (if setting.options.memoize then t else t.drop site).trace = t.trace := by
    split <;> rfl
  rw [closed, forgets]
  cases tree <;> exact State.trace_told debug _

end

theorem State.trace_restored (back : Bool) : (s.restored back position).trace = s.trace := by
  cases back <;> rfl

namespace Tells

/-- A task that does nothing but move the cursor tells nothing. -/
theorem silent : Tells setting around (.expr e) s [] (s.moved position) where
  trace := (List.append_nil _).symm
  bracketed := .nil
  flags _ _ := Nat.zero_add _
  stops := rfl

theorem restored (tells : Tells setting around (.expr part) s messages s') (back : Bool) :
    Tells setting around (.expr e) s messages (s'.restored back position) where
  trace := by rw [State.trace_restored, tells.trace]
  bracketed := tells.bracketed
  flags site held := by rw [tells.flags site held, State.flags_congr (s'.known_restored back position site)]
  stops := tells.stops

/-- What is told first, and what is told after it on the same level. -/
theorem append (first : Tells setting around (.expr part) s inside s1)
    (second : Tells setting around (.expr e) s1 later s2) (depth : s1.depth = s.depth)
    (keeps : s.Keeps s1 none) : Tells setting around (.expr body) s (inside ++ later) s2 where
  trace := by rw [second.trace, first.trace, List.append_assoc]
  bracketed := first.bracketed.append (depth ▸ second.bracketed)
  flags site held := by
    have counted := first.flags site held
    have counted' := second.flags site (keeps.isSome held)
    rw [Grammar.revisits_append, List.count_append]
    omega
  stops := by
    have first : stopsAt s.depth inside = [] := first.stops
    have second : stopsAt s1.depth later = [] := second.stops
    rw [depth] at second
    simp [Task.Stops, first, second]

/-- A rule that comes back to its marker tells so if it raises the flag. -/
theorem flagged (debug : setting.options.debug = true) (proper : s.Proper setting) {detected : Bool}
    (covered : s.Covered around) (found : setting.grammar.lookup name = .ok (id, body))
    (known : s.known ⟨id, s.position⟩ = some (.marker detected)) :
    ∃ messages, Tells setting around (.expr e) s messages
      (s.flagged setting name ⟨id, s.position⟩ detected) := by
  cases detected with
  | true => exact ⟨[], silent⟩
  | false =>
    have revisits : setting.grammar.revisits [⟨s.depth, .leftRecursion name s.position⟩] = [⟨id, s.position⟩] := by
      simp [Grammar.revisits, Event.revisit?, found]
    refine ⟨_, State.trace_told debug _, .revisit found (covered _ _ known) .nil, fun site _ => ?_, rfl⟩
    rw [revisits]
    by_cases same : site = ⟨id, s.position⟩
    · subst same
      simp [State.flags, proper.known_flagged, known]
    · have apart : (s.flagged setting name ⟨id, s.position⟩ false).known site = s.known site := by
        rw [proper.known_flagged, if_neg (by simp [same])]
      rw [State.flags_congr apart, List.count_eq_zero_of_not_mem (by simpa using same), Nat.zero_add]

/-- In a rule application what is told while its definition is evaluated flags no other site. -/
theorem flags_outside (ready : (Task.fresh name id body).Ready setting s)
    (orderly : Orderly setting (.expr body) (s.opened setting name id) (.done tree) s1)
    (tells : Tells setting around (.expr body) (s.opened setting name id) inside s1)
    (other : site ≠ ⟨id, s.position⟩) (held : s.known site ≠ none) (entry : Entry) :
    (setting.grammar.revisits inside).count site + s.flags site = (s1.put ⟨id, s.position⟩ entry).flags site ∧
      (s1.put ⟨id, s.position⟩ entry).known site ≠ none := by
  obtain ⟨low, high⟩ := ready.site_inside
  have before : (s.opened setting name id).known site = s.known site := by
    rw [ready.proper.known_opened, if_neg other]
  have after : (s1.put ⟨id, s.position⟩ entry).known site = s1.known site := by
    rw [orderly.proper.known_put low high, if_neg other]
  rw [← before] at held
  have counted := tells.flags site held
  rw [State.flags_congr before] at counted
  exact ⟨by rw [counted, State.flags_congr after], by rw [after]; exact orderly.keeps.isSome held⟩

/-- A rule application tells a block, with what is told in the first evaluation of its definition and what
    is told until it is closed. -/
theorem block (debug : setting.options.debug = true) (ready : (Task.fresh name id body).Ready setting s)
    (found : setting.grammar.lookup name = .ok (id, body)) {first : Option Tree}
    (orderly : Orderly setting (.expr body) (s.opened setting name id) (.done first) s1)
    (tells : Tells setting ((name, ⟨id, s.position⟩) :: around) (.expr body) (s.opened setting name id)
      inside s1) {entry : Entry} (depth : s2.depth = s.depth + 1)
    (trace : s2.trace.toList = s1.trace.toList ++ later)
    (bracketed : Bracketed setting.grammar ((name, ⟨id, s.position⟩) :: around) (s.depth + 1) later)
    (flags : ∀ site, (s1.put ⟨id, s.position⟩ entry).known site ≠ none →
      (setting.grammar.revisits later).count site + (s1.put ⟨id, s.position⟩ entry).flags site =
        s2.flags site)
    (truthful : Truthful setting.grammar name ⟨id, s.position⟩ (s.depth + 1) (inside ++ later)
      (.ending name ⟨id, s.position⟩ tree s2.position)) :
    Tells setting around (.fresh name id body) s
      (⟨s.depth, .parsing name s.position⟩ ::
        (inside ++ later ++ [⟨s.depth, .ending name ⟨id, s.position⟩ tree s2.position⟩]))
      (s2.closed setting name ⟨id, s.position⟩ tree) := by
  have whole := tells.bracketed.append (State.depth_opened ▸ bracketed)
  rw [State.depth_opened] at whole
  refine ⟨?_, .block found whole truthful .nil, fun site held => ?_, ?_⟩
  · have lower : s2.depth - 1 = s.depth := by omega
    rw [State.trace_closed debug, trace, tells.trace, State.trace_opened debug, lower]
    simp
  · have other : site ≠ ⟨id, s.position⟩ := fun same => held (same ▸ ready.2.2)
    have closed : (s2.closed setting name ⟨id, s.position⟩ tree).known site = s2.known site := by
      rw [State.known_closed tree ready.site_inside.1, if_neg fun same => other same.2]
    obtain ⟨counted, kept⟩ := tells.flags_outside ready orderly other held entry
    have counted' := flags site kept
    have ending : setting.grammar.revisits [⟨s.depth, .ending name ⟨id, s.position⟩ tree s2.position⟩] = [] := by
      cases tree <;> rfl
    show (setting.grammar.revisits (inside ++ later ++ _)).count site + _ = _
    rw [State.flags_congr closed, Grammar.revisits_append, ending, List.append_nil, Grammar.revisits_append,
      List.count_append]
    omega
  · have ending : stopsAt s.depth [⟨s.depth, .ending name ⟨id, s.position⟩ tree s2.position⟩] = [] := by
      cases tree <;> rfl
    show stopsAt s.depth (inside ++ later ++ _) = []
    rw [stopsAt_append, ending, whole.stopsAt_eq_nil, List.append_nil]

/-- The rule comes back to the site of its own marker as often as that is flagged. -/
theorem count_own (proper : s.Proper setting)
    (tells : Tells setting around (.expr body) (s.opened setting name id) inside s1) :
    (setting.grammar.revisits inside).count ⟨id, s.position⟩ = s1.flags ⟨id, s.position⟩ := by
  have marked : (s.opened setting name id).known ⟨id, s.position⟩ = some (.marker false) := by
    rw [proper.known_opened, if_pos rfl]
  have unflagged : (s.opened setting name id).flags ⟨id, s.position⟩ = 0 := by rw [State.flags, marked]
  rw [← tells.flags _ (by simp [marked]), unflagged, Nat.add_zero]

/-- A rule application without growth tells a block. -/
theorem settled (debug : setting.options.debug = true) (ready : (Task.fresh name id body).Ready setting s)
    (found : setting.grammar.lookup name = .ok (id, body))
    (orderly : Orderly setting (.expr body) (s.opened setting name id) (.done tree) s1)
    (tells : Tells setting ((name, ⟨id, s.position⟩) :: around) (.expr body) (s.opened setting name id)
      inside s1) :
    let s2 := (s1.put ⟨id, s.position⟩ (.ofResult s.position tree s1.position)).closed setting name
      ⟨id, s.position⟩ tree
    ∃ messages, Tells setting around (.fresh name id body) s messages s2 ∧
      (Task.fresh name id body).Whole s messages tree s2 := by
  have depth : s1.depth = s.depth + 1 := by rw [orderly.depth tree rfl, State.depth_opened]
  have still : stopsAt (s.depth + 1) inside = [] := State.depth_opened (s := s) ▸ tells.stops
  have quiet : s1.trace.toList = s1.trace.toList ++ [] := (List.append_nil _).symm
  refine ⟨_, tells.block debug ready found orderly depth quiet .nil (fun _ _ => Nat.zero_add _) ?_, _,
    by rw [Event.ending_closed]⟩
  exact .of_growth (Event.ending_closes _ _ _ _) (tells.count_own ready.proper ▸ State.flags_le_one _ _) still
    rfl (fun grown => absurd rfl grown) .nil (fun stop last => by cases last)

/-- A rule application with growth tells a block. -/
theorem ripened (debug : setting.options.debug = true) (ready : (Task.fresh name id body).Ready setting s)
    (found : setting.grammar.lookup name = .ok (id, body)) {seed : Tree}
    (orderly : Orderly setting (.expr body) (s.opened setting name id) (.done (some seed)) s1)
    (flagged : s1.known ⟨id, s.position⟩ = some (.marker true))
    (tells : Tells setting ((name, ⟨id, s.position⟩) :: around) (.expr body) (s.opened setting name id)
      inside s1)
    (growth : Orderly setting (.growth name id body s.position)
      (s1.put ⟨id, s.position⟩ (.ofResult s.position (some seed) s1.position)) (.done tree) s2)
    (grows : Tells setting ((name, ⟨id, s.position⟩) :: around) (.growth name id body s.position)
      (s1.put ⟨id, s.position⟩ (.ofResult s.position (some seed) s1.position)) later s2) :
    let s3 := s2.closed setting name ⟨id, s.position⟩ tree
    ∃ messages, Tells setting around (.fresh name id body) s messages s3 ∧
      (Task.fresh name id body).Whole s messages tree s3 := by
  obtain ⟨low, high⟩ := ready.site_inside
  have depth : s1.depth = s.depth + 1 := by rw [orderly.depth _ rfl, State.depth_opened]
  have still : stopsAt (s.depth + 1) inside = [] := State.depth_opened (s := s) ▸ tells.stops
  have planted := orderly.proper.known_put_self low high (.ofResult s.position (some seed) s1.position)
  obtain ⟨matched, kept⟩ := growth.grown _ tree rfl rfl
  have spared : (setting.grammar.revisits later).count ⟨id, s.position⟩ = 0 := by
    have counted := grows.flags _ (by rw [planted]; simp)
    rw [State.flags, planted, State.flags, kept] at counted
    exact counted
  have ripe : ⟨id, s.position⟩ ∈ setting.grammar.revisits inside := by
    rw [← List.count_pos_iff, tells.count_own ready.proper, State.flags, flagged]
    exact Nat.one_pos
  obtain ⟨seed', reached, known, longer, ends⟩ := grows.stops
  rw [State.depth_put, depth] at longer ends
  have bracketed := grows.bracketed
  rw [State.depth_put, depth] at bracketed
  refine ⟨_, tells.block debug ready found orderly ?_ grows.trace bracketed grows.flags ?_, _,
    by rw [Event.ending_closed]⟩
  · rw [growth.depth tree rfl, State.depth_put, depth]
  · refine .of_growth (Event.ending_closes _ _ _ _)
      (tells.count_own ready.proper ▸ State.flags_le_one _ _) still spared (fun _ => ripe) longer.of_cons ?_
    intro stop last
    rw [List.getLastD_eq_getLast?, last] at ends
    rw [Event.ending, if_pos matched, ends]
    rfl

/-- The last round of growth tells what is told in it. -/
theorem grown {seed : Option Tree} (known : s.known ⟨id, position⟩ = some (.resolved seed reached))
    (tells : Tells setting around (.expr body) (s.moved position) messages s1) :
    Tells setting around (.growth name id body position) s messages (s1.moved reached) := by
  have still : stopsAt s.depth messages = [] := tells.stops
  refine ⟨tells.trace, tells.bracketed, tells.flags, seed, reached, known, ?_, ?_⟩
  · rw [still]
    exact List.pairwise_singleton _ _
  · rw [still]
    rfl

/-- Another round tells how far the seed has grown in it, and what is told in the following ones. -/
theorem growing (debug : setting.options.debug = true)
    (ready : (Task.growth name id body position).Ready setting s)
    (own : around.head? = some (name, ⟨id, position⟩)) {seed : Option Tree} {result : Tree}
    (known : s.known ⟨id, position⟩ = some (.resolved seed reached)) (longer : reached < s1.position)
    (orderly : Orderly setting (.expr body) (s.moved position) (.done (some result)) s1)
    (tells : Tells setting around (.expr body) (s.moved position) inside s1)
    (grows : Tells setting around (.growth name id body position)
      ((s1.told setting (.grew name position s1.position)).put ⟨id, position⟩
        (.ofResult position (some result) s1.position)) later s2) :
    Tells setting around (.growth name id body position) s
      (inside ++ ⟨s.depth, .grew name position s1.position⟩ :: later) s2 := by
  obtain ⟨low, high⟩ := ready.inside
  have depth : s1.depth = s.depth := orderly.depth _ rfl
  have told := orderly.proper.told (.grew name position s1.position)
  have planted := fun other => @State.Proper.known_put _ _ ⟨id, position⟩ low high told
    (.ofResult position (some result) s1.position) other
  have bracketed := grows.bracketed
  obtain ⟨seed', reached', known', further, ends⟩ := grows.stops
  rw [State.depth_put, State.depth_told, depth] at bracketed further ends
  refine ⟨?_, tells.bracketed.append (.grew own bracketed), fun site held => ?_, ?_⟩
  · have before : ((s1.told setting (.grew name position s1.position)).put ⟨id, position⟩
        (.ofResult position (some result) s1.position)).trace.toList =
        s1.trace.toList ++ [⟨s1.depth, .grew name position s1.position⟩] := State.trace_told debug _
    rw [grows.trace, before, tells.trace, depth]
    simp [State.moved]
  · have kept : s1.known site ≠ none := orderly.keeps.isSome held
    have flags := State.flags_regrown ready known orderly site
    have counted : _ + s.flags site = s1.flags site := tells.flags site held
    have counted' := grows.flags site (by rw [planted]; split <;> simp [kept])
    have revisits : setting.grammar.revisits (⟨s.depth, .grew name position s1.position⟩ :: later) =
        setting.grammar.revisits later := rfl
    rw [Grammar.revisits_append, List.count_append, revisits]
    omega
  · have longest : some (Entry.resolved (some result) s1.position) = some (.resolved seed' reached') := by
      rw [← known', planted, if_pos rfl]
      rfl
    cases longest
    have still : stopsAt s.depth inside = [] := tells.stops
    have stops : stopsAt s.depth (inside ++ ⟨s.depth, .grew name position s1.position⟩ :: later) =
        s1.position :: stopsAt s.depth later := by
      rw [stopsAt_append, still]
      exact List.filterMap_cons_some (if_pos rfl)
    refine ⟨seed, reached, known, ?_, ?_⟩
    · rw [stops]
      exact List.pairwise_cons_cons_iff_of_trans.mpr ⟨longer, further⟩
    · rw [stops, ends, List.getLastD_cons]

end Tells

/-- A rule of which nothing is known is applied afresh. -/
theorem Runs.fresh {result : Result} (runs : Runs setting (.expr (.rule name)) s result s')
    (found : setting.grammar.lookup name = .ok (id, body)) (unknown : s.known ⟨id, s.position⟩ = none) :
    Runs setting (.fresh name id body) s result s' := by
  cases runs with
  | stop first | go first => cases first
  | unknown missing => cases found.symm.trans missing
  | marked found' known | remembered found' known =>
    cases found.symm.trans found'
    cases unknown.symm.trans known
  | applied found' _ runs =>
    cases found.symm.trans found'
    exact runs

/-- Every run that ends without a fault tells what it does, inside of any rule applications that cover its
    markers. -/
theorem Runs.tells (debug : setting.options.debug = true) {task : Task} {result : Result}
    (runs : Runs setting task s result s') (ready : task.Ready setting s) (ended : result = .done tree)
    (covered : s.Covered around) (inside : task.Inside setting.grammar around) :
    ∃ messages, Tells setting around task s messages s' ∧ task.Whole s messages tree s' := by
  induction runs generalizing tree around with
  | terminal matched =>
    obtain ⟨position, rfl⟩ := literal_moves ready matched
    exact ⟨[], .silent, trivial⟩
  | bare | plain | unknown | refused | broken | withered | stunted => cases ended
  | nothing | never => exact ⟨[], .silent, trivial⟩
  | stop _ _ after ih =>
    subst ended
    obtain ⟨tree', rfl⟩ := Expr.done_of_after_stop after
    obtain ⟨messages, tells, _⟩ := ih ready rfl covered trivial
    exact ⟨messages, tells.restored _, trivial⟩
  | @go e part s result s1 next back trees _ _ first runs after _ ihPart ihNext =>
    obtain ⟨last, rfl⟩ := Outcome.prepend_eq_done ended
    obtain ⟨tree', rfl⟩ := Expr.done_of_after_go after
    have orderly := runs.orderly ready
    have cleans := (runs.cleans ready rfl).restored back s.position
    obtain ⟨before, first, _⟩ := ihPart ready rfl covered trivial
    obtain ⟨later, second, _⟩ := ihNext (Task.Ready.next ready orderly back next) rfl
      (covered.after cleans.markers) trivial
    have keeps : s.Keeps (s1.restored back s.position) none :=
      orderly.keeps.trans (.of_known fun _ _ => State.known_restored ..)
    have depth : (s1.restored back s.position).depth = s.depth := by
      rw [State.depth_restored, orderly.depth _ rfl]
    exact ⟨before ++ later, (first.restored (e := e) back).append second depth keeps, trivial⟩
  | marked found known =>
    obtain ⟨messages, tells⟩ := Tells.flagged debug ready covered found known
    exact ⟨messages, tells, trivial⟩
  | @remembered name id body tree next s _ _ =>
    have still : Tells setting around (.expr (.rule name)) s [] (s.moved s.position) := .silent
    exact ⟨[], still.restored _, trivial⟩
  | applied found unknown _ ih =>
    obtain ⟨messages, tells, _⟩ := ih (Task.Ready.applied ready found unknown) ended covered found
    exact ⟨messages, ⟨tells.trace, tells.bracketed, tells.flags, tells.stops⟩, trivial⟩
  | @settled name id body tree' detected s s1 _ runs _ _ ih =>
    cases ended
    obtain ⟨messages, tells, _⟩ := ih ready.opened rfl (covered.opened ready.proper name id) trivial
    exact tells.settled debug ready inside (runs.orderly ready.opened)
  | @ripened name id body seed tree' s s1 s2 _ runs flagged grows ihBody ihGrowth =>
    cases ended
    obtain ⟨low, high⟩ := ready.site_inside
    have orderly := runs.orderly ready.opened
    have opened := covered.opened ready.proper name id
    have planted := ready.planted orderly
    have stored := State.Cleans.put_result orderly.proper low high (by simp [flagged]) (some seed) s1.position
    obtain ⟨before, tells, _⟩ := ihBody ready.opened rfl opened trivial
    obtain ⟨later, grown, _⟩ := ihGrowth planted rfl
      ((opened.after (runs.cleans ready.opened rfl).markers).after stored.markers) rfl
    exact tells.ripened debug ready inside orderly flagged (grows.orderly planted) grown
  | grown known _ _ ih =>
    obtain ⟨messages, tells, _⟩ := ih ready.moved rfl covered trivial
    exact ⟨messages, tells.grown known, trivial⟩
  | @growing name id body position seed reached tree' s s1 ended' s2 known runs longer _ ihBody ihNext =>
    have orderly := runs.orderly ready.moved
    have cleans := (runs.cleans ready.moved rfl).trans (.regrown ready known orderly)
    obtain ⟨before, tells, _⟩ := ihBody ready.moved rfl covered trivial
    obtain ⟨later, grown, _⟩ := ihNext (ready.replanted orderly) ended
      (State.Covered.after covered cleans.markers) inside
    exact ⟨_, tells.growing debug ready inside known longer orderly grown, trivial⟩

end

/-- From any proper state without markers, at any depth, what an evaluation tells that ends without a fault
    is well bracketed: a block after the other. A rule of which nothing is known at the cursor tells one
    block, which ends as the evaluation does. -/
theorem trace_is_bracketed (setting : Setting) (debug : setting.options.debug = true) {s s' : State} {e : Expr}
    {tree : Option Tree} (proper : s.Proper setting)
    (unmarked : ∀ site detected, s.known site ≠ some (.marker detected))
    (ran : e.evaluate setting s = (.done tree, s')) :
    ∃ messages, s'.trace.toList = s.trace.toList ++ messages ∧
      Bracketed setting.grammar [] s.depth messages ∧
      ∀ name id body, e = .rule name → setting.grammar.lookup name = .ok (id, body) →
        s.known ⟨id, s.position⟩ = none → ∃ inside, messages = ⟨s.depth, .parsing name s.position⟩ ::
          (inside ++ [⟨s.depth, .ending name ⟨id, s.position⟩ tree s'.position⟩]) := by
  have runs := (runs_iff_evaluate proper).mpr ran
  have covered : s.Covered [] := fun site detected known => absurd known (unmarked site detected)
  obtain ⟨messages, tells, _⟩ := runs.tells debug proper rfl covered trivial
  refine ⟨messages, tells.trace, tells.bracketed, ?_⟩
  rintro name id body rfl found unknown
  have ready := Task.Ready.applied proper found unknown
  obtain ⟨block, told, whole⟩ := (runs.fresh found unknown).tells debug ready rfl covered found
  have same : messages = block := List.append_cancel_left (tells.trace.symm.trans told.trace)
  exact same ▸ whole

/-- The sum comes back to where it begins, and its seed grows once, to what it matches. -/
theorem sums_tell_of_growth :
    let setting : Setting := { sums.setting (.text #['1', '+', '1']) with options := { debug := true } }
    ∃ tree s', (Expr.rule defaultStart).evaluate setting (State.fresh 3) = (.done (some tree), s') ∧
      Bracketed setting.grammar [] 0 s'.trace.toList ∧
      setting.grammar.revisits s'.trace.toList = [⟨0, 0⟩] ∧ stopsAt 1 s'.trace.toList = [3] ∧
      ∃ inside, s'.trace.toList =
        ⟨0, .parsing defaultStart 0⟩ :: (inside ++ [⟨0, .matched defaultStart 0 3⟩]) := by
  intro setting
  have proper : (State.fresh 3).Proper setting := .fresh
  have unmarked (site : Site) (detected : Bool) : (State.fresh 3).known site ≠ some (.marker detected) := by
    simp [State.known, State.fresh, MemoTable.known_ofLength]
  have ended : ((Expr.rule defaultStart).evaluate setting (State.fresh 3)).1 =
      .done (some (.node [.leaf (.str "1"), .leaf (.str "+1")])) := by cbv
  have position : ((Expr.rule defaultStart).evaluate setting (State.fresh 3)).2.position = 3 := by cbv
  have revisits : setting.grammar.revisits
      ((Expr.rule defaultStart).evaluate setting (State.fresh 3)).2.trace.toList = [⟨0, 0⟩] := by cbv
  have stops : stopsAt 1 ((Expr.rule defaultStart).evaluate setting (State.fresh 3)).2.trace.toList = [3] := by
    cbv
  rcases same : (Expr.rule defaultStart).evaluate setting (State.fresh 3) with ⟨result, s'⟩
  rw [same] at ended position revisits stops
  obtain rfl : result = _ := ended
  obtain ⟨messages, told, bracketed, whole⟩ := trace_is_bracketed setting rfl proper unmarked same
  obtain ⟨inside, block⟩ := whole defaultStart 0 leftSum rfl rfl rfl
  obtain rfl : s'.trace.toList = messages := told
  rw [position] at block
  exact ⟨_, s', rfl, bracketed, revisits, stops, inside, block⟩

end SeedPeg
