import SeedPeg.Proofs.Balance
import SeedPeg.Proofs.Course

/-!
# The ledger of a run

A rule application is opened when its rule is applied where nothing is known, and its definition is
evaluated then and in every round of growth. Where results are kept, what a run adds to the account of
this is its `Ledger`, which the ledgers of its parts make up: a site that is opened is known ever after, so
it is not opened again, and each opening is one entry more in the memo table. A definition is evaluated at
a site once to begin with, once for every seed that is longer than the one before, and once in vain.
-/

namespace SeedPeg

/-! ## Openings and passes -/

/-- The rule and the site of an application that is opened. -/
def Moment.opening? (setting : Setting) : Moment → Option (Value × Site)
  | ⟨.fresh name id _, s⟩ =>
    if (setting.refusal name s).isNone then some (name, ⟨id, s.position⟩) else none
  | _ => none

/-- The site at which the definition of a rule is evaluated, for the first time or to grow a seed. -/
def Moment.pass? (setting : Setting) : Moment → Option Site
  | ⟨.growth _ id _ position, _⟩ => some ⟨id, position⟩
  | moment => (moment.opening? setting).map (·.2)

/-- The rules and the sites of the applications that are opened, in order. -/
def Setting.openings (setting : Setting) (moments : List Moment) : List (Value × Site) :=
  moments.filterMap (Moment.opening? setting)

/-- The sites at which definitions are evaluated, in order. -/
def Setting.passes (setting : Setting) (moments : List Moment) : List Site :=
  moments.filterMap (Moment.pass? setting)

/-- The rule and the position of a message that a rule is applied. -/
def Message.parsing? : Message → Option (Value × Int)
  | ⟨_, .parsing name position⟩ => some (name, position)
  | _ => none

/-- The rules and the positions that the trace tells to be applied, in order. -/
def State.parsings (s : State) : List (Value × Int) := s.trace.toList.filterMap Message.parsing?

section

variable {setting : Setting} {s s' s1 : State} {own : Option Site} {site : Site} {name : Value} {id : Nat}
  {body : Expr} {position : Int} {moment : Moment} {moments before after inner later : List Moment}

@[simp] theorem Setting.openings_append :
    setting.openings (before ++ after) = setting.openings before ++ setting.openings after :=
  List.filterMap_append

@[simp] theorem Setting.passes_append :
    setting.passes (before ++ after) = setting.passes before ++ setting.passes after :=
  List.filterMap_append

theorem State.parsings_told {event : Event} (other : ∀ name position, event ≠ .parsing name position) :
    (s.told setting event).parsings = s.parsings := by
  simp only [told]
  split
  · cases event <;> simp [parsings, Message.parsing?] at other ⊢
  · rfl

theorem State.parsings_opened (debug : setting.options.debug = true) :
    (s.opened setting name id).parsings = s.parsings ++ [(name, s.position)] := by
  simp [opened, put, told, debug, parsings, Message.parsing?]

theorem State.parsings_closed {tree : Option Tree} :
    (s.closed setting name site tree).parsings = s.parsings := by
  let lower := { s with depth := s.depth - 1 }
  cases tree with
  | none =>
    have told : ((lower.moved site.position).told setting (.failed name site.position)).parsings =
        s.parsings := parsings_told (by simp)
    simp only [closed]
    split <;> exact told
  | some tree =>
    have told : (lower.told setting (.matched name site.position s.position)).parsings = s.parsings :=
      parsings_told (by simp)
    simp only [closed]
    split <;> exact told

theorem Moment.pass?_of_opening? {opening : Value × Site} (opens : moment.opening? setting = some opening) :
    moment.pass? setting = some opening.2 := by
  obtain ⟨task, s⟩ := moment
  cases task with
  | expr | growth => cases opens
  | fresh => simp [pass?, opens]

theorem Setting.mem_passes {opening : Value × Site} (opens : opening ∈ setting.openings moments) :
    opening.2 ∈ setting.passes moments := by
  obtain ⟨moment, member, opened⟩ := List.mem_filterMap.mp opens
  exact List.mem_filterMap.mpr ⟨moment, member, Moment.pass?_of_opening? opened⟩

/-! ## The ledger of a run -/

/-- What a run adds to the account of what has been opened and evaluated, at all sites but its own. -/
structure Ledger (setting : Setting) (own : Option Site) (s : State) (moments : List Moment) (s' : State) :
    Prop where
  keeps : ∀ site, s.known site ≠ none → s'.known site ≠ none
  size : s'.memo.size = s.memo.size + (setting.openings moments).length
  sizes : ∀ (index : Nat) moment, moments[index]? = some moment →
    moment.state.memo.size = s.memo.size + (setting.openings (moments.take index)).length
  told : setting.options.debug = true →
    s'.parsings = s.parsings ++ (setting.openings moments).map fun opening => (opening.1, opening.2.position)
  opened : ∀ opening ∈ setting.openings moments, s.known opening.2 = none ∧ s'.known opening.2 ≠ none
  once : ((setting.openings moments).map (·.2)).Nodup
  inside : ∀ site ∈ setting.passes moments, site.id < setting.grammar.size ∧ 0 ≤ site.position ∧
    site.position ≤ setting.input.size
  spared : ∀ site ∈ setting.passes moments, own ≠ some site → s.known site = none ∧ s'.known site ≠ none ∧
    (setting.passes moments).count site ≤ setting.input.size - site.position + 2

/-- Whether at the site of a seed the definition is evaluated at most as often as the seed can become
    longer, and once in vain. -/
def Setting.Sparing (setting : Setting) (own : Option Site) (s : State) (moments : List Moment) : Prop :=
  ∀ site seed reached, own = some site → s.known site = some (.resolved seed reached) →
    (setting.passes moments).count site ≤ setting.input.size - reached + 1

theorem Setting.Sparing.nowhere : setting.Sparing none s moments := by
  intro _ _ _ own
  cases own

namespace Ledger

theorem still (keeps : ∀ site, s.known site ≠ none → s'.known site ≠ none)
    (size : s'.memo.size = s.memo.size) (told : s'.parsings = s.parsings) :
    Ledger setting own s [] s' where
  keeps := keeps
  size := size
  sizes := by simp
  told _ := by simp [Setting.openings, told]
  opened := by simp [Setting.openings]
  once := by simp [Setting.openings]
  inside := by simp [Setting.passes]
  spared := by simp [Setting.passes]

theorem trans (first : Ledger setting own s before s1) (second : Ledger setting own s1 after s') :
    Ledger setting own s (before ++ after) s' where
  keeps site known := second.keeps site (first.keeps site known)
  size := by
    have one := first.size
    have other := second.size
    simp only [Setting.openings_append, List.length_append]
    omega
  sizes index moment here := by
    rw [List.take_append, Setting.openings_append, List.length_append]
    rw [List.getElem?_append] at here
    split at here
    · rename_i inside
      have none : after.take (index - before.length) = [] := by
        rw [Nat.sub_eq_zero_of_le (Nat.le_of_lt inside), List.take_zero]
      simpa [none, Setting.openings] using first.sizes index moment here
    · rename_i outside
      have size := first.size
      have later := second.sizes _ moment here
      rw [List.take_of_length_le (by omega)]
      omega
  told debug := by simp [second.told debug, first.told debug]
  opened opening member := by
    rcases List.mem_append.mp (Setting.openings_append ▸ member) with early | late
    · obtain ⟨unknown, known⟩ := first.opened opening early
      exact ⟨unknown, second.keeps _ known⟩
    · obtain ⟨unknown, known⟩ := second.opened opening late
      exact ⟨by_contra fun held => first.keeps _ held unknown, known⟩
  once := by
    rw [Setting.openings_append, List.map_append]
    refine first.once.append second.once fun site early late => ?_
    obtain ⟨opening, member, rfl⟩ := List.mem_map.mp early
    obtain ⟨other, member', same⟩ := List.mem_map.mp late
    have unknown := (second.opened other member').1
    rw [same] at unknown
    exact (first.opened opening member).2 unknown
  inside site member := by
    rcases List.mem_append.mp (Setting.passes_append ▸ member) with early | late
    · exact first.inside site early
    · exact second.inside site late
  spared site member other := by
    rw [Setting.passes_append, List.count_append]
    rcases List.mem_append.mp (Setting.passes_append ▸ member) with early | late
    · obtain ⟨unknown, known, few⟩ := first.spared site early other
      have absent : site ∉ setting.passes after := fun late => known (second.spared site late other).1
      rw [List.count_eq_zero_of_not_mem absent]
      exact ⟨unknown, second.keeps site known, few⟩
    · obtain ⟨unknown, known, few⟩ := second.spared site late other
      have absent : site ∉ setting.passes before := fun early =>
        (first.spared site early other).2.1 unknown
      rw [List.count_eq_zero_of_not_mem absent]
      exact ⟨by_contra fun held => first.keeps site held unknown, known, by simpa using few⟩

theorem quietly (first : Ledger setting own s moments s1) (second : Ledger setting own s1 [] s') :
    Ledger setting own s moments s' := by
  simpa using first.trans second

theorem sizes_single {task : Task} (index : Nat) (moment : Moment)
    (here : [(⟨task, s⟩ : Moment)][index]? = some moment) : moment.state.memo.size =
      s.memo.size + (setting.openings ([(⟨task, s⟩ : Moment)].take index)).length := by
  rw [List.getElem?_singleton] at here
  split at here
  · rename_i first
    cases here
    simp [first, Setting.openings]
  · cases here

/-- A moment that opens nothing and evaluates no definition. -/
theorem single {task : Task} (none : Moment.pass? setting ⟨task, s⟩ = none) :
    Ledger setting own s [⟨task, s⟩] s := by
  have opens : Moment.opening? setting ⟨task, s⟩ = .none := by
    cases task with
    | fresh => simpa [Moment.pass?] using none
    | expr | growth => rfl
  have openings : setting.openings [⟨task, s⟩] = [] := by simp [Setting.openings, opens]
  have passes : setting.passes [⟨task, s⟩] = [] := by simp [Setting.passes, none]
  exact ⟨fun _ known => known, by simp [openings], sizes_single, by simp [openings], by simp [openings],
    by simp [openings], by simp [passes], by simp [passes]⟩

theorem cons {e : Expr} (ledger : Ledger setting own s moments s') :
    Ledger setting own s (⟨.expr e, s⟩ :: moments) s' :=
  (single rfl).trans ledger

theorem anything (ledger : Ledger setting none s moments s') : Ledger setting own s moments s' :=
  { ledger with spared := fun site member _ => ledger.spared site member (by simp) }

/-- Where something is known before a run, no definition is evaluated in it, but that of its own. -/
theorem count_eq_zero (ledger : Ledger setting own s moments s') (other : own ≠ some site)
    (known : s.known site ≠ none) : (setting.passes moments).count site = 0 :=
  List.count_eq_zero_of_not_mem fun member => known (ledger.spared site member other).1

theorem moved (position : Int) : Ledger setting own s [] (s.moved position) :=
  .still (fun _ known => known) rfl rfl

theorem restored (back : Bool) (position : Int) : Ledger setting own s [] (s.restored back position) := by
  cases back with
  | true => exact .moved position
  | false => exact .still (fun _ known => known) rfl rfl

theorem tells {event : Event} (other : ∀ name position, event ≠ .parsing name position) :
    Ledger setting own s [] (s.told setting event) :=
  .still (fun site known => by simpa using known) (by simp) (State.parsings_told other)

/-- An entry in the place of another. -/
theorem stored (proper : s.Proper setting) (low : 0 ≤ site.position)
    (high : site.position ≤ setting.input.size) (held : s.known site ≠ none) (entry : Entry) :
    Ledger setting own s [] (s.put site entry) := by
  refine .still (fun other known => ?_) (proper.size_put low high held entry) rfl
  rw [proper.known_put low high]
  split <;> simp [known]

theorem flagged (proper : s.Proper setting) {detected : Bool}
    (found : s.known ⟨id, s.position⟩ = some (.marker detected)) :
    Ledger setting own s [] (s.flagged setting name ⟨id, s.position⟩ detected) := by
  cases detected with
  | true => exact .still (fun _ known => known) rfl rfl
  | false =>
    have told : Ledger setting own s [] (s.told setting (.leftRecursion name s.position)) := tells (by simp)
    exact told.quietly (@stored setting _ _ ⟨id, s.position⟩ (proper.told _) proper.low proper.high
      (by simp [found]) (.marker true))

theorem closed (remembers : setting.options.memoize = true) (low : 0 ≤ site.position)
    (tree : Option Tree) : Ledger setting own s [] (s.closed setting name site tree) := by
  refine .still (fun other known => ?_) (by rw [State.memo_closed, if_pos remembers])
    State.parsings_closed
  rwa [State.known_closed tree low, if_neg (by simp [remembers])]

/-- Opening a rule application adds an entry to the table, and a message to the trace. -/
theorem opening (ready : (Task.fresh name id body).Ready setting s)
    (accepted : setting.refusal name s = none) :
    Ledger setting (some ⟨id, s.position⟩) s [⟨.fresh name id body, s⟩] (s.opened setting name id) := by
  obtain ⟨proper, defined, unknown⟩ := ready
  have openings : setting.openings [⟨.fresh name id body, s⟩] = [(name, ⟨id, s.position⟩)] := by
    simp [Setting.openings, Moment.opening?, accepted]
  have passes : setting.passes [⟨.fresh name id body, s⟩] = [⟨id, s.position⟩] := by
    simp [Setting.passes, Moment.pass?, Moment.opening?, accepted]
  have held : (s.opened setting name id).known ⟨id, s.position⟩ = some (.marker false) := by
    rw [proper.known_opened, if_pos rfl]
  refine ⟨fun site known => ?_, ?_, sizes_single, fun debug => ?_, ?_, by simp [openings], ?_, ?_⟩
  · rw [proper.known_opened]
    split <;> simp [known]
  · rw [openings, proper.size_opened name unknown]
    rfl
  · rw [openings, State.parsings_opened debug]
    rfl
  · rw [openings]
    exact List.forall_mem_singleton.mpr ⟨unknown, by simp [held]⟩
  · rw [passes]
    exact List.forall_mem_singleton.mpr ⟨Grammar.id_lt_of_definition defined, proper.low, proper.high⟩
  · rw [passes]
    exact List.forall_mem_singleton.mpr fun other => absurd rfl other

/-- A round of growth evaluates the definition once more. -/
theorem round (ready : (Task.growth name id body position).Ready setting s) :
    Ledger setting (some ⟨id, position⟩) s [⟨.growth name id body position, s⟩] (s.moved position) := by
  have openings : setting.openings [⟨.growth name id body position, s⟩] = [] := rfl
  have passes : setting.passes [⟨.growth name id body position, s⟩] = [⟨id, position⟩] := rfl
  refine ⟨fun _ known => known, by simp [openings], sizes_single, ?_, by simp [openings],
    by simp [openings], ?_, ?_⟩
  · intro _
    simp only [openings, List.map_nil, List.append_nil]
    rfl
  · rw [passes]
    exact List.forall_mem_singleton.mpr
      ⟨Grammar.id_lt_of_definition ready.2.1, ready.inside.1, ready.inside.2⟩
  · rw [passes]
    exact List.forall_mem_singleton.mpr fun other => absurd rfl other

/-- The ledger of a rule application, once its definition is evaluated at its own site no more often than
    there is room for longer seeds. -/
theorem fresh (ready : (Task.fresh name id body).Ready setting s)
    (accepted : setting.refusal name s = none)
    (first : Ledger setting none (s.opened setting name id) inner s1)
    (second : Ledger setting (some ⟨id, s.position⟩) s1 later s')
    (few : (setting.passes later).count ⟨id, s.position⟩ ≤ setting.input.size - s.position + 1) :
    Ledger setting none s (⟨.fresh name id body, s⟩ :: (inner ++ later)) s' := by
  have whole := (opening ready accepted).trans (first.anything.trans second)
  have held : (s.opened setting name id).known ⟨id, s.position⟩ ≠ none := by
    simp [ready.proper.known_opened]
  have passes : setting.passes (⟨.fresh name id body, s⟩ :: (inner ++ later)) =
      ⟨id, s.position⟩ :: (setting.passes inner ++ setting.passes later) := by
    rw [← Setting.passes_append]
    simp [Setting.passes, Moment.pass?, Moment.opening?, accepted]
  refine { whole with spared := fun site member _ => ?_ }
  by_cases own : (⟨id, s.position⟩ : Site) = site
  · subst own
    refine ⟨ready.2.2, second.keeps _ (first.keeps _ held), ?_⟩
    rw [passes, List.count_cons_self, List.count_append, first.count_eq_zero (by simp) held]
    show _ ≤ setting.input.size - s.position + 2
    omega
  · exact whole.spared site member (by simpa using own)

/-- The ledger of a rule application without growth. -/
theorem settled (ready : (Task.fresh name id body).Ready setting s)
    (accepted : setting.refusal name s = none)
    (first : Ledger setting none (s.opened setting name id) inner s1)
    (second : Ledger setting (some ⟨id, s.position⟩) s1 [] s') :
    Ledger setting none s (⟨.fresh name id body, s⟩ :: inner) s' := by
  have high := ready.proper.high
  have few : (setting.passes []).count ⟨id, s.position⟩ ≤ setting.input.size - s.position + 1 := by
    rw [show setting.passes [] = [] from rfl, List.count_nil]
    omega
  simpa using fresh ready accepted first second few

/-- The ledger of a rule application with growth, up to its end. -/
theorem seeded {seed : Tree} (ready : (Task.fresh name id body).Ready setting s)
    (accepted : setting.refusal name s = none)
    (runs : Runs setting (.expr body) (s.opened setting name id) (.done (some seed)) s1)
    (flagged : s1.known ⟨id, s.position⟩ = some (.marker true))
    (first : Ledger setting none (s.opened setting name id) inner s1)
    (second : Ledger setting (some ⟨id, s.position⟩)
      (s1.put ⟨id, s.position⟩ (.ofResult s.position (some seed) s1.position)) later s')
    (sparing : setting.Sparing (some ⟨id, s.position⟩)
      (s1.put ⟨id, s.position⟩ (.ofResult s.position (some seed) s1.position)) later) :
    Ledger setting none s (⟨.fresh name id body, s⟩ :: (inner ++ later)) s' := by
  have orderly := runs.orderly ready.opened
  obtain ⟨low, high⟩ := ready.site_inside
  have held : s1.known ⟨id, s.position⟩ ≠ none := by simp [flagged]
  have stored := @stored setting s1 (some ⟨id, s.position⟩) ⟨id, s.position⟩ orderly.proper low high held
    (.ofResult s.position (some seed) s1.position)
  have few := sparing _ _ _ rfl (orderly.proper.known_put_self low high _)
  have forward : s.position ≤ s1.position := by
    simpa [Task.start, State.position_opened] using orderly.forward
  exact fresh ready accepted first (stored.trans second) (by omega)

/-- The ledger of a round of growth and what follows it. -/
theorem regrown {seed : Option Tree} {reached : Int} {tree : Tree}
    (ready : (Task.growth name id body position).Ready setting s)
    (known : s.known ⟨id, position⟩ = some (.resolved seed reached))
    (orderly : Orderly setting (.expr body) (s.moved position) (.done (some tree)) s1)
    (first : Ledger setting none (s.moved position) inner s1)
    (second : Ledger setting (some ⟨id, position⟩)
      ((s1.told setting (.grew name position s1.position)).put ⟨id, position⟩
        (.ofResult position (some tree) s1.position)) later s') :
    Ledger setting (some ⟨id, position⟩) s (⟨.growth name id body position, s⟩ :: (inner ++ later)) s' := by
  have told : Ledger setting (some ⟨id, position⟩) s1 []
      (s1.told setting (.grew name position s1.position)) := tells (by simp)
  have proper := orderly.proper.told (.grew name position s1.position)
  have stored := @stored setting _ (some ⟨id, position⟩) ⟨id, position⟩ proper ready.inside.1 ready.inside.2
    (by simp [orderly.keeps_seed known]) (.ofResult position (some tree) s1.position)
  exact (round ready).trans (first.anything.trans ((told.trans stored).trans second))

/-- How often a definition is evaluated in a round of growth and what follows it. -/
theorem count_growth (first : Ledger setting none (s.moved position) inner s1)
    (held : s.known ⟨id, position⟩ ≠ none) :
    (setting.passes (⟨.growth name id body position, s⟩ :: (inner ++ later))).count ⟨id, position⟩ =
      (setting.passes later).count ⟨id, position⟩ + 1 := by
  have passes : setting.passes (⟨.growth name id body position, s⟩ :: (inner ++ later)) =
      ⟨id, position⟩ :: (setting.passes inner ++ setting.passes later) := by
    rw [← Setting.passes_append]
    rfl
  rw [passes, List.count_cons_self, List.count_append, first.count_eq_zero (by simp) held, Nat.zero_add]

/-- In the last round of growth it is evaluated once. -/
theorem sparing_last (proper : s.Proper setting)
    (first : Ledger setting none (s.moved position) inner s1) :
    setting.Sparing (some ⟨id, position⟩) s (⟨.growth name id body position, s⟩ :: inner) := by
  intro site seed reached own known
  cases own
  have inside := (proper.results known).2.1
  have counted : (setting.passes (⟨.growth name id body position, s⟩ :: (inner ++ []))).count
      ⟨id, position⟩ = (setting.passes []).count ⟨id, position⟩ + 1 := first.count_growth (by simp [known])
  rw [List.append_nil] at counted
  rw [counted, show setting.passes [] = [] from rfl, List.count_nil]
  omega

/-- In another round it is evaluated once more than there is room for seeds that are longer still. -/
theorem sparing_round {seed : Option Tree} {reached : Int} {tree : Tree}
    (ready : (Task.growth name id body position).Ready setting s)
    (known : s.known ⟨id, position⟩ = some (.resolved seed reached))
    (proper : s1.Proper setting) (longer : reached < s1.position)
    (first : Ledger setting none (s.moved position) inner s1)
    (sparing : setting.Sparing (some ⟨id, position⟩)
      ((s1.told setting (.grew name position s1.position)).put ⟨id, position⟩
        (.ofResult position (some tree) s1.position)) later) :
    setting.Sparing (some ⟨id, position⟩) s
      (⟨.growth name id body position, s⟩ :: (inner ++ later)) := by
  intro site seed' reached' own known'
  cases own
  rw [known] at known'
  cases known'
  have few : (setting.passes later).count ⟨id, position⟩ ≤ setting.input.size - s1.position + 1 :=
    sparing _ _ _ rfl (@State.Proper.known_put_self setting _ ⟨id, position⟩ ready.inside.1 ready.inside.2
      (proper.told _) _)
  rw [first.count_growth (by simp [known])]
  omega

/-- The table never has fewer entries than before. -/
theorem grows (ledger : Ledger setting own s moments s') :
    (moments.map (·.state.memo.size) ++ [s'.memo.size]).Pairwise (· ≤ ·) := by
  rw [List.pairwise_append]
  refine ⟨?_, List.pairwise_singleton _ _, ?_⟩
  · rw [List.pairwise_map, List.pairwise_iff_getElem]
    intro index index' inside inside' earlier
    have size := ledger.sizes index _ (List.getElem?_eq_getElem inside)
    have size' := ledger.sizes index' _ (List.getElem?_eq_getElem inside')
    have fewer : (setting.openings (moments.take index)).length ≤
        (setting.openings (moments.take index')).length :=
      ((List.take_sublist_take_left (Nat.le_of_lt earlier)).filterMap _).length_le
    omega
  · intro size member last here
    obtain ⟨moment, held, rfl⟩ := List.mem_map.mp member
    obtain ⟨index, inside, rfl⟩ := List.getElem_of_mem held
    have size := ledger.sizes index _ (List.getElem?_eq_getElem inside)
    have size' := ledger.size
    have fewer : (setting.openings (moments.take index)).length ≤ (setting.openings moments).length :=
      ((List.take_sublist index moments).filterMap _).length_le
    rw [List.mem_singleton] at here
    omega

/-- No more applications are opened than there are rules and positions. -/
theorem few (ledger : Ledger setting own s moments s') :
    (setting.openings moments).length ≤ setting.grammar.size * (setting.input.size + 1) := by
  let place (site : Site) : Nat × Nat := (site.id, site.position.toNat)
  let sites := (setting.openings moments).map (·.2)
  have inside : ∀ site ∈ sites, site.id < setting.grammar.size ∧ 0 ≤ site.position ∧
      site.position ≤ setting.input.size := by
    intro site member
    obtain ⟨opening, opens, rfl⟩ := List.mem_map.mp member
    exact ledger.inside _ (Setting.mem_passes opens)
  have apart : (sites.map place).Nodup := by
    refine ledger.once.map_on fun site member site' member' same => ?_
    obtain ⟨sameId, samePlace⟩ := Prod.mk.inj same
    have low := (inside site member).2.1
    have low' := (inside site' member').2.1
    obtain ⟨id, position⟩ := site
    obtain ⟨id', position'⟩ := site'
    simp only [Site.mk.injEq] at *
    omega
  have among : (sites.map place).toFinset ⊆
      Finset.range setting.grammar.size ×ˢ Finset.range (setting.input.size + 1) := by
    intro point member
    obtain ⟨site, held, rfl⟩ := List.mem_map.mp (List.mem_toFinset.mp member)
    obtain ⟨defined, low, high⟩ := inside site held
    simp only [Finset.mem_product, Finset.mem_range, place]
    omega
  calc (setting.openings moments).length = (sites.map place).length := by simp [sites]
    _ = (sites.map place).toFinset.card := (List.toFinset_card_of_nodup apart).symm
    _ ≤ (Finset.range setting.grammar.size ×ˢ Finset.range (setting.input.size + 1)).card :=
      Finset.card_le_card among
    _ = setting.grammar.size * (setting.input.size + 1) := by simp

end Ledger

/-- Every run has a ledger; and at its own site growth evaluates the definition at most as often as the
    seed can become longer, and once in vain. -/
theorem Runs.ledger (remembers : setting.options.memoize = true) {task : Task} {result : Result}
    (runs : Runs setting task s result s') (ready : task.Ready setting s) :
    ∃ moments, Course setting ⟨task, s⟩ moments ∧ Ledger setting task.own? s moments s' ∧
      setting.Sparing task.own? s moments := by
  induction runs with
  | terminal matched =>
    obtain ⟨position, rfl⟩ := literal_moves ready matched
    exact ⟨_, .still rfl (by simp), .cons (.moved position), .nowhere⟩
  | bare | plain | nothing | never =>
    exact ⟨_, .still rfl (by simp), .single rfl, .nowhere⟩
  | stop first runs after ih =>
    obtain ⟨inner, course, ledger, _⟩ := ih ready
    exact ⟨_, .stop first runs after course, (Ledger.cons ledger).quietly (.restored _ _), .nowhere⟩
  | go first runs after _ ihPart ihNext =>
    obtain ⟨inner, course, ledger, _⟩ := ihPart ready
    obtain ⟨later, further, ledger', _⟩ := ihNext (Task.Ready.next ready (runs.orderly ready) _ _)
    exact ⟨_, .more (.part first) runs (.next after) course further,
      .cons ((ledger.quietly (.restored _ _)).trans ledger'), .nowhere⟩
  | unknown missing => exact ⟨_, .undeclared missing, .single rfl, .nowhere⟩
  | marked found known => exact ⟨_, .known found known, .cons (.flagged ready known), .nowhere⟩
  | remembered found known => exact ⟨_, .known found known, .cons (.restored _ _), .nowhere⟩
  | applied found unknown runs ih =>
    obtain ⟨inner, course, ledger, _⟩ := ih (Task.Ready.applied ready found unknown)
    exact ⟨_, .applied found unknown runs course, .cons ledger, .nowhere⟩
  | refused refused =>
    refine ⟨_, .refused refused, .single ?_, .nowhere⟩
    simp [Moment.pass?, Moment.opening?, refused]
  | broken accepted runs ih =>
    obtain ⟨inner, course, ledger, _⟩ := ih ready.opened
    exact ⟨_, .ended accepted runs (by simp) course,
      .settled ready accepted ledger (.still (fun _ known => known) rfl rfl), .nowhere⟩
  | @settled name id body tree detected s s1 accepted runs found unflagged ih =>
    obtain ⟨inner, course, ledger, _⟩ := ih ready.opened
    obtain ⟨low, high⟩ := ready.site_inside
    have stored := @Ledger.stored setting s1 (some ⟨id, s.position⟩) ⟨id, s.position⟩
      (runs.orderly ready.opened).proper low high (by simp [found]) (.ofResult s.position tree s1.position)
    refine ⟨_, .ended accepted runs (fun seed same => ?_) course,
      .settled ready accepted ledger (stored.quietly (.closed remembers low tree)), .nowhere⟩
    rcases unflagged with rfl | rfl
    · cases same
    · simp [found]
  | @ripened name id body seed tree s s1 s2 accepted runs flagged _ ihBody ihGrowth =>
    obtain ⟨inner, course, ledger, _⟩ := ihBody ready.opened
    obtain ⟨later, further, ledger', sparing⟩ := ihGrowth (ready.planted (runs.orderly ready.opened))
    have seeded := Ledger.seeded ready accepted runs flagged ledger ledger' sparing
    exact ⟨_, .more (.opened accepted) runs (.seeded flagged) course further,
      seeded.quietly (.closed remembers ready.site_inside.1 tree), .nowhere⟩
  | withered accepted runs flagged _ ihBody ihGrowth =>
    obtain ⟨inner, course, ledger, _⟩ := ihBody ready.opened
    obtain ⟨later, further, ledger', sparing⟩ := ihGrowth (ready.planted (runs.orderly ready.opened))
    exact ⟨_, .more (.opened accepted) runs (.seeded flagged) course further,
      .seeded ready accepted runs flagged ledger ledger' sparing, .nowhere⟩
  | grown known runs short ih =>
    obtain ⟨inner, course, ledger, _⟩ := ih ready.moved
    refine ⟨_, .stopped known runs (fun tree same => ?_) course,
      (Ledger.round ready).trans (ledger.anything.quietly (.moved _)),
      ledger.sparing_last ready.proper⟩
    cases same
    exact short.resolve_left (by simp)
  | growing known runs longer _ ihBody ihNext =>
    obtain ⟨inner, course, ledger, _⟩ := ihBody ready.moved
    have orderly := runs.orderly ready.moved
    obtain ⟨later, further, ledger', sparing⟩ := ihNext (ready.replanted orderly)
    exact ⟨_, .more .round runs (.regrown known longer) course further,
      .regrown ready known orderly ledger ledger',
      ledger.sparing_round ready known orderly.proper longer sparing⟩
  | stunted known runs ih =>
    obtain ⟨inner, course, ledger, _⟩ := ih ready.moved
    exact ⟨_, .stopped known runs (by simp) course, (Ledger.round ready).trans ledger.anything,
      ledger.sparing_last ready.proper⟩

end

end SeedPeg
