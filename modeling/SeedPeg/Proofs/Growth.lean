import SeedPeg.Proofs.Recursion

/-!
# The growth of left-recursive rules

What a left-recursive rule does from a place where nothing is known of it and its aliases. When it is opened,
all alternatives that begin with it fail, and the other ones give the seed (`LeftRecursive.opens`). In a
round of growth the rule answers the seed and the first tail that matches is matched behind it, or none
matches and the other alternatives give the seed again (`LeftRecursive.round`). So a round is a turn of the
loop over the tails, or there is none (`LeftRecursive.turns`), and growth ends where the loop does
(`LeftRecursive.grows`). Where results are kept, aliases have failed for good, and the first round is the
last (`LeftRecursive.stalls`).
-/

namespace SeedPeg

/-- A sound state in which a rule has an entry at a site and its aliases have failed there. -/
structure Stage (setting : Setting) (site : Site) (aliases : List Value) (entry : Entry) (s : State) :
    Prop where
  sound : Sound setting s
  entry : s.known site = some entry
  left : s.Holds setting aliases site.position (setting.leftover site.position)

section

variable {setting : Setting} {name : Value} {id : Nat} {aliases : List Value} {tails : List (List Expr)}
  {bases : List Expr} {site : Site} {position : Int} {entry : Entry} {s s1 : State} {e : Expr}

namespace Stage

theorem moved (stage : Stage setting site aliases entry s) {position : Int} (low : 0 ≤ position)
    (high : position ≤ setting.input.size) : Stage setting site aliases entry (s.moved position) :=
  ⟨stage.sound.moved low high, stage.entry, stage.left⟩

theorem told (stage : Stage setting site aliases entry s) (event : Event) :
    Stage setting site aliases entry (s.told setting event) := by
  refine ⟨stage.sound.told event, by simpa using stage.entry, ?_⟩
  intro other inside place body found
  simpa using stage.left other inside place body found

/-- What is evaluated leaves the stage as it is, if the marker of the rule is already flagged. -/
theorem after (unlimited : setting.options.maxDepth = .none) (stage : Stage setting site aliases entry s)
    (firm : entry ≠ .marker false) {tree : Option Tree} (runs : Runs setting (.expr e) s (.done tree) s1) :
    Stage setting site aliases entry s1 := by
  have keeps := (runs.orderly stage.sound.proper).keeps
  refine ⟨stage.sound.after unlimited runs, ?_, ?_⟩
  · have kept := keeps site entry (by simp [Task.own?]) stage.entry
    cases entry with
    | resolved => exact kept
    | marker detected =>
      obtain ⟨flag, known, raised⟩ := kept
      obtain rfl : detected = true := by simpa using firm
      rwa [raised rfl] at known
  · intro other inside place definition found
    have held := stage.left other inside place definition found
    simp only [Setting.leftover] at held ⊢
    cases remembers : setting.options.memoize with
    | true =>
      rw [remembers, if_pos rfl] at held
      exact keeps _ _ (by simp [Task.own?]) held
    | false =>
      rw [remembers, if_neg (by simp)] at held
      have forgotten := (runs.cleans stage.sound.proper rfl).entries remembers ⟨place, site.position⟩
      by_contra known
      exact forgotten known held

/-- A result of the rule takes the place of the entry. -/
theorem stored {body : Expr} (stage : Stage setting site aliases entry s) (low : 0 ≤ site.position)
    (defined : setting.grammar.definitions[site.id]? = some body)
    (nothing : ∀ verdict, ¬ Means setting body site.position verdict)
    (apart : ∀ other ∈ aliases, ∀ place definition,
      setting.grammar.lookup other = .ok (place, definition) → site.id ≠ place)
    (tree : Tree) {stop : Int} (behind : site.position ≤ stop) (inside : stop ≤ setting.input.size) :
    Stage setting site aliases (.resolved (some tree) stop)
      (s.put site (.ofResult site.position (some tree) stop)) := by
  have high : site.position ≤ setting.input.size := Int.le_trans behind inside
  refine ⟨stage.sound.stored low defined nothing (some tree) behind inside, ?_, ?_⟩
  · rw [stage.sound.proper.known_put_self low high]
    rfl
  · intro other member place definition found
    have different : ¬ Site.mk place site.position = site := by
      intro same
      exact apart other member place definition found (by rw [← same])
    rw [stage.sound.proper.known_put low high, if_neg different]
    exact stage.left other member place definition found

end Stage

/-! ## Rounds -/

namespace LeftRecursive

variable (unlimited : setting.options.maxDepth = .none)
  (rule : LeftRecursive setting.grammar name id aliases tails bases)
include unlimited rule

/-- The first of the aliases fails off the flagged marker of the rule; and where results are kept, it has
    failed for good. -/
theorem lead_fails (stage : Stage setting ⟨id, position⟩ aliases entry s) (starts : s.position = position)
    (firm : entry ≠ .marker false)
    (blocked : entry = .marker true ∨ aliases ≠ [] ∧ setting.options.memoize = true) :
    ∃ s1, Runs setting (.expr (.rule (aliases.headD name))) s (.done none) s1 ∧
      Stage setting ⟨id, position⟩ aliases entry s1 := by
  by_cases stale : aliases ≠ [] ∧ setting.options.memoize = true
  · obtain ⟨aliased, remembers⟩ := stale
    obtain ⟨first, rest, rfl⟩ := List.exists_cons_of_ne_nil aliased
    obtain ⟨place, here⟩ := rule.chain.1
    have known := stage.left first (by simp) _ _ here
    rw [Setting.leftover, if_pos remembers, ← starts] at known
    exact ⟨s, .remembered here known, stage⟩
  · obtain rfl := blocked.resolve_right stale
    have unknown : s.Holds setting aliases position none := by
      intro other inside place definition found
      have forgets : ¬ setting.options.memoize = true := by
        intro remembers
        exact stale ⟨List.ne_nil_of_mem inside, remembers⟩
      rw [stage.left other inside place definition found, Setting.leftover, if_neg forgets]
    obtain ⟨s1, runs, _, _⟩ := rule.chain.fail unlimited rule.found (leftRecursive_ne_rule _ _ _)
      stage.sound.proper starts stage.entry unknown
    exact ⟨s1, runs, stage.after unlimited firm runs⟩

/-- The first of the aliases answers the seed of the rule, if there are none or no results are kept. -/
theorem lead_reads (forgets : aliases = [] ∨ setting.options.memoize = false) {seed : Tree} {reached : Int}
    (stage : Stage setting ⟨id, position⟩ aliases (.resolved (some seed) reached) s)
    (starts : s.position = position) :
    ∃ s1, Runs setting (.expr (.rule (aliases.headD name))) s (.done (some seed)) s1 ∧
      s1.position = reached ∧ Stage setting ⟨id, position⟩ aliases (.resolved (some seed) reached) s1 := by
  have unknown : s.Holds setting aliases position none := by
    intro other inside place definition found
    have forgets := forgets.resolve_left (List.ne_nil_of_mem inside)
    rw [stage.left other inside place definition found, Setting.leftover, if_neg (by simp [forgets])]
  obtain ⟨s1, runs, ends, _⟩ := rule.chain.read unlimited rule.found (leftRecursive_ne_rule _ _ _)
    stage.sound.proper starts stage.entry forgets unknown
  exact ⟨s1, runs, ends, stage.after unlimited (by simp) runs⟩

/-- Where the first of the aliases fails, what is left of the definition are the other alternatives. -/
theorem skips (stage : Stage setting ⟨id, position⟩ aliases entry s) (starts : s.position = position)
    (firm : entry ≠ .marker false)
    (blocked : entry = .marker true ∨ aliases ≠ [] ∧ setting.options.memoize = true)
    (front : List (List Expr)) :
    ∃ s1, Stage setting ⟨id, position⟩ aliases entry s1 ∧ s1.position = position ∧
      ∀ result s2, Runs setting (.expr (.choice bases)) s1 result s2 →
        Runs setting (.expr (leftRecursive (aliases.headD name) front bases)) s result s2 := by
  induction front generalizing s with
  | nil => exact ⟨s, stage, starts, fun _ _ runs => runs⟩
  | cons tail rest ih =>
    obtain ⟨s1, fails, stage1⟩ := rule.lead_fails unlimited stage starts firm blocked
    have proper := stage.sound.proper
    obtain ⟨s2, stage2, starts2, later⟩ := ih (stage1.moved proper.low proper.high) starts
    refine ⟨s2, stage2, starts2, ?_⟩
    intro result s3 runs
    exact .choice_next fails.sequence_fails (later result s3 runs)

/-- In a round of growth the first tail is matched behind the seed that matches there; if there is none,
    what is left are the other alternatives. -/
theorem round (forgets : aliases = [] ∨ setting.options.memoize = false) {seed : Tree} {reached : Int}
    (stage : Stage setting ⟨id, position⟩ aliases (.resolved (some seed) reached) s)
    (starts : s.position = position) {front : List (List Expr)} {verdict : Verdict}
    (means : Means setting (.choice (front.map .sequence)) reached verdict) (defined : verdict.IsDefined) :
    (∃ trees stop s1, verdict = .matched (.node trees) stop ∧
      Runs setting (.expr (leftRecursive (aliases.headD name) front bases)) s
        (.done (some (.node (seed :: trees)))) s1 ∧ s1.position = stop) ∨
    (verdict = .failed ∧
      ∃ s1, Stage setting ⟨id, position⟩ aliases (.resolved (some seed) reached) s1 ∧
        s1.position = position ∧ ∀ result s2, Runs setting (.expr (.choice bases)) s1 result s2 →
          Runs setting (.expr (leftRecursive (aliases.headD name) front bases)) s result s2) := by
  obtain ⟨derivation⟩ := means
  induction front generalizing s with
  | nil =>
    cases derivation with
    | never => exact .inr ⟨rfl, s, stage, starts, fun _ _ runs => runs⟩
    | interrupted first => cases first
  | cons tail rest ih =>
    obtain ⟨s1, reads, reaches, stage1⟩ := rule.lead_reads unlimited forgets stage starts
    subst reaches
    cases derivation with
    | interrupted => cases defined
    | @chosen _ _ _ tree stop inner =>
      obtain ⟨s2, runs, ends⟩ := stage1.sound.matching unlimited ⟨inner⟩
      have proper := stage1.sound.proper
      rcases Means.matchInTurn proper.low proper.high unlimited ⟨inner⟩ trivial with
        ⟨same, _⟩ | ⟨trees, last, same, _⟩ <;> cases same
      exact .inl ⟨trees, stop, s2, rfl, (reads.sequence_next runs).choice_first, ends⟩
    | other inner later =>
      obtain ⟨s2, runs⟩ := stage1.sound.failing unlimited ⟨inner⟩
      have fails := reads.sequence_next runs
      have stage2 := stage1.after unlimited (by simp) runs
      have proper := stage.sound.proper
      rcases ih (stage2.moved proper.low proper.high) starts later with
        ⟨trees, stop, s3, same, runs, ends⟩ | ⟨same, s3, stage3, starts3, rest⟩
      · exact .inl ⟨trees, stop, s3, same, .choice_next fails runs, ends⟩
      · refine .inr ⟨same, s3, stage3, starts3, ?_⟩
        intro result s4 runs
        exact .choice_next fails (rest result s4 runs)

omit unlimited in
theorem id_ne : ∀ other ∈ aliases, ∀ place definition,
    setting.grammar.lookup other = .ok (place, definition) → id ≠ place := by
  intro other inside place definition here
  exact rule.chain.ne_id rule.found (leftRecursive_ne_rule _ _ _) inside here

/-- A round of growth is a turn of the loop; or there is none, and the round does not get beyond the
    seed. -/
theorem turns (forgets : aliases = [] ∨ setting.options.memoize = false) {seed : Tree} {stop : Int}
    (base : Means setting (.choice bases) position (.matched seed stop)) {now : Tree × Int}
    (stage : Stage setting ⟨id, position⟩ aliases (.resolved (some now.1) now.2) s) (behind : stop ≤ now.2)
    {verdict : Verdict} (means : Means setting (.choice (tails.map .sequence)) now.2 verdict)
    (defined : verdict.IsDefined) :
    (∃ later s1, Turn setting tails now later ∧ now.2 < later.2 ∧ later.2 ≤ setting.input.size ∧
      Runs setting (.expr (leftRecursive (aliases.headD name) tails bases)) (s.moved position)
        (.done (some later.1)) s1 ∧ s1.position = later.2) ∨
    (Loops setting tails now now ∧ ∃ tree s1,
      Runs setting (.expr (leftRecursive (aliases.headD name) tails bases)) (s.moved position)
        (.done tree) s1 ∧ s1.position ≤ now.2) := by
  obtain ⟨low, high⟩ := stage.sound.proper.inside stage.entry
  obtain ⟨after, inside, _⟩ := stage.sound.proper.results stage.entry
  have low' : 0 ≤ now.2 := Int.le_trans low after
  have looked := means.firstTail low' inside unlimited defined
  rcases rule.round unlimited forgets (stage.moved low high) rfl means defined with
    ⟨trees, reach, s1, rfl, runs, ends⟩ | ⟨rfl, s1, stage1, starts, rest⟩
  · obtain ⟨same, _⟩ | ⟨_, _, same, found⟩ := looked <;> cases same
    obtain ⟨onwards, within⟩ := firstTail_inside low' inside found
    rcases Int.lt_or_eq_of_le onwards with further | idle
    · have turn : Turn setting tails now (.node (now.1 :: trees), reach) :=
        ⟨trees, found, Int.ne_of_gt further, rfl⟩
      exact .inl ⟨_, s1, turn, further, within, runs, ends⟩
    · refine .inr ⟨.here ?_, _, s1, runs, by omega⟩
      intro others stop' found'
      cases found.symm.trans found'
      exact idle.symm
  · obtain ⟨_, missing⟩ | ⟨_, _, same, _⟩ := looked
    · obtain ⟨s2, runs, ends⟩ := stage1.sound.matching unlimited (starts ▸ base)
      exact .inr ⟨.here (by simp [missing]), _, s2, rest _ _ runs, by omega⟩
    · cases same

/-- Growth goes on for as long as the loop over the tails does. The induction is on what is left of the
    input behind the seed. -/
theorem grows (forgets : aliases = [] ∨ setting.options.memoize = false) {seed : Tree} {stop : Int}
    (base : Means setting (.choice bases) position (.matched seed stop)) (now : Tree × Int)
    (stage : Stage setting ⟨id, position⟩ aliases (.resolved (some now.1) now.2) s) (behind : stop ≤ now.2)
    (rounds : ∀ later, Reached setting tails now later →
      ∃ verdict, Means setting (.choice (tails.map .sequence)) later.2 verdict ∧ verdict.IsDefined) :
    ∃ last s1, Loops setting tails now last ∧
      Runs setting (.growth name id (leftRecursive (aliases.headD name) tails bases) position) s
        (.done (some last.1)) s1 ∧ s1.position = last.2 := by
  induction left : (setting.input.size - now.2).toNat using Nat.strong_induction_on generalizing now s with
  | h left ih =>
    obtain ⟨verdict, means, defined⟩ := rounds now .refl
    rcases rule.turns unlimited forgets base stage behind means defined with
      ⟨later, s1, turn, further, within, runs, ends⟩ | ⟨loops, tree, s1, runs, short⟩
    · obtain ⟨low, high⟩ := stage.sound.proper.inside stage.entry
      obtain ⟨after, _, _⟩ := stage.sound.proper.results stage.entry
      have told := ((stage.moved low high).after unlimited (by simp) runs).told
        (.grew name position s1.position)
      have stage1 := told.stored low (Grammar.definition_of_lookup rule.found)
        (fun _ => rule.means_nothing) rule.id_ne later.1 (Int.le_trans after (Int.le_of_lt further)) within
      obtain ⟨last, s2, loops, grown, reaches⟩ := ih _ (by omega) later stage1 (by omega)
        (fun last reached => rounds last (.head turn reached)) rfl
      rw [← ends] at grown further
      exact ⟨last, s2, loops.head turn, .growing stage.entry runs further grown, reaches⟩
    · exact ⟨now, _, loops, .grown stage.entry runs (.inr short), rfl⟩

/-- Where results are kept, growth through aliases ends at once: they go on failing, and the seed is found
    again. -/
theorem stalls (aliased : aliases ≠ []) (remembers : setting.options.memoize = true) {seed : Tree}
    {stop : Int} (base : Means setting (.choice bases) position (.matched seed stop))
    (stage : Stage setting ⟨id, position⟩ aliases (.resolved (some seed) stop) s) :
    ∃ s1, Runs setting (.growth name id (leftRecursive (aliases.headD name) tails bases) position) s
      (.done (some seed)) s1 ∧ s1.position = stop := by
  obtain ⟨low, high⟩ := stage.sound.proper.inside stage.entry
  obtain ⟨s1, stage1, starts, rest⟩ := rule.skips unlimited (stage.moved low high) rfl (by simp)
    (.inr ⟨aliased, remembers⟩) tails
  obtain ⟨s2, runs, ends⟩ := stage1.sound.matching unlimited (starts ▸ base)
  exact ⟨_, .grown stage.entry (rest _ _ runs) (.inr (Int.le_of_eq ends)), rfl⟩

/-- When the rule is opened, all that it begins itself with fails, and what is left of the definition are
    the other alternatives. -/
theorem opens (settled : Settled setting s)
    (unknown : s.Holds setting (name :: aliases) s.position none) :
    ∃ s1, Stage setting ⟨id, s.position⟩ aliases (.marker true) s1 ∧ s1.position = s.position ∧
      ∀ result s2, Runs setting (.expr (.choice bases)) s1 result s2 →
        Runs setting (.expr (leftRecursive (aliases.headD name) tails bases)) (s.opened setting name id)
          result s2 := by
  obtain ⟨tail, more, same⟩ := List.exists_cons_of_ne_nil rule.recursive
  have proper := settled.proper
  have ready := Task.Ready.applied proper rule.found (unknown name (by simp) _ _ rule.found)
  have starts : (s.opened setting name id).position = s.position := State.position_opened
  have sound := settled.sound.opened ready fun _ => rule.means_nothing
  have absent : (s.opened setting name id).Holds setting aliases s.position none := by
    intro other inside place definition found
    have apart := (rule.id_ne other inside place definition found).symm
    rw [proper.known_opened, if_neg (by simp [apart]), unknown other (by simp [inside]) _ _ found]
  obtain ⟨s1, fails, flagged, held⟩ := rule.chain.fail unlimited rule.found (leftRecursive_ne_rule _ _ _)
    ready.opened starts (by rw [proper.known_opened, if_pos rfl]) absent
  have stage : Stage setting ⟨id, s.position⟩ aliases (.marker true) s1 :=
    ⟨sound.after unlimited fails, flagged, held⟩
  obtain ⟨s2, stage2, starts2, rest⟩ := rule.skips unlimited (stage.moved proper.low proper.high) rfl
    (by simp) (.inl rfl) more
  refine ⟨s2, stage2, starts2, ?_⟩
  intro result s3 runs
  rw [same]
  apply Runs.choice_next fails.sequence_fails
  rw [starts]
  exact rest result s3 runs

/-- The rule fails where its other alternatives do. -/
theorem fails (settled : Settled setting s)
    (unknown : s.Holds setting (name :: aliases) s.position none)
    (base : Means setting (.choice bases) s.position .failed) :
    ∃ s1, Runs setting (.expr (.rule name)) s (.done none) s1 ∧ s1.position = s.position := by
  have absent := unknown name (by simp) _ _ rule.found
  obtain ⟨s1, stage, starts, rest⟩ := rule.opens unlimited settled unknown
  obtain ⟨s2, runs⟩ := stage.sound.failing unlimited (starts ▸ base)
  refine ⟨_, .applied rule.found absent (.settled (Setting.refusal_of_unlimited unlimited)
    (rest _ _ runs) (stage.after unlimited (by simp) runs).entry (.inl rfl)), ?_⟩
  rw [State.position_closed, if_neg (by simp)]

/-- The rule ends as the growth of the seed does that its other alternatives give. -/
theorem ripens (settled : Settled setting s)
    (unknown : s.Holds setting (name :: aliases) s.position none) {seed : Tree}
    {stop : Int} (base : Means setting (.choice bases) s.position (.matched seed stop))
    {property : Tree × Int → Prop}
    (growth : ∀ s1, Stage setting ⟨id, s.position⟩ aliases (.resolved (some seed) stop) s1 →
      ∃ last s2, property last ∧
        Runs setting (.growth name id (leftRecursive (aliases.headD name) tails bases) s.position) s1
          (.done (some last.1)) s2 ∧ s2.position = last.2) :
    ∃ last s1, property last ∧ Runs setting (.expr (.rule name)) s (.done (some last.1)) s1 ∧
      s1.position = last.2 := by
  have absent := unknown name (by simp) _ _ rule.found
  obtain ⟨s1, stage, starts, rest⟩ := rule.opens unlimited settled unknown
  obtain ⟨s2, runs, rfl⟩ := stage.sound.matching unlimited (starts ▸ base)
  have stage2 := stage.after unlimited (by simp) runs
  have orderly := runs.orderly stage.sound.proper
  have stage3 := stage2.stored settled.proper.low (Grammar.definition_of_lookup rule.found)
    (fun _ => rule.means_nothing) rule.id_ne seed (starts ▸ orderly.forward) orderly.proper.high
  obtain ⟨last, s3, holds, later, ends⟩ := growth _ stage3
  refine ⟨last, _, holds, .applied rule.found absent
    (.ripened (Setting.refusal_of_unlimited unlimited) (rest _ _ runs) stage2.entry later), ?_⟩
  rw [State.position_closed]
  exact ends

end LeftRecursive

end

end SeedPeg
