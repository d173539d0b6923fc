import SeedPeg.Proofs.Loop

/-!
# Left-recursive rules

A rule that begins all but its last alternatives with itself, at once or through rules that do nothing but
apply one another (`LeftRecursive`). The definition of such a rule means nothing at any position
(`LeftRecursive.means_nothing`), so while only it and its aliases are open, whatever else is evaluated ends
as it means (`Sound`). What the aliases do is settled by what is known of the rule behind them: off its
marker they fail (`Grammar.Aliases.fail`), and where it has a seed they answer the seed, if they are applied
again at all (`Grammar.Aliases.read`).
-/

namespace SeedPeg

/-- A choice between tails behind a rule, and other alternatives. -/
def leftRecursive (lead : Value) (tails : List (List Expr)) (bases : List Expr) : Expr :=
  .choice (tails.map (fun tail => .sequence (.rule lead :: tail)) ++ bases)

theorem leftRecursive_ne_rule (lead : Value) (tails : List (List Expr)) (bases : List Expr) (other : Value) :
    leftRecursive lead tails bases ≠ .rule other :=
  nofun

/-- Whether each of some rules is declared as the application of the next one, and the last as that of
    the rule of a name. -/
def Grammar.Aliases (grammar : Grammar) (name : Value) : List Value → Prop
  | [] => True
  | first :: rest =>
    (∃ id, grammar.lookup first = .ok (id, .rule (rest.headD name))) ∧ grammar.Aliases name rest

/-- A rule that begins some alternatives, at least one, with the first of its aliases, or with itself if
    it has none. -/
structure LeftRecursive (grammar : Grammar) (name : Value) (id : Nat) (aliases : List Value)
    (tails : List (List Expr)) (bases : List Expr) : Prop where
  found : grammar.lookup name = .ok (id, leftRecursive (aliases.headD name) tails bases)
  chain : grammar.Aliases name aliases
  recursive : tails ≠ []

/-! ## Runs of sequences and choices -/

section

variable {setting : Setting} {item alternative : Expr} {rest : List Expr} {s s1 s2 : State}
  {result : Result} {tree : Tree}

theorem Runs.sequence_fails (runs : Runs setting (.expr item) s (.done none) s1) :
    Runs setting (.expr (.sequence (item :: rest))) s (.done none) s1 :=
  @Runs.stop _ (.sequence (item :: rest)) _ _ _ _ _ false rfl runs rfl

theorem Runs.sequence_next {name : Value} (runs : Runs setting (.expr (.rule name)) s (.done (some tree)) s1)
    (later : Runs setting (.expr (.sequence rest)) s1 result s2) :
    Runs setting (.expr (.sequence (.rule name :: rest))) s (result.prepend [tree]) s2 :=
  @Runs.go _ (.sequence (.rule name :: rest)) _ _ _ _ _ false _ _ _ rfl runs rfl later

theorem Runs.choice_first (runs : Runs setting (.expr alternative) s (.done (some tree)) s1) :
    Runs setting (.expr (.choice (alternative :: rest))) s (.done (some tree)) s1 :=
  @Runs.stop _ (.choice (alternative :: rest)) _ _ _ _ _ false rfl runs rfl

theorem Runs.choice_next (runs : Runs setting (.expr alternative) s (.done none) s1)
    (later : Runs setting (.expr (.choice rest)) (s1.moved s.position) result s2) :
    Runs setting (.expr (.choice (alternative :: rest))) s result s2 := by
  have whole := @Runs.go _ (.choice (alternative :: rest)) _ _ _ _ _ true _ _ _ rfl runs rfl later
  rwa [Outcome.prepend_nil] at whole

end

/-! ## Chains of aliases -/

section

variable {grammar : Grammar} {name : Value} {id place : Nat} {aliases others : List Value}
  {body : Expr} {tails : List (List Expr)} {bases : List Expr}

theorem Grammar.definition_unique {first second : Value} {one other : Expr}
    (here : grammar.lookup first = .ok (place, one)) (there : grammar.lookup second = .ok (place, other)) :
    one = other :=
  Option.some.inj ((definition_of_lookup here).symm.trans (definition_of_lookup there))

namespace Grammar.Aliases

theorem suffix {before after : List Value} (chain : grammar.Aliases name (before ++ after)) :
    grammar.Aliases name after := by
  induction before with
  | nil => exact chain
  | cons _ _ ih => exact ih chain.2

theorem declared (chain : grammar.Aliases name aliases) (found : grammar.lookup name = .ok (id, body)) :
    ∃ place first, grammar.lookup (aliases.headD name) = .ok (place, first) := by
  cases aliases with
  | nil => exact ⟨id, body, found⟩
  | cons first rest =>
    obtain ⟨⟨place, here⟩, _⟩ := chain
    exact ⟨place, _, here⟩

/-- Chains of aliases that begin with the same rule, and end with one that is no alias, are equally long. -/
theorem length_eq (found : grammar.lookup name = .ok (id, body)) (ends : ∀ other, body ≠ .rule other)
    (chain : grammar.Aliases name aliases) (chain' : grammar.Aliases name others) {one other : Expr}
    (here : grammar.lookup (aliases.headD name) = .ok (place, one))
    (there : grammar.lookup (others.headD name) = .ok (place, other)) :
    aliases.length = others.length := by
  induction aliases generalizing others place one other with
  | nil =>
    cases others with
    | nil => rfl
    | cons first rest =>
      obtain ⟨⟨place', found'⟩, _⟩ := chain'
      cases there.symm.trans found'
      cases here.symm.trans found
      exact absurd (definition_unique found found') (ends _)
  | cons first rest ih =>
    obtain ⟨⟨place', found'⟩, more⟩ := chain
    cases here.symm.trans found'
    cases others with
    | nil =>
      cases there.symm.trans found
      exact absurd (definition_unique found found') (ends _)
    | cons first' rest' =>
      obtain ⟨⟨place'', found''⟩, more'⟩ := chain'
      cases there.symm.trans found''
      have heads : rest.headD name = rest'.headD name := Expr.rule.inj (definition_unique found' found'')
      obtain ⟨place, next, here⟩ := more.declared found
      have there := here
      rw [heads] at there
      rw [List.length_cons, List.length_cons, ih more more' here there]

/-- An alias is not declared again further on in its chain. -/
theorem apart {first later : Value} {rest : List Value} {one other : Expr} {place' : Nat}
    (chain : grammar.Aliases name (first :: rest)) (found : grammar.lookup name = .ok (id, body))
    (ends : ∀ other, body ≠ .rule other) (here : grammar.lookup first = .ok (place, one))
    (inside : later ∈ rest) (there : grammar.lookup later = .ok (place', other)) : place' ≠ place := by
  rintro rfl
  obtain ⟨before, after, rfl⟩ := List.append_of_mem inside
  have same := length_eq found ends chain chain.2.suffix here there
  simp at same
  omega

/-- No alias is the rule that the chain ends with. -/
theorem ne_id {other : Value} {one : Expr} (chain : grammar.Aliases name aliases)
    (found : grammar.lookup name = .ok (id, body)) (ends : ∀ other, body ≠ .rule other)
    (inside : other ∈ aliases) (here : grammar.lookup other = .ok (place, one)) : id ≠ place := by
  rintro rfl
  induction aliases with
  | nil => cases inside
  | cons first rest ih =>
    obtain ⟨⟨place', found'⟩, more⟩ := chain
    rcases List.mem_cons.mp inside with rfl | inside
    · cases here.symm.trans found'
      exact ends _ (Grammar.definition_unique found found')
    · exact ih more inside

/-- A derivation of the first of some aliases has a lower one of the definition behind the last. -/
theorem within {setting : Setting} {height : Nat} {position : Int} {verdict : Verdict}
    (chain : setting.grammar.Aliases name aliases) (found : setting.grammar.lookup name = .ok (id, body))
    (within : Within setting height (.rule (aliases.headD name)) position verdict) :
    ∃ lower, lower < height ∧ Within setting lower body position verdict := by
  induction aliases generalizing height with
  | nil => exact within.of_rule found
  | cons first rest ih =>
    obtain ⟨⟨place, here⟩, more⟩ := chain
    obtain ⟨middle, below, inner⟩ := within.of_rule here
    obtain ⟨lower, under, inner⟩ := ih more inner
    exact ⟨lower, Nat.lt_trans under below, inner⟩

end Grammar.Aliases

/-- The definition of a left-recursive rule means nothing anywhere: a derivation would have a lower one
    of the same definition in it, of its first part. -/
theorem LeftRecursive.means_nothing {setting : Setting} {position : Int} {verdict : Verdict}
    (rule : LeftRecursive setting.grammar name id aliases tails bases) :
    ¬ Means setting (leftRecursive (aliases.headD name) tails bases) position verdict := by
  obtain ⟨tail, more, rfl⟩ := List.exists_cons_of_ne_nil rule.recursive
  intro means
  obtain ⟨height, within⟩ := means.within
  induction height using Nat.strong_induction_on generalizing verdict with
  | h height ih =>
    obtain ⟨_, sequence, _⟩ := within.split rfl
    obtain ⟨_, lead, _⟩ := sequence.split rfl
    obtain ⟨lower, below, again⟩ := rule.chain.within rule.found lead
    exact ih lower below again.means again

end

/-! ## Sound states -/

/-- What holds while only applications of rules are open that mean nothing: a proper state, where all
    that is known conforms. -/
structure Sound (setting : Setting) (s : State) : Prop where
  proper : s.Proper setting
  knows : s.Knows setting.Conforming
  blank : ∀ site detected body verdict, s.known site = some (.marker detected) →
    setting.grammar.definitions[site.id]? = some body → ¬ Means setting body site.position verdict

section

variable {setting : Setting} {s s1 : State} {name : Value} {id : Nat} {body e : Expr}

theorem Settled.sound (settled : Settled setting s) : Sound setting s := by
  refine ⟨settled.proper, settled.knows, ?_⟩
  intro site detected _ _ known
  exact absurd known (settled.closed site detected)

namespace Sound

theorem leads (sound : Sound setting s) (e : Expr) (start : Int) : s.Leads setting e start := by
  intro site detected body _ verdict known defined within
  exact absurd within.means (sound.blank site detected body verdict known defined)

theorem moved (sound : Sound setting s) {position : Int} (low : 0 ≤ position)
    (high : position ≤ setting.input.size) : Sound setting (s.moved position) :=
  ⟨sound.proper.moved low high, sound.knows.moved position, sound.blank⟩

/-- A rule that means nothing can be opened. -/
theorem opened (sound : Sound setting s) (ready : (Task.fresh name id body).Ready setting s)
    (nothing : ∀ verdict, ¬ Means setting body s.position verdict) :
    Sound setting (s.opened setting name id) := by
  refine ⟨ready.opened, sound.knows.opened sound.proper name id, ?_⟩
  intro site detected definition verdict known defined
  rw [sound.proper.known_opened] at known
  split at known
  · rename_i same
    rw [same, ready.2.1] at defined
    cases defined
    exact same ▸ nothing verdict
  · exact sound.blank site detected definition verdict known defined

/-- A result can be stored for a rule that means nothing. -/
theorem stored (sound : Sound setting s) {site : Site} (low : 0 ≤ site.position)
    (defined : setting.grammar.definitions[site.id]? = some body)
    (nothing : ∀ verdict, ¬ Means setting body site.position verdict) (tree : Option Tree) {stop : Int}
    (behind : site.position ≤ stop) (inside : stop ≤ setting.input.size) :
    Sound setting (s.put site (.ofResult site.position tree stop)) := by
  have high : site.position ≤ setting.input.size := Int.le_trans behind inside
  refine ⟨sound.proper.put_result low high tree behind inside,
    sound.knows.put_result sound.proper low high ?_, ?_⟩
  · intro other verdict same means
    rw [defined] at same
    cases same
    exact absurd means (nothing verdict)
  · intro other detected definition verdict known
    rw [sound.proper.known_put low high] at known
    split at known
    · cases known
    · exact sound.blank other detected definition verdict known

theorem told (sound : Sound setting s) (event : Event) : Sound setting (s.told setting event) := by
  refine ⟨sound.proper.told event, sound.knows.told event, ?_⟩
  intro site detected body verdict known
  exact sound.blank site detected body verdict (by simpa using known)

variable (unlimited : setting.options.maxDepth = .none)
include unlimited

theorem after (sound : Sound setting s) {tree : Option Tree}
    (runs : Runs setting (.expr e) s (.done tree) s1) : Sound setting s1 := by
  refine ⟨(runs.orderly sound.proper).proper,
    (runs.conforms unlimited sound.proper sound.knows (sound.leads _ _)).2 tree rfl, ?_⟩
  intro site detected body verdict known
  obtain ⟨before, marked⟩ := (runs.cleans sound.proper rfl).markers site detected known
  exact sound.blank site before body verdict marked

/-- Evaluation ends as an expression means. -/
theorem answers (sound : Sound setting s) {verdict : Verdict} (means : Means setting e s.position verdict) :
    ∃ result s1, Runs setting (.expr e) s result s1 ∧ verdict.Answers result s1.position := by
  have runs := Expr.evaluate_runs e sound.proper
  exact ⟨_, _, runs, (runs.conforms unlimited sound.proper sound.knows (sound.leads _ _)).1 verdict means⟩

theorem matching (sound : Sound setting s) {tree : Tree} {stop : Int}
    (means : Means setting e s.position (.matched tree stop)) :
    ∃ s1, Runs setting (.expr e) s (.done (some tree)) s1 ∧ s1.position = stop := by
  obtain ⟨_, s1, runs, rfl, ends⟩ := sound.answers unlimited means
  exact ⟨s1, runs, ends⟩

theorem failing (sound : Sound setting s) (means : Means setting e s.position .failed) :
    ∃ s1, Runs setting (.expr e) s (.done none) s1 := by
  obtain ⟨_, s1, runs, rfl⟩ := sound.answers unlimited means
  exact ⟨s1, runs⟩

end Sound

end

/-! ## Applying the aliases -/

/-- What is left known of a rule application that has failed. -/
def Setting.leftover (setting : Setting) (position : Int) : Option Entry :=
  if setting.options.memoize then some (.resolved none position) else none

/-- All that some rules have at a position is an entry, or no entry. -/
def State.Holds (setting : Setting) (names : List Value) (position : Int) (entry : Option Entry)
    (s : State) : Prop :=
  ∀ name ∈ names, ∀ id body, setting.grammar.lookup name = .ok (id, body) →
    s.known ⟨id, position⟩ = entry

section

variable {setting : Setting} {s : State} {name : Value} {id : Nat} {body : Expr} {aliases : List Value}

/-- The first of some aliases can be opened if nothing is known of them; then this is so of the others, and
    what is known of the rule behind them is not changed. -/
theorem Grammar.Aliases.opened {first : Value} {rest : List Value} {place : Nat} {lead : Expr}
    (chain : setting.grammar.Aliases name (first :: rest))
    (found : setting.grammar.lookup name = .ok (id, body)) (ends : ∀ other, body ≠ .rule other)
    (here : setting.grammar.lookup first = .ok (place, lead)) (proper : s.Proper setting)
    (unknown : s.Holds setting (first :: rest) s.position none) :
    (Task.fresh first place lead).Ready setting s ∧
      (s.opened setting first place).known ⟨id, s.position⟩ = s.known ⟨id, s.position⟩ ∧
      (s.opened setting first place).Holds setting rest s.position none := by
  refine ⟨Task.Ready.applied proper here (unknown first (by simp) _ _ here), ?_, ?_⟩
  · rw [proper.known_opened, if_neg (by simp [chain.ne_id found ends (by simp) here])]
  · intro later inside place' definition there
    have apart := chain.apart found ends here inside there
    rw [proper.known_opened, if_neg (by simp [apart]), unknown later (by simp [inside]) _ _ there]

/-- Where a rule has its marker, its aliases fail if nothing is known of them: the marker is flagged, and
    each alias leaves what it leaves when it has failed. -/
theorem Grammar.Aliases.fail (unlimited : setting.options.maxDepth = .none)
    (chain : setting.grammar.Aliases name aliases) (found : setting.grammar.lookup name = .ok (id, body))
    (ends : ∀ other, body ≠ .rule other) (proper : s.Proper setting) {position : Int}
    (starts : s.position = position) {detected : Bool}
    (marked : s.known ⟨id, position⟩ = some (.marker detected))
    (unknown : s.Holds setting aliases position none) :
    ∃ s', Runs setting (.expr (.rule (aliases.headD name))) s (.done none) s' ∧
      s'.known ⟨id, position⟩ = some (.marker true) ∧
      s'.Holds setting aliases position (setting.leftover position) := by
  subst starts
  induction aliases generalizing s with
  | nil =>
    refine ⟨_, .marked found marked, ?_, nofun⟩
    rw [proper.known_flagged]
    cases detected with
    | false => simp
    | true => simpa using marked
  | cons first rest ih =>
    obtain ⟨place, here⟩ := chain.1
    have other := chain.ne_id found ends (by simp) here
    obtain ⟨ready, kept, unknown'⟩ := chain.opened found ends here proper unknown
    obtain ⟨low, high⟩ := ready.site_inside
    have starts : (s.opened setting first place).position = s.position := State.position_opened
    obtain ⟨s1, runs, flagged, held⟩ := ih chain.2 ready.opened (by rw [starts, kept, marked])
      (by rwa [starts])
    rw [starts] at flagged held
    have orderly := runs.orderly ready.opened
    obtain ⟨flag, own, _⟩ := orderly.keeps ⟨place, s.position⟩ (.marker false) (by simp [Task.own?])
      (by rw [proper.known_opened, if_pos rfl])
    refine ⟨_, .applied here ready.2.2
      (.settled (Setting.refusal_of_unlimited unlimited) runs own (.inl rfl)), ?_, ?_⟩
    · rw [State.known_closed _ low, if_neg (by simp [other]), orderly.proper.known_put low high,
        if_neg (by simp [other]), flagged]
    · intro later inside place' definition there
      rw [State.known_closed _ low, orderly.proper.known_put low high]
      by_cases same : place' = place
      · rw [same, Setting.leftover]
        cases setting.options.memoize <;> simp [Entry.ofResult]
      · have apart : ¬ Site.mk place' s.position = ⟨place, s.position⟩ := by simp [same]
        rw [if_neg fun both => apart both.2, if_neg apart]
        rcases List.mem_cons.mp inside with rfl | inside
        · cases here.symm.trans there
          exact absurd rfl same
        · exact held later inside _ _ there

/-- Where a rule has a seed, its aliases answer it if nothing is known of them and results are not kept,
    and nothing that is known changes. -/
theorem Grammar.Aliases.read (unlimited : setting.options.maxDepth = .none)
    (chain : setting.grammar.Aliases name aliases) (found : setting.grammar.lookup name = .ok (id, body))
    (ends : ∀ other, body ≠ .rule other) (proper : s.Proper setting) {position : Int}
    (starts : s.position = position) {seed : Tree} {reached : Int}
    (known : s.known ⟨id, position⟩ = some (.resolved (some seed) reached))
    (forgets : aliases = [] ∨ setting.options.memoize = false)
    (unknown : s.Holds setting aliases position none) :
    ∃ s', Runs setting (.expr (.rule (aliases.headD name))) s (.done (some seed)) s' ∧
      s'.position = reached ∧ ∀ site, s'.known site = s.known site := by
  subst starts
  induction aliases generalizing s with
  | nil => exact ⟨_, .remembered found known, rfl, fun _ => rfl⟩
  | cons first rest ih =>
    obtain ⟨place, here⟩ := chain.1
    have forgets : setting.options.memoize = false := by simpa using forgets
    obtain ⟨ready, kept, unknown'⟩ := chain.opened found ends here proper unknown
    obtain ⟨low, high⟩ := ready.site_inside
    have starts : (s.opened setting first place).position = s.position := State.position_opened
    obtain ⟨s1, runs, reaches, same⟩ := ih chain.2 ready.opened (.inr forgets)
      (by rw [starts, kept, known]) (by rwa [starts])
    have orderly := runs.orderly ready.opened
    have own : s1.known ⟨place, s.position⟩ = some (.marker false) := by
      rw [same, proper.known_opened, if_pos rfl]
    refine ⟨_, .applied here ready.2.2
      (.settled (Setting.refusal_of_unlimited unlimited) runs own (.inr rfl)), ?_, ?_⟩
    · rw [State.position_closed]
      exact reaches
    · intro site
      rw [State.known_closed _ low, orderly.proper.known_put low high, same, proper.known_opened]
      by_cases self : site = ⟨place, s.position⟩
      · rw [if_pos ⟨forgets, self⟩, self, ready.2.2]
      · rw [if_neg fun both => self both.2, if_neg self, if_neg self]

end

end SeedPeg
