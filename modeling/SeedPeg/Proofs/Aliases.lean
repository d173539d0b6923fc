import Mathlib
import SeedPeg.Proofs.LeftFold
import SeedPeg.Proofs.Sessions

/-!
# Left recursion through aliases

A rule may begin its first alternatives with another rule that does nothing but apply a third one, and so
on, up to one that applies the first rule again. What it computes then depends on whether results are kept
(`indirect_left_recursion`). If they are not, each of the aliases is applied again in every round of growth,
and the rule computes what it would if it began its alternatives with itself. If they are, the aliases have
failed once, off the marker of the rule, and fail in every round, so the rule is what its other alternatives
are. The two rules are compared in two grammars, of which one declares the rule again (`Grammar.redefined`);
an expression that means anything uses neither of them, and so it means the same in both
(`Means.redefined`).
-/

namespace SeedPeg

/-! ## Declaring a rule again -/

/-- Where a name is declared, declaring it again changes the item in its place and nothing else. -/
theorem Declarations.locate_putName {α : Type} {name other : Value} {item old : α}
    {entries : List (Value × α)} {place : Nat} (found : locate name entries = some (place, old)) :
    locate other (putName name item entries) =
      (locate other entries).map fun entry => (entry.1, if entry.1 = place then item else entry.2) := by
  induction entries generalizing place with
  | nil => cases found
  | cons entry rest ih =>
    simp only [locate] at found
    split at found
    · rename_i same
      cases found
      rw [putName, if_pos same, locate, locate]
      split
      · rfl
      · cases locate other rest <;> rfl
    · rename_i different
      obtain ⟨⟨before, thing⟩, inner, same⟩ := Option.map_eq_some_iff.mp found
      cases same
      rw [putName, if_neg different, locate, locate]
      split
      · rfl
      · rw [ih inner]
        cases locate other rest <;> simp

theorem Declarations.all_putName {α : Type} {property : α → Bool} {name : Value} {item : α}
    {entries : List (Value × α)} (held : property item = true)
    (all : entries.all (fun entry => property entry.2) = true) :
    (putName name item entries).all (fun entry => property entry.2) = true := by
  rw [List.all_eq_true] at all ⊢
  intro entry member
  rcases item_of_mem_putName member with same | old
  · rw [same, held]
  · exact all entry old

/-- The grammar with a rule declared, or declared again. -/
def Grammar.redefined (grammar : Grammar) (name : Value) (body : Expr) (proper : body.isProper = true) :
    Grammar :=
  ⟨grammar.toDeclarations.declare name body, Declarations.all_putName proper grammar.proper⟩

section

variable {grammar : Grammar} {setting : Setting} {name other : Value} {id place : Nat} {old body : Expr}
  {proper : body.isProper = true}

theorem Grammar.lookup_redefined (found : grammar.lookup name = .ok (id, old)) (other : Value) :
    (grammar.redefined name body proper).lookup other =
      (grammar.lookup other).map fun entry => (entry.1, if entry.1 = id then body else entry.2) := by
  have located : Declarations.locate name grammar.entries = some (id, old) := by
    simp only [lookup, Declarations.find?] at found
    split at found
    · split at found
      · rename_i here
        cases found
        exact here
      · cases found
    · cases found
  simp only [lookup, Declarations.find?, redefined, Declarations.declare,
    Declarations.locate_putName located]
  split
  · cases Declarations.locate other grammar.entries <;> rfl
  · rfl

/-- An expression means the same in another grammar, if every rule that means something is declared in the
    same way there, and none is declared that was not. -/
theorem Derivation.transport {first second : Grammar} {input : Input}
    (declared : ∀ name id body start verdict, first.lookup name = .ok (id, body) →
      Derivation first input body start verdict → ∃ place, second.lookup name = .ok (place, body))
    (missing : ∀ name cause, first.lookup name = .error cause → second.lookup name = .error cause)
    {e : Expr} {start : Int} {verdict : Verdict} (derivation : Derivation first input e start verdict) :
    Nonempty (Derivation second input e start verdict) := by
  induction derivation with
  | literal made spells => exact ⟨.literal made spells⟩
  | mismatch made apart => exact ⟨.mismatch made apart⟩
  | nothing => exact ⟨.nothing⟩
  | never => exact ⟨.never⟩
  | broken _ inner => exact inner.map .broken
  | chosen _ inner => exact inner.map .chosen
  | stopped _ inner => exact inner.map .stopped
  | idle _ inner => exact inner.map .idle
  | missing _ inner => exact inner.map .missing
  | absent _ inner => exact inner.map .absent
  | present _ inner => exact inner.map .present
  | ahead _ inner => exact inner.map .ahead
  | notAhead _ inner => exact inner.map .notAhead
  | excluded _ inner => exact inner.map .excluded
  | allowed _ inner => exact inner.map .allowed
  | item _ _ inner rest => exact inner.elim fun inner => rest.map (.item inner)
  | other _ _ inner rest => exact inner.elim fun inner => rest.map (.other inner)
  | again _ moved _ inner rest => exact inner.elim fun inner => rest.map (.again inner moved)
  | once _ _ inner rest => exact inner.elim fun inner => rest.map (.once inner)
  | interrupted part _ inner => exact inner.map (.interrupted part)
  | unknown absent => exact ⟨.unknown (missing _ _ absent)⟩
  | rule found inner body =>
    obtain ⟨place, there⟩ := declared _ _ _ _ _ found inner
    exact body.map (.rule there)

/-- A rule that means nothing can be declared again without changing what any expression means. -/
theorem Means.redefined {options : Options} (found : setting.grammar.lookup name = .ok (id, old))
    (nothing : ∀ start verdict, ¬ Means setting old start verdict) {e : Expr} {start : Int}
    {verdict : Verdict} (means : Means setting e start verdict) :
    Means ⟨setting.input, setting.grammar.redefined name body proper, options⟩ e start verdict := by
  obtain ⟨derivation⟩ := means
  apply derivation.transport
  · intro other place definition start verdict here inner
    have apart : place ≠ id := by
      rintro rfl
      obtain rfl := Grammar.definition_unique here found
      exact nothing start verdict ⟨inner⟩
    exact ⟨place, by rw [Grammar.lookup_redefined found, here, Except.map, if_neg apart]⟩
  · intro other cause absent
    rw [Grammar.lookup_redefined found, absent, Except.map]

end

/-! ## The loop elsewhere -/

section

variable {first second : Setting} {tails : List (List Expr)} {start now later last : Tree × Int}

theorem Turn.iff_of_eq (same : firstTail first tails now.2 = firstTail second tails now.2) :
    Turn first tails now later ↔ Turn second tails now later := by
  simp only [Turn, same]

variable (same : ∀ now, Reached first tails start now →
  firstTail first tails now.2 = firstTail second tails now.2)
include same

theorem Reached.iff_of_eq : Reached second tails start now ↔ Reached first tails start now := by
  constructor <;> intro reached
  · induction reached with
    | refl => exact .refl
    | tail _ turn ih => exact .tail ih ((Turn.iff_of_eq (same _ ih)).mpr turn)
  · induction reached with
    | refl => exact .refl
    | tail before turn ih => exact .tail ih ((Turn.iff_of_eq (same _ before)).mp turn)

/-- The loop ends in the same way where the same tails match at all that is reached. -/
theorem Loops.of_eq (loops : Loops first tails start last) : Loops second tails start last := by
  obtain ⟨reached, ended⟩ := loops
  constructor
  · exact (Reached.iff_of_eq same).mpr reached
  · intro later turn
    exact ended later ((Turn.iff_of_eq (same last reached)).mpr turn)

end

/-- Whatever means something in a setting means the same in another one, with the same input. -/
structure Conveys (first second : Setting) : Prop where
  input : second.input = first.input
  means : ∀ {e start verdict}, Means first e start verdict → Means second e start verdict

namespace Conveys

variable {first second : Setting} {tails : List (List Expr)} {bases : List Expr} {position : Int}
  (conveys : Conveys first second) (unlimited : first.options.maxDepth = .none)
  (endless : second.options.maxDepth = .none) (low : 0 ≤ position) (high : position ≤ first.input.size)
  (parts : StraightParts first tails bases position)

include conveys in
theorem inside (high : position ≤ first.input.size) : position ≤ second.input.size := by
  rwa [conveys.input]

include conveys unlimited endless low high parts

/-- The same alternative matches first. -/
theorem firstMatch_eq : firstMatch second bases position = firstMatch first bases position := by
  obtain ⟨verdict, base, defined⟩ := (straight_iff_means unlimited low high).mp parts.others
  have base' := conveys.means base
  have high' := conveys.inside high
  rcases base.firstMatch low high unlimited defined with ⟨rfl, here⟩ | ⟨tree, stop, rfl, here⟩ <;>
    rcases base'.firstMatch low high' endless defined with ⟨same, there⟩ | ⟨_, _, same, there⟩ <;>
    cases same <;> rw [here, there]

/-- The same tail matches first, at all that the loop reaches. -/
theorem firstTail_eq {seed now : Tree × Int} (matched : firstMatch first bases position = some seed)
    (reached : Reached first tails seed now) :
    firstTail first tails now.2 = firstTail second tails now.2 := by
  obtain ⟨verdict, means, defined⟩ := parts.rounds unlimited low high matched reached
  obtain ⟨lower, upper⟩ := reached.inside_of_match low high matched
  have means' := conveys.means means
  have upper' := conveys.inside upper
  rcases means.firstTail lower upper unlimited defined with ⟨rfl, here⟩ | ⟨trees, stop, rfl, here⟩ <;>
    rcases means'.firstTail lower upper' endless defined with ⟨same, there⟩ | ⟨_, _, same, there⟩ <;>
    cases same <;> rw [here, there]

/-- The parts are straight there too, where the loop tries them. -/
theorem straightParts : StraightParts second tails bases position := by
  obtain ⟨verdict, base, defined⟩ := (straight_iff_means unlimited low high).mp parts.others
  refine ⟨(straight_iff_means endless low (conveys.inside high)).mpr
    ⟨verdict, conveys.means base, defined⟩, ?_⟩
  intro seed now matched reached
  rw [conveys.firstMatch_eq unlimited endless low high parts] at matched
  have reached := (Reached.iff_of_eq fun _ =>
    conveys.firstTail_eq unlimited endless low high parts matched).mp reached
  obtain ⟨verdict, means, defined⟩ := parts.rounds unlimited low high matched reached
  obtain ⟨lower, upper⟩ := reached.inside_of_match low high matched
  exact (straight_iff_means endless lower (conveys.inside upper)).mpr
    ⟨verdict, conveys.means means, defined⟩

/-- Rules that fold with the same parts end in the same way. -/
theorem ends_alike {name other : Value} (folds : Folds first name tails bases position)
    (folds' : Folds second other tails bases position) :
    ((Expr.rule name).evaluate first (first.startAt position)).1 =
      ((Expr.rule other).evaluate second (second.startAt position)).1 ∧
    ((Expr.rule name).evaluate first (first.startAt position)).2.position =
      ((Expr.rule other).evaluate second (second.startAt position)).2.position := by
  have same := conveys.firstMatch_eq unlimited endless low high parts
  cases matched : firstMatch first bases position with
  | none =>
    obtain ⟨ended, place⟩ := folds.fails matched
    obtain ⟨ended', place'⟩ := folds'.fails (same.trans matched)
    exact ⟨ended.trans ended'.symm, place.trans place'.symm⟩
  | some seed =>
    obtain ⟨last, loops, ended, place⟩ := folds.grows seed matched
    obtain ⟨last', loops', ended', place'⟩ := folds'.grows seed (same.trans matched)
    obtain rfl := (loops.of_eq fun _ =>
      conveys.firstTail_eq unlimited endless low high parts matched).unique loops'
    exact ⟨ended.trans ended'.symm, place.trans place'.symm⟩

end Conveys

/-! ## Rules with aliases -/

theorem leftRecursive_isProper (lead : Value) (tails : List (List Expr)) (bases : List Expr) :
    (leftRecursive lead tails bases).isProper = true := rfl

/-- The setting in which a rule begins its first alternatives with itself. -/
def Setting.unaliased (setting : Setting) (name : Value) (tails : List (List Expr)) (bases : List Expr)
    (options : Options) : Setting where
  input := setting.input
  grammar := setting.grammar.redefined name _ (leftRecursive_isProper name tails bases)
  options := options

section

variable {setting : Setting} {name : Value} {id : Nat} {aliases : List Value} {tails : List (List Expr)}
  {bases : List Expr} {position : Int}
  (rule : LeftRecursive setting.grammar name id aliases tails bases)
include rule

/-- Without its aliases the rule is left-recursive at once. -/
theorem LeftRecursive.unaliased (options : Options) :
    LeftRecursive (setting.unaliased name tails bases options).grammar name id [] tails bases where
  found := by
    rw [Setting.unaliased, Grammar.lookup_redefined rule.found, rule.found, Except.map, if_pos rfl]
    rfl
  chain := trivial
  recursive := rule.recursive

/-- What means something does so without the rule, so it means the same without its aliases. -/
theorem LeftRecursive.conveys (options : Options) :
    Conveys setting (setting.unaliased name tails bases options) :=
  ⟨rfl, fun means => means.redefined rule.found fun _ _ => rule.means_nothing⟩

variable (unlimited : setting.options.maxDepth = .none) (low : 0 ≤ position)
  (high : position ≤ setting.input.size)
include unlimited low high

/-- Where results are kept, a rule with aliases ends as the choice of its other alternatives does. -/
theorem LeftRecursive.seeds_only (aliased : aliases ≠ []) (remembers : setting.options.memoize = true)
    (others : (Expr.choice bases).Straight setting position) :
    ((Expr.rule name).evaluate setting (setting.startAt position)).1 =
      ((Expr.choice bases).evaluate setting (setting.startAt position)).1 ∧
    ((Expr.rule name).evaluate setting (setting.startAt position)).2.position =
      ((Expr.choice bases).evaluate setting (setting.startAt position)).2.position := by
  have settled : Settled setting (setting.startAt position) :=
    (Warm.fresh.moved low high).settled unlimited
  have unknown := setting.unknown_startAt (name :: aliases) position
  obtain ⟨verdict, base, defined⟩ := (straight_iff_means unlimited low high).mp others
  have answers := base.answers_alone low high unlimited
  rcases ran : (Expr.choice bases).evaluate setting (setting.startAt position) with ⟨result, s⟩
  rw [ran] at answers
  cases verdict with
  | undefined => cases defined
  | failed =>
    cases answers
    obtain ⟨s1, runs, ends⟩ := rule.fails unlimited settled unknown base
    rw [(runs_iff_evaluate settled.proper).mp runs]
    exact ⟨rfl, ends.trans (Expr.failure_puts_back settled.proper rfl ran).symm⟩
  | matched seed stop =>
    obtain ⟨rfl, rfl⟩ := answers
    obtain ⟨_, s1, rfl, runs, ends⟩ := rule.ripens unlimited settled unknown base fun s1 stage => by
      obtain ⟨s2, later, ends⟩ := rule.stalls unlimited aliased remembers base stage
      exact ⟨(seed, s.position), s2, Eq.refl (seed, s.position), later, ends⟩
    rw [(runs_iff_evaluate settled.proper).mp runs]
    exact ⟨rfl, ends⟩

end

/-- Let a rule begin its first alternatives with the first of some aliases, each of which is declared as the
    application of the next one, and the last as that of the rule. If no results are kept, its evaluation at
    a position, before which nothing was evaluated, ends as it does where the rule begins these alternatives
    with itself, whether results are kept there or not. If they are kept, it ends as the choice of the other
    alternatives does. -/
theorem indirect_left_recursion {setting : Setting} (unlimited : setting.options.maxDepth = .none)
    {name : Value} {id : Nat} {aliases : List Value} {tails : List (List Expr)} {bases : List Expr}
    (aliased : aliases ≠ []) (recursive : tails ≠ [])
    (found : setting.grammar.lookup name = .ok (id, leftRecursive (aliases.headD name) tails bases))
    (chain : setting.grammar.Aliases name aliases) {position : Int} (low : 0 ≤ position)
    (high : position ≤ setting.input.size) (parts : StraightParts setting tails bases position) :
    (setting.options.memoize = false → ∀ options : Options, options.maxDepth = .none →
      ((Expr.rule name).evaluate setting (setting.startAt position)).1 =
        ((Expr.rule name).evaluate (setting.unaliased name tails bases options)
          ((setting.unaliased name tails bases options).startAt position)).1 ∧
      ((Expr.rule name).evaluate setting (setting.startAt position)).2.position =
        ((Expr.rule name).evaluate (setting.unaliased name tails bases options)
          ((setting.unaliased name tails bases options).startAt position)).2.position) ∧
    (setting.options.memoize = true →
      ((Expr.rule name).evaluate setting (setting.startAt position)).1 =
        ((Expr.choice bases).evaluate setting (setting.startAt position)).1 ∧
      ((Expr.rule name).evaluate setting (setting.startAt position)).2.position =
        ((Expr.choice bases).evaluate setting (setting.startAt position)).2.position) := by
  have rule : LeftRecursive setting.grammar name id aliases tails bases := ⟨found, chain, recursive⟩
  constructor
  · intro forgets options endless
    have conveys := rule.conveys options
    have folds := rule.folds unlimited low high (.inr forgets) parts
    have folds' := (rule.unaliased options).folds endless low (conveys.inside high) (.inl rfl)
      (conveys.straightParts unlimited endless low high parts)
    exact conveys.ends_alike unlimited endless low high parts folds folds'
  · intro remembers
    exact rule.seeds_only unlimited low high aliased remembers parts.others

/-- Two ones, to be added by a rule that begins with an alias. -/
def aliasedOnes (memoize : Bool) : Setting where
  input := .text #['1', '+', '1']
  grammar := { entries := [
    (defaultStart, .choice [.sequence [.rule (.str "alias"), .terminal (.str "+1")], .terminal (.str "1")]),
    (.str "alias", .rule defaultStart)] }
  options := { memoize, maxDepth := .none }

theorem aliasedOnes_grow_if_forgotten :
    ((Expr.rule defaultStart).evaluate (aliasedOnes false) ((aliasedOnes false).startAt 0)).1 =
      .done (some (.node [.leaf (.str "1"), .leaf (.str "+1")])) ∧
    ((Expr.rule defaultStart).evaluate (aliasedOnes false) ((aliasedOnes false).startAt 0)).2.position = 3 ∧
    ((Expr.rule defaultStart).evaluate (aliasedOnes true) ((aliasedOnes true).startAt 0)).1 =
      .done (some (.leaf (.str "1"))) ∧
    ((Expr.rule defaultStart).evaluate (aliasedOnes true) ((aliasedOnes true).startAt 0)).2.position = 1 := by
  have found (memoize : Bool) : (aliasedOnes memoize).grammar.lookup defaultStart =
      .ok (0, leftRecursive (.str "alias") [[.terminal (.str "+1")]] [.terminal (.str "1")]) := by rfl
  have chain (memoize : Bool) : (aliasedOnes memoize).grammar.Aliases defaultStart [.str "alias"] :=
    ⟨⟨1, by rfl⟩, trivial⟩
  have straight (memoize : Bool) :
      StraightParts (aliasedOnes memoize) [[.terminal (.str "+1")]] [.terminal (.str "1")] 0 := by
    refine .of_each rfl (by decide) (Int.natCast_nonneg _) ?_ ?_
    · simpa using straight_terminal rfl (by decide) (Int.natCast_nonneg _) rfl
    · simpa using fun _ low high => straight_terminal rfl low high rfl
  have forgotten := (indirect_left_recursion rfl (by simp) (by simp) (found false) (chain false)
    (by decide) (by decide) (straight false)).1 rfl { maxDepth := .none } rfl
  have remembered := (indirect_left_recursion rfl (by simp) (by simp) (found true) (chain true)
    (by decide) (by decide) (straight true)).2 rfl
  refine ⟨forgotten.1.trans ?_, forgotten.2.trans ?_, remembered.1.trans ?_, remembered.2.trans ?_⟩ <;> cbv

end SeedPeg
