import Mathlib
import SeedPeg.Proofs.Growth

/-!
# Left recursion as a fold

A rule that begins its first alternatives with itself computes what a loop does that never comes back to
where it has been: the other alternatives give a tree, and the tails are matched behind it one after the
other, each putting its trees behind what is there (`left_recursion_folds`). All that is asked is that the
parts are straight where the loop tries them (`StraightParts`); a part that came back to the rule would
find its marker, and would not be. Where results are not kept, the rule folds through aliases as well
(`LeftRecursive.folds`).
-/

namespace SeedPeg

/-- Evaluation of the other alternatives of a rule at a position, and of its tails at what the loop
    reaches from there, ends without a fault and reaches no left recursion. -/
structure StraightParts (setting : Setting) (tails : List (List Expr)) (bases : List Expr)
    (position : Int) : Prop where
  others : (Expr.choice bases).Straight setting position
  behind : ∀ seed now, firstMatch setting bases position = some seed → Reached setting tails seed now →
    (Expr.choice (tails.map .sequence)).Straight setting now.2

/-- Evaluation of a rule at a position, before which nothing was evaluated, ends as the loop over the
    tails does that begins with what the first of the other alternatives matches that matches; it fails
    where none matches. -/
structure Folds (setting : Setting) (name : Value) (tails : List (List Expr)) (bases : List Expr)
    (position : Int) : Prop where
  fails : firstMatch setting bases position = none →
    ((Expr.rule name).evaluate setting (setting.startAt position)).1 = .done none ∧
    ((Expr.rule name).evaluate setting (setting.startAt position)).2.position = position
  grows : ∀ seed, firstMatch setting bases position = some seed → ∃ last,
    Loops setting tails seed last ∧
    ((Expr.rule name).evaluate setting (setting.startAt position)).1 = .done (some last.1) ∧
    ((Expr.rule name).evaluate setting (setting.startAt position)).2.position = last.2

section

variable {setting : Setting} {name : Value} {id : Nat} {aliases : List Value} {tails : List (List Expr)}
  {bases : List Expr} {position : Int}

/-- Where nothing was evaluated, nothing is known of any rule. -/
theorem Setting.unknown_startAt (setting : Setting) (names : List Value) (position : Int) :
    (setting.startAt position).Holds setting names position none := by
  intro name _ id body _
  simp [State.known, State.fresh, MemoTable.known_ofLength]

variable (unlimited : setting.options.maxDepth = .none) (low : 0 ≤ position)
  (high : position ≤ setting.input.size)
include low high

/-- What the loop reaches lies in the input. -/
theorem Reached.inside_of_match {seed now : Tree × Int}
    (matched : firstMatch setting bases position = some seed) (reached : Reached setting tails seed now) :
    0 ≤ now.2 ∧ now.2 ≤ setting.input.size := by
  obtain ⟨behind, inside⟩ := firstMatch_inside low high matched
  obtain ⟨further, within⟩ := reached.inside (Int.le_trans low behind) inside
  exact ⟨Int.le_trans low (Int.le_trans behind further), within⟩

include unlimited

/-- The tails mean something where the loop tries them. -/
theorem StraightParts.rounds (parts : StraightParts setting tails bases position) {seed : Tree × Int}
    (matched : firstMatch setting bases position = some seed) {now : Tree × Int}
    (reached : Reached setting tails seed now) :
    ∃ verdict, Means setting (.choice (tails.map .sequence)) now.2 verdict ∧ verdict.IsDefined := by
  obtain ⟨lower, upper⟩ := reached.inside_of_match low high matched
  exact (straight_iff_means unlimited lower upper).mp (parts.behind seed now matched reached)

/-- A choice matches or does not if each of its alternatives does. -/
theorem Means.choice_defined {alternatives : List Expr}
    (each : ∀ alternative ∈ alternatives, alternative.Straight setting position) :
    ∃ verdict, Means setting (.choice alternatives) position verdict ∧ verdict.IsDefined := by
  induction alternatives with
  | nil => exact ⟨_, ⟨.never⟩, trivial⟩
  | cons alternative rest ih =>
    obtain ⟨verdict, ⟨first⟩, defined⟩ := (straight_iff_means unlimited low high).mp (each alternative (by simp))
    cases verdict with
    | matched tree stop => exact ⟨_, ⟨.chosen first⟩, trivial⟩
    | undefined => cases defined
    | failed =>
      obtain ⟨verdict, ⟨later⟩, defined⟩ := ih fun other inside => each other (by simp [inside])
      exact ⟨verdict, ⟨.other first later⟩, defined⟩

/-- A sequence matches or does not if each of its items does, wherever it is tried. -/
theorem Means.sequence_defined {items : List Expr} (each : ∀ item ∈ items, ∀ place : Int, 0 ≤ place →
      place ≤ setting.input.size → item.Straight setting place) :
    ∃ verdict, Means setting (.sequence items) position verdict ∧ verdict.IsDefined := by
  induction items generalizing position with
  | nil => exact ⟨_, ⟨.nothing⟩, trivial⟩
  | cons item rest ih =>
    obtain ⟨verdict, ⟨first⟩, defined⟩ :=
      (straight_iff_means unlimited low high).mp (each item (by simp) _ low high)
    cases verdict with
    | failed => exact ⟨_, ⟨.broken first⟩, trivial⟩
    | undefined => cases defined
    | matched tree middle =>
      obtain ⟨behind, inside⟩ :=
        Expr.matchAt_inside low high (Means.matchAt_eq_some low high unlimited ⟨first⟩)
      obtain ⟨verdict, ⟨later⟩, defined⟩ := ih (Int.le_trans low behind) inside
        fun other member => each other (by simp [member])
      refine ⟨_, ⟨.item first later⟩, ?_⟩
      rcases verdict with ⟨_ | _ | _, _⟩ | _ | _ <;> trivial

/-- The parts are straight where the loop tries them if each alternative and each item is straight
    wherever it is tried. -/
theorem StraightParts.of_each (others : ∀ base ∈ bases, base.Straight setting position)
    (behind : ∀ tail ∈ tails, ∀ item ∈ tail, ∀ place : Int, 0 ≤ place → place ≤ setting.input.size →
      item.Straight setting place) : StraightParts setting tails bases position := by
  refine ⟨(straight_iff_means unlimited low high).mpr (Means.choice_defined unlimited low high others), ?_⟩
  intro seed now matched reached
  obtain ⟨lower, upper⟩ := reached.inside_of_match low high matched
  refine (straight_iff_means unlimited lower upper).mpr (Means.choice_defined unlimited lower upper ?_)
  intro alternative inside
  obtain ⟨tail, member, rfl⟩ := List.mem_map.mp inside
  exact (straight_iff_means unlimited lower upper).mpr
    (Means.sequence_defined unlimited lower upper (behind tail member))

/-- A literal that is made of symbols is straight. -/
theorem straight_terminal {literal : Value} {symbols : List Value} (made : literal.symbols? = some symbols) :
    (Expr.terminal literal).Straight setting position := by
  refine (straight_iff_means unlimited low high).mpr ?_
  by_cases spells : setting.input.Spells symbols position (position + symbols.length)
  · exact ⟨_, ⟨.literal made spells⟩, trivial⟩
  · exact ⟨_, ⟨.mismatch made spells⟩, trivial⟩

/-- A left-recursive rule folds, through its aliases if no results are kept. -/
theorem LeftRecursive.folds (rule : LeftRecursive setting.grammar name id aliases tails bases)
    (forgets : aliases = [] ∨ setting.options.memoize = false)
    (parts : StraightParts setting tails bases position) : Folds setting name tails bases position := by
  have settled : Settled setting (setting.startAt position) :=
    (Warm.fresh.moved low high).settled unlimited
  have unknown := setting.unknown_startAt (name :: aliases) position
  obtain ⟨verdict, base, defined⟩ := (straight_iff_means unlimited low high).mp parts.others
  rcases base.firstMatch low high unlimited defined with ⟨rfl, missing⟩ | ⟨tree, stop, rfl, matched⟩
  · constructor
    case fails =>
      intro _
      obtain ⟨s, runs, ends⟩ := rule.fails unlimited settled unknown base
      rw [(runs_iff_evaluate settled.proper).mp runs]
      exact ⟨rfl, ends⟩
    case grows =>
      intro seed found
      rw [missing] at found
      cases found
  · constructor
    case fails =>
      intro missing
      rw [matched] at missing
      cases missing
    case grows =>
      intro seed found
      rw [matched] at found
      cases found
      have rounds : ∀ later, Reached setting tails (tree, stop) later → _ :=
        fun _ reached => parts.rounds unlimited low high matched reached
      obtain ⟨last, s, loops, runs, ends⟩ := rule.ripens unlimited settled unknown base
        fun s1 stage => rule.grows unlimited forgets base (tree, stop) stage (Int.le_refl stop) rounds
      rw [(runs_iff_evaluate settled.proper).mp runs]
      exact ⟨last, loops, rfl, ends⟩

end

/-- Let a rule be a choice of which the first alternatives begin with the rule itself, each with a tail
    behind it. Then its evaluation at a position, before which nothing was evaluated, ends as the loop over
    the tails does, whether results are kept or not, if the parts are straight where the loop tries them. -/
theorem left_recursion_folds {setting : Setting} (unlimited : setting.options.maxDepth = .none)
    {name : Value} {id : Nat} {tails : List (List Expr)} {bases : List Expr} (recursive : tails ≠ [])
    (found : setting.grammar.lookup name = .ok (id, leftRecursive name tails bases)) {position : Int}
    (low : 0 ≤ position) (high : position ≤ setting.input.size)
    (parts : StraightParts setting tails bases position) : Folds setting name tails bases position := by
  have rule : LeftRecursive setting.grammar name id [] tails bases := ⟨found, trivial, recursive⟩
  exact rule.folds unlimited low high (.inl rfl) parts

/-- Two ones, to be added without a limit. -/
def twoOnes : Setting where
  input := .text #['1', '+', '1']
  grammar := sums.grammar
  options := { maxDepth := .none }

theorem twoOnes_fold :
    StraightParts twoOnes [[.terminal (.str "+1")]] [.terminal (.str "1")] 0 ∧
    Loops twoOnes [[.terminal (.str "+1")]] (.leaf (.str "1"), 1)
      (.node [.leaf (.str "1"), .leaf (.str "+1")], 3) ∧
    ((Expr.rule defaultStart).evaluate twoOnes (twoOnes.startAt 0)).1 =
      .done (some (.node [.leaf (.str "1"), .leaf (.str "+1")])) ∧
    ((Expr.rule defaultStart).evaluate twoOnes (twoOnes.startAt 0)).2.position = 3 := by
  have matched : firstMatch twoOnes [.terminal (.str "1")] 0 = some (.leaf (.str "1"), 1) := by cbv
  have turns : firstTail twoOnes [[.terminal (.str "+1")]] 1 = some ([.leaf (.str "+1")], 3) := by cbv
  have ends : firstTail twoOnes [[.terminal (.str "+1")]] 3 = none := by cbv
  have loops : Loops twoOnes [[.terminal (.str "+1")]] (.leaf (.str "1"), 1)
      (.node [.leaf (.str "1"), .leaf (.str "+1")], 3) :=
    .head ⟨_, turns, by decide, rfl⟩ (.here fun _ _ found => by rw [ends] at found; cases found)
  have found : twoOnes.grammar.lookup defaultStart =
      .ok (0, leftRecursive defaultStart [[.terminal (.str "+1")]] [.terminal (.str "1")]) := by rfl
  have straight : StraightParts twoOnes [[.terminal (.str "+1")]] [.terminal (.str "1")] 0 := by
    refine .of_each rfl (by decide) (by decide) ?_ ?_
    · simpa using straight_terminal rfl (by decide) (by decide) rfl
    · simpa using fun _ low high => straight_terminal rfl low high rfl
  obtain ⟨_, folds⟩ := left_recursion_folds rfl (by simp) found (by decide) (by decide) straight
  obtain ⟨last, loops', ended, place⟩ := folds _ matched
  obtain rfl := loops.unique loops'
  exact ⟨straight, loops, ended, place⟩

end SeedPeg
