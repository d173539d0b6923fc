import Mathlib.Logic.Relation
import SeedPeg.Proofs.Straight

/-!
# A loop over tails

What a left-recursive rule comes to, written as a loop: starting from a tree and the cursor behind it, the
first of some tails of which all items match one after the other puts its trees behind the tree that is
there, for as long as there is such a tail and it moves on (`Turn`, `Loops`). Each item is matched on its
own, with nothing evaluated before. Where a choice among the tails has a meaning, it is what the loop
finds (`Means.firstTail`), and so it is with the alternatives of a choice (`Means.firstMatch`).
-/

namespace SeedPeg

/-- What an expression matches at a position, before which nothing was evaluated: a tree and the cursor
    behind it. -/
def Expr.matchAt (setting : Setting) (e : Expr) (position : Int) : Option (Tree × Int) :=
  match e.evaluate setting (setting.startAt position) with
  | (.done (some tree), s) => some (tree, s.position)
  | _ => none

/-- What the first of some alternatives matches that matches at a position. -/
def firstMatch (setting : Setting) (alternatives : List Expr) (position : Int) : Option (Tree × Int) :=
  alternatives.findSome? fun alternative => alternative.matchAt setting position

/-- What some items match one after the other from a position, if all of them match: the trees of those
    that are no lookaheads, and the cursor behind the last. -/
def matchInTurn (setting : Setting) : List Expr → Int → Option (List Tree × Int)
  | [], position => some ([], position)
  | item :: rest, position =>
    match item.matchAt setting position with
    | none => none
    | some (tree, middle) =>
      (matchInTurn setting rest middle).map fun (trees, stop) =>
        (if item.isKept then tree :: trees else trees, stop)

/-- What the first of some tails matches of which all items match from a position. -/
def firstTail (setting : Setting) (tails : List (List Expr)) (position : Int) :
    Option (List Tree × Int) :=
  tails.findSome? fun tail => matchInTurn setting tail position

/-- One turn: the first tail that matches at the cursor moves on, and its trees follow the tree that is
    there. -/
def Turn (setting : Setting) (tails : List (List Expr)) (now later : Tree × Int) : Prop :=
  ∃ trees, firstTail setting tails now.2 = some (trees, later.2) ∧ later.2 ≠ now.2 ∧
    later.1 = .node (now.1 :: trees)

/-- What is reached from a start in some turns. -/
abbrev Reached (setting : Setting) (tails : List (List Expr)) : Tree × Int → Tree × Int → Prop :=
  Relation.ReflTransGen (Turn setting tails)

/-- The loop: what is reached from a start after which there is no turn. -/
def Loops (setting : Setting) (tails : List (List Expr)) (start last : Tree × Int) : Prop :=
  Reached setting tails start last ∧ ∀ later, ¬ Turn setting tails last later

section

variable {setting : Setting} {tails : List (List Expr)} {start now later last : Tree × Int} {position : Int}

theorem Turn.unique (one : Turn setting tails now later) (other : Turn setting tails now last) :
    later = last := by
  obtain ⟨trees, found, _, made⟩ := one
  obtain ⟨others, found', _, made'⟩ := other
  rw [found] at found'
  obtain ⟨rfl, same⟩ := Prod.mk.inj (Option.some.inj found')
  exact Prod.ext (made.trans made'.symm) same

/-- The loop has one end. -/
theorem Loops.unique (one : Loops setting tails start now) (other : Loops setting tails start last) :
    now = last := by
  have settled {a b : Tree × Int} (reached : Reached setting tails a b)
      (ended : ∀ later, ¬ Turn setting tails a later) : a = b := by
    rcases Relation.ReflTransGen.cases_head reached with same | ⟨next, turn, _⟩
    · exact same
    · exact absurd turn (ended next)
  have functional : Relator.RightUnique (Turn setting tails) := fun _ _ _ => Turn.unique
  rcases Relation.ReflTransGen.total_of_right_unique functional one.1 other.1 with reached | reached
  · exact settled reached one.2
  · exact (settled reached other.2).symm

/-- Nothing is reached from where no tail matches and moves on. -/
theorem Loops.here
    (idle : ∀ trees stop, firstTail setting tails start.2 = some (trees, stop) → stop = start.2) :
    Loops setting tails start start := by
  constructor
  · exact .refl
  · rintro later ⟨trees, found, moved, _⟩
    exact moved (idle trees later.2 found)

theorem Loops.head (turn : Turn setting tails start now) (loops : Loops setting tails now last) :
    Loops setting tails start last :=
  ⟨.head turn loops.1, loops.2⟩

/-! ## Places in the input -/

variable (low : 0 ≤ position) (high : position ≤ setting.input.size)
include low high

/-- A match ends in the input, at its start or behind it. -/
theorem Expr.matchAt_inside {e : Expr} {tree : Tree} {stop : Int}
    (found : e.matchAt setting position = some (tree, stop)) :
    position ≤ stop ∧ stop ≤ setting.input.size := by
  simp only [Expr.matchAt] at found
  split at found
  · rename_i ran
    cases found
    have orderly := Expr.evaluate_orderly (State.Proper.fresh.moved low high) ran
    exact ⟨orderly.forward, orderly.proper.high⟩
  · cases found

theorem firstMatch_inside {alternatives : List Expr} {tree : Tree} {stop : Int}
    (found : firstMatch setting alternatives position = some (tree, stop)) :
    position ≤ stop ∧ stop ≤ setting.input.size := by
  obtain ⟨_, alternative, _, _, here, _⟩ := List.findSome?_eq_some_iff.mp found
  exact Expr.matchAt_inside low high here

theorem matchInTurn_inside {items : List Expr} {trees : List Tree} {stop : Int}
    (found : matchInTurn setting items position = some (trees, stop)) :
    position ≤ stop ∧ stop ≤ setting.input.size := by
  induction items generalizing position trees with
  | nil => cases found; exact ⟨Int.le_refl _, high⟩
  | cons item rest ih =>
    simp only [matchInTurn] at found
    split at found
    · cases found
    · rename_i tree middle here
      obtain ⟨behind, inside⟩ := Expr.matchAt_inside low high here
      obtain ⟨⟨others, last⟩, later, same⟩ := Option.map_eq_some_iff.mp found
      cases same
      obtain ⟨further, within⟩ := ih (by omega) inside later
      exact ⟨by omega, within⟩

theorem firstTail_inside {trees : List Tree} {stop : Int}
    (found : firstTail setting tails position = some (trees, stop)) :
    position ≤ stop ∧ stop ≤ setting.input.size := by
  obtain ⟨_, tail, _, _, here, _⟩ := List.findSome?_eq_some_iff.mp found
  exact matchInTurn_inside low high here

omit low high in
/-- What is reached lies in the input, at the start or behind it. -/
theorem Reached.inside (reached : Reached setting tails start now) (low : 0 ≤ start.2)
    (high : start.2 ≤ setting.input.size) : start.2 ≤ now.2 ∧ now.2 ≤ setting.input.size := by
  induction reached with
  | refl => exact ⟨Int.le_refl _, high⟩
  | tail _ turn ih =>
    obtain ⟨trees, found, _, _⟩ := turn
    have inside := firstTail_inside (Int.le_trans low ih.1) ih.2 found
    exact ⟨Int.le_trans ih.1 inside.1, inside.2⟩

/-! ## What the loop finds -/

variable (unlimited : setting.options.maxDepth = .none) {verdict : Verdict}
include unlimited

/-- Where an expression means something, it matches on its own as it means. -/
theorem Means.answers_alone {e : Expr} (means : Means setting e position verdict) :
    verdict.Answers (e.evaluate setting (setting.startAt position)).1
      (e.evaluate setting (setting.startAt position)).2.position := by
  have settled : Settled setting (setting.startAt position) := (Warm.fresh.moved low high).settled unlimited
  exact (settled.conforms unlimited rfl).1 verdict means

theorem Means.matchAt_eq_some {e : Expr} {tree : Tree} {stop : Int}
    (means : Means setting e position (.matched tree stop)) :
    e.matchAt setting position = some (tree, stop) := by
  have answers := means.answers_alone low high unlimited
  rcases ran : e.evaluate setting (setting.startAt position) with ⟨result, s⟩
  rw [ran] at answers
  obtain ⟨rfl, rfl⟩ := answers
  rw [Expr.matchAt, ran]

theorem Means.matchAt_eq_none {e : Expr} (means : Means setting e position .failed) :
    e.matchAt setting position = none := by
  have answers := means.answers_alone low high unlimited
  rcases ran : e.evaluate setting (setting.startAt position) with ⟨result, s⟩
  rw [ran] at answers
  cases answers
  rw [Expr.matchAt, ran]

/-- A choice that has a meaning matches what the first of its alternatives matches. -/
theorem Means.firstMatch {alternatives : List Expr}
    (means : Means setting (.choice alternatives) position verdict) (defined : verdict.IsDefined) :
    (verdict = .failed ∧ firstMatch setting alternatives position = none) ∨
    ∃ tree stop, verdict = .matched tree stop ∧
      firstMatch setting alternatives position = some (tree, stop) := by
  obtain ⟨derivation⟩ := means
  induction alternatives with
  | nil =>
    cases derivation with
    | never => exact .inl ⟨rfl, rfl⟩
    | interrupted first => cases first
  | cons alternative rest ih =>
    cases derivation with
    | interrupted => cases defined
    | chosen inner =>
      have here := Means.matchAt_eq_some low high unlimited ⟨inner⟩
      exact .inr ⟨_, _, rfl, by rw [SeedPeg.firstMatch, List.findSome?_cons, here]⟩
    | other inner later =>
      have here := Means.matchAt_eq_none low high unlimited ⟨inner⟩
      rw [SeedPeg.firstMatch, List.findSome?_cons, here]
      exact ih later

/-- A sequence that has a meaning matches what its items match one after the other. -/
theorem Means.matchInTurn {items : List Expr} (means : Means setting (.sequence items) position verdict)
    (defined : verdict.IsDefined) :
    (verdict = .failed ∧ matchInTurn setting items position = none) ∨
    ∃ trees stop, verdict = .matched (.node trees) stop ∧
      matchInTurn setting items position = some (trees, stop) := by
  obtain ⟨derivation⟩ := means
  induction items generalizing position verdict with
  | nil =>
    cases derivation with
    | nothing => exact .inr ⟨[], position, rfl, rfl⟩
    | interrupted first => cases first
  | cons item rest ih =>
    cases derivation with
    | interrupted => cases defined
    | broken inner =>
      have here := Means.matchAt_eq_none low high unlimited ⟨inner⟩
      exact .inl ⟨rfl, by rw [SeedPeg.matchInTurn, here]⟩
    | @item _ _ _ middle tree verdict inner later =>
      have here := Means.matchAt_eq_some low high unlimited ⟨inner⟩
      obtain ⟨behind, inside⟩ := Expr.matchAt_inside low high here
      have defined : verdict.IsDefined := by cases verdict <;> simp_all [Verdict.IsDefined, Verdict.prepend]
      rcases ih (by omega) inside defined later with ⟨rfl, missing⟩ | ⟨trees, stop, rfl, found⟩
      · exact .inl ⟨rfl, by simp only [SeedPeg.matchInTurn, here, missing, Option.map_none]⟩
      · refine .inr ⟨_, stop, rfl, ?_⟩
        simp only [SeedPeg.matchInTurn, here, found, Option.map_some]
        cases item.isKept <;> rfl

/-- A choice among sequences that has a meaning matches what the first of the tails matches. -/
theorem Means.firstTail (means : Means setting (.choice (tails.map .sequence)) position verdict)
    (defined : verdict.IsDefined) :
    (verdict = .failed ∧ firstTail setting tails position = none) ∨
    ∃ trees stop, verdict = .matched (.node trees) stop ∧
      firstTail setting tails position = some (trees, stop) := by
  obtain ⟨derivation⟩ := means
  induction tails with
  | nil =>
    cases derivation with
    | never => exact .inl ⟨rfl, rfl⟩
    | interrupted first => cases first
  | cons tail rest ih =>
    cases derivation with
    | interrupted => cases defined
    | chosen inner =>
      rcases Means.matchInTurn low high unlimited ⟨inner⟩ trivial with ⟨same, _⟩ | ⟨trees, stop, same, here⟩
      · cases same
      · exact .inr ⟨trees, stop, same, by rw [SeedPeg.firstTail, List.findSome?_cons, here]⟩
    | other inner later =>
      rcases Means.matchInTurn low high unlimited ⟨inner⟩ trivial with ⟨_, here⟩ | ⟨_, _, same, _⟩
      · rw [SeedPeg.firstTail, List.findSome?_cons, here]
        exact ih later
      · cases same

end

end SeedPeg
