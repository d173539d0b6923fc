import Mathlib
import SeedPeg.Proofs.Correspondence
import SeedPeg.Proofs.Equality
import SeedPeg.Proofs.Termination

/-!
# Interchange of equals

Matching does not tell equal values apart (`matching_respects_equality`): if the names and definitions
of two grammars are equal one by one, and so are the symbols of two inputs, matches end alike. Literals
that are equal agree with such inputs alike, names that are equal are those of equal rules at the same
place, and trees with equal literals are equal values.
-/

namespace SeedPeg

/-! ## Inputs and grammars that are equal -/

variable {input input' : Input} {grammar grammar' : Grammar}

/-- Inputs with equal symbols, whatever their form. -/
def Input.Equals (input input' : Input) : Prop :=
  List.Forall₂ (·.equals ·) input.symbols input'.symbols

/-- Grammars with equal names, in the same order, for equal definitions. -/
def Grammar.Equals (grammar grammar' : Grammar) : Prop :=
  List.Forall₂ (fun rule rule' => rule.1.equals rule'.1 ∧ rule.2.equals rule'.2) grammar.entries
    grammar'.entries

theorem Input.Equals.size (same : input.Equals input') : input'.size = input.size := by
  simpa using same.length_eq.symm

theorem Input.Equals.get? (same : input.Equals input') (place : Nat) :
    Option.Rel (·.equals ·) (input.get? place) (input'.get? place) := by
  rw [get?_eq, get?_eq]
  simp only [Equals] at same
  generalize input.symbols = symbols, input'.symbols = symbols' at same
  induction same generalizing place with
  | nil => exact .none
  | cons here _ ih =>
    cases place with
    | zero => exact .some here
    | succ place => exact ih place

/-- Equal symbols agree alike with equal inputs. -/
theorem Input.Equals.agreement (same : input.Equals input') {symbols symbols' : List Value}
    (equal : List.Forall₂ (·.equals ·) symbols symbols') (place : Nat) :
    input'.agreement symbols' place = input.agreement symbols place := by
  induction equal generalizing place with
  | nil => rfl
  | @cons symbol symbol' rest rest' here _ ih =>
    have found := same.get? place
    simp only [Input.agreement]
    generalize input.get? place = held, input'.get? place = held' at found
    cases found with
    | none => rfl
    | some found => simp only [Value.equals_congr found here, ih]

/-! ## What is equal is alike -/

namespace Likeness

/-- Equal literals, names and values, and faults of the same kind. -/
def equality : Likeness where
  literals literal literal' := literal.equals literal'
  names name name' := name.equals name'
  values value value' := value.equals value'
  faults cause cause' := cause'.kind = cause.kind

theorem Exprs.ofEquals {e e' : Expr} (same : e.equals e' = true) : equality.Exprs e e' := by
  induction e using Expr.byParts generalizing e' with
  | terminal literal => cases Expr.equals_iff.mp same with | terminal same => exact .terminal same
  | rule name => cases Expr.equals_iff.mp same with | rule same => exact .rule same
  | nothing =>
    cases Expr.equals_iff.mp same with | @sequence _ others same =>
    cases others with
    | nil => exact .nothing
    | cons => cases same
  | sequence item rest ihItem ihRest =>
    cases Expr.equals_iff.mp same with | @sequence _ others same =>
    cases others with
    | nil => cases same
    | cons other others =>
      obtain ⟨first, more⟩ := (Bool.and_eq_true _ _).mp same
      exact .sequence (ihItem first) (ihRest more)
  | never =>
    cases Expr.equals_iff.mp same with | @choice _ others same =>
    cases others with
    | nil => exact .never
    | cons => cases same
  | choice alternative rest ihFirst ihRest =>
    cases Expr.equals_iff.mp same with | @choice _ others same =>
    cases others with
    | nil => cases same
    | cons other others =>
      obtain ⟨first, more⟩ := (Bool.and_eq_true _ _).mp same
      exact .choice (ihFirst first) (ihRest more)
  | star element ih => cases Expr.equals_iff.mp same with | star same => exact .star (ih same)
  | plus element ih => cases Expr.equals_iff.mp same with | plus same => exact .plus (ih same)
  | optional element ih => cases Expr.equals_iff.mp same with | optional same => exact .optional (ih same)
  | ahead element ih => cases Expr.equals_iff.mp same with | ahead same => exact .ahead (ih same)
  | notAhead element ih => cases Expr.equals_iff.mp same with | notAhead same => exact .notAhead (ih same)
  | bare => cases Expr.equals_iff.mp same with | bare => exact .bare
  | plain value => cases Expr.equals_iff.mp same with | plain same => exact .plain same

theorem Trees.toValue_equals {tree tree' : Tree} (alike : equality.Trees tree tree') :
    tree.toValue.equals tree'.toValue = true := by
  induction alike with
  | leaf same => exact same
  | nil => rfl
  | cons _ _ ihFirst ihRest =>
    simp only [Tree.toValue, Tree.toValues, Value.equals, Value.equalAll, Bool.and_eq_true] at ihRest ⊢
    exact ⟨ihFirst, ihRest⟩
  | lookahead => rfl

end Likeness

/-- Equal grammars and equal inputs correspond, with the same ids. -/
def Grammar.Equals.correspondence (rules : grammar.Equals grammar') (symbols : input.Equals input')
    (options : Options) :
    Correspondence { input, grammar, options } { input := input', grammar := grammar', options } where
  toLikeness := .equality
  offset := 0
  ids id id' := id' = id
  size := symbols.size
  memoize := rfl
  maxDepth := rfl
  oneToOne := @Correspondence.sameIds_oneToOne
  literal same :=
    rel_imp (fun equal => ⟨equal.length_eq.symm, symbols.agreement equal⟩) (Value.symbols_of_equals same)
  lookup {name name'} same := by
    have found := Declarations.locate_related (fun e e' => e.equals e' = true) name name'
      (rules.imp fun _ _ equal => ⟨(Value.equals_congr equal.1 same).symm, equal.2⟩)
    simp only [Grammar.lookup, Declarations.find?, Value.isKey_of_equals same]
    split
    · generalize Declarations.locate name _ = held, Declarations.locate name' _ = held' at found
      cases found with
      | none => exact .missing rfl
      | some found => exact .rule found.1 (.ofEquals found.2)
    · exact .missing rfl
  unmade _ := rfl
  improper _ := rfl
  tooDeep _ := rfl
  incomparable := rfl
  abstract := rfl

/-- If rules stand for themselves, rows have entries for the same ones. -/
theorem Correspondence.Rows.get?_eq_none {first second : Setting} {c : Correspondence first second}
    (same : ∀ id, c.ids id id) {row row' : Row Entry} (rows : c.Rows row row') (key : Int) :
    row'.get? key = none ↔ row.get? key = none := by
  cases key with
  | ofNat id =>
    have both := rows.entries (same id)
    simp only [Int.ofNat_eq_natCast]
    generalize row.get? id = held, row'.get? id = held' at both
    cases both <;> simp
  | negSucc id =>
    -- ids are not negative
    have absent : row.get? (.negSucc id) = none := not_not.mp fun held => by
      obtain ⟨_, _, _, here⟩ := rows.forth held
      cases here
    have absent' : row'.get? (.negSucc id) = none := not_not.mp fun held => by
      obtain ⟨_, _, _, here⟩ := rows.back held
      cases here
    simp [absent, absent']

/-- Results with equal trees, with none in both, or with faults of the same kind. -/
inductive Outcome.Equals : Outcome (Option Tree) → Outcome (Option Tree) → Prop where
  | matched {tree tree'} : tree.toValue.equals tree'.toValue = true →
      Equals (.done (some tree)) (.done (some tree'))
  | mismatch : Equals (.done none) (.done none)
  | fault {cause cause'} : cause'.kind = cause.kind → Equals (.fault cause) (.fault cause')

theorem Outcome.Equals.ofResults {result result' : Result}
    (alike : Likeness.equality.Results result result') : result.Equals result' := by
  cases alike with
  | fault kinds => exact .fault kinds
  | done trees =>
    cases trees with
    | none => exact .mismatch
    | some trees => exact .matched trees.toValue_equals

/-- With equal grammars, equal starts and equal inputs, matches end with equal trees, with mismatches,
    or with faults of one kind; with the same cursor and depth, and with tables that have entries for the
    same rules at the same places. -/
theorem matching_respects_equality {start start' : Value} (rules : grammar.Equals grammar')
    (starts : start.equals start' = true) (symbols : input.Equals input') (options : Options) :
    let run := Matcher.run { grammar, start, options } input
    let run' := Matcher.run { grammar := grammar', start := start', options } input'
    run.1.Equals run'.1 ∧ run'.2.position = run.2.position ∧ run'.2.depth = run.2.depth ∧
      ∀ place key, (run'.2.memo.row place).get? key = none ↔ (run.2.memo.row place).get? key = none := by
  intro run run'
  let c := rules.correspondence symbols options
  have begun : c.States (.fresh input.size) (.fresh input'.size) := .fresh c
  obtain ⟨results, states⟩ := Correspondence.whole (c := c) starts .fresh begun
  refine ⟨.ofResults results, states.position.trans (Int.add_zero _), states.depth, fun place key => ?_⟩
  exact (states.memo.row place).get?_eq_none (fun _ => rfl) key

/-- Pairs of a one and, within a tuple, a zero, one after the other; the rule has the one for its name. -/
def pairing (one zero : Value) : Grammar where
  entries :=
    [(one, .choice [.sequence [.rule one, .terminal (.tuple [one, .tuple [zero]])],
      .terminal (.tuple [one, .tuple [zero]])])]
  distinct := List.pairwise_singleton ..
  proper := rfl

theorem pairs_of_truth_values :
    (pairing (.int 1) (.int 0)).Equals (pairing (.bool true) (.bool false)) ∧
      (Value.int 1).equals (.bool true) = true ∧
      (Input.list #[.int 1, .tuple [.int 0]]).Equals (.tuple #[.bool true, .tuple [.bool false]]) ∧
      let run' := Matcher.run { grammar := pairing (.bool true) (.bool false), start := .bool true }
        (.tuple #[.bool true, .tuple [.bool false]])
      (∃ tree, run'.1 = .done (some tree) ∧
        (Value.tuple [.int 1, .tuple [.int 0]]).equals tree.toValue = true) ∧ run'.2.position = 2 := by
  have rules : (pairing (.int 1) (.int 0)).Equals (pairing (.bool true) (.bool false)) :=
    .cons (by decide) .nil
  have symbols : (Input.list #[.int 1, .tuple [.int 0]]).Equals
      (.tuple #[.bool true, .tuple [.bool false]]) :=
    .cons (by decide) (.cons (by decide) .nil)
  have starts : (Value.int 1).equals (.bool true) = true := by decide
  have result : (Matcher.run { grammar := pairing (.int 1) (.int 0), start := .int 1 }
      (.list #[.int 1, .tuple [.int 0]])).1 =
      .done (some (.leaf (.tuple [.int 1, .tuple [.int 0]]))) := by cbv
  have position : (Matcher.run { grammar := pairing (.int 1) (.int 0), start := .int 1 }
      (.list #[.int 1, .tuple [.int 0]])).2.position = 2 := by cbv
  obtain ⟨results, positions, _⟩ := matching_respects_equality rules starts symbols {}
  rw [result] at results
  refine ⟨rules, starts, symbols, ?_, positions.trans position⟩
  generalize (Matcher.run { grammar := pairing (.bool true) (.bool false), start := .bool true }
    (.tuple #[.bool true, .tuple [.bool false]])).1 = result' at results ⊢
  cases results with | matched same => exact ⟨_, rfl, same⟩

end SeedPeg
