import Mathlib
import SeedPeg.Proofs.Correspondence
import SeedPeg.Proofs.Renaming
import SeedPeg.Proofs.Termination

/-!
# The rest of the input

What is evaluated at a place of an input depends on the rest of the input only, not on what comes before
the place nor on how much that is (`evaluation_depends_on_the_rest`): an evaluation within an input
corresponds to one at the start of its rest, where all cursors are less by the length of what comes
before.
-/

namespace SeedPeg

/-! ## Inputs in a row -/

namespace Input

/-- Two inputs of one form in a row. -/
def append? : Input → Input → Option Input
  | .text chars, .text others => some (.text (chars ++ others))
  | .list items, .list others => some (.list (items ++ others))
  | .tuple items, .tuple others => some (.tuple (items ++ others))
  | .bytes bs, .bytes others => some (.bytes (bs ++ others))
  | _, _ => none

variable {before rest whole : Input} (joined : before.append? rest = some whole)
include joined

theorem symbols_append? : whole.symbols = before.symbols ++ rest.symbols := by
  cases before <;> cases rest <;> cases joined <;> simp [symbols]

theorem size_append? : whole.size = rest.size + before.size := by
  have length := congrArg List.length (symbols_append? joined)
  simpa [Nat.add_comm] using length

theorem get?_append? (place : Nat) : whole.get? (place + before.size) = rest.get? place := by
  rw [get?_eq, get?_eq, symbols_append? joined, List.getElem?_append_right (by simp)]
  simp

theorem agreement_append? (symbols : List Value) (place : Nat) :
    whole.agreement symbols (place + before.size) = rest.agreement symbols place := by
  induction symbols generalizing place with
  | nil => rfl
  | cons symbol others ih =>
    simp only [agreement, get?_append? joined, Nat.add_right_comm place before.size 1, ih]

end Input

/-! ## Shifted cursors -/

/-- The fault with the position that it names moved. -/
def Fault.shifted (distance : Nat) : Fault → Fault
  | .tooDeep limit name position => .tooDeep limit name (position + distance)
  | cause => cause

namespace Row

variable {α β : Type}

/-- The row with each of its items changed. -/
def map (change : α → β) (row : Row α) : Row β :=
  ⟨row.entries.map fun entry => (entry.1, change entry.2), List.pairwise_map.mpr row.ascending⟩

theorem get?_map (change : α → β) (row : Row α) (key : Int) :
    (row.map change).get? key = (row.get? key).map change := by
  simp only [get?, map]
  induction row.entries with
  | nil => rfl
  | cons first rest ih =>
    simp only [List.map_cons, find?]
    split
    · rfl
    · exact ih

end Row

section

variable {first second : Setting} {c : Correspondence first second}
  (ids : ∀ {id id'}, c.ids id id' → id' = id)
  (same : ∀ {literal literal'}, c.literals literal literal' → literal' = literal)
include ids same

/-- If rules and literals stand for themselves only, rows differ in the cursors that they keep. -/
theorem Correspondence.Rows.eq {row row' : Row Entry} (rows : c.Rows row row') :
    row' = row.map (Entry.shifted c.offset) := by
  refine Row.ext_get? fun key => ?_
  rw [Row.get?_map]
  by_cases held : row.get? key = none ∧ row'.get? key = none
  · rw [held.1, held.2]
    rfl
  · obtain ⟨id, id', related, here⟩ : ∃ id id', c.ids id id' ∧ key = id := by
      rcases Classical.not_and_iff_not_or_not.mp held with there | there
      · exact rows.forth there
      · obtain ⟨id, id', related, here⟩ := rows.back there
        exact ⟨id, id', related, by rw [here, ids related]⟩
    have both := rows.entries related
    rw [ids related, ← here] at both
    exact eq_map_of_rel (fun alike => alike.eq same) both

theorem Correspondence.Tables.rows_eq {table table' : MemoTable} (tables : c.Tables table table')
    (place : Nat) :
    table'.rows[place + c.offset]? =
      table.rows[place]?.map (Option.map (Row.map (Entry.shifted c.offset))) :=
  eq_map_of_rel (fun rows => eq_map_of_rel (fun row => Rows.eq ids same row) rows) (tables.rows place)

end

/-! ## Evaluation within an input -/

section

variable (grammar : Grammar) (options : Options)

/-- Evaluation at the start of an input and behind what comes before it. -/
def Input.correspondence {before rest whole : Input} (joined : before.append? rest = some whole) :
    Correspondence { input := rest, grammar, options } { input := whole, grammar, options } where
  literals literal literal' := literal' = literal
  names name name' := name' = name
  values value value' := value' = value
  faults cause cause' := cause' = cause.shifted before.size
  offset := before.size
  ids id id' := id' = id
  size := size_append? joined
  memoize := Eq.refl options.memoize
  maxDepth := Eq.refl options.maxDepth
  oneToOne := @Correspondence.sameIds_oneToOne
  literal {value value'} same := by
    rw [same]
    cases value.symbols? with
    | none => exact .none
    | some symbols => exact .some ⟨rfl, agreement_append? joined symbols⟩
  lookup {name name'} same := by
    rw [same]
    rcases found : grammar.lookup name with cause | ⟨id, body⟩
    · refine .missing ?_
      rcases Grammar.fault_of_lookup found with rfl | rfl <;> rfl
    · exact .rule rfl (.refl (fun _ => rfl) (fun _ => rfl) (fun _ => rfl) body)
  unmade same := by rw [same]; rfl
  improper same := by rw [same]; rfl
  tooDeep same := by rw [same]; rfl
  incomparable {kind} := show .incomparable kind = Fault.shifted _ (.incomparable kind) from rfl
  abstract := rfl

/-- Evaluating an expression within an input, where nothing is known, is as evaluating it at the start
    of the rest of the input: it ends with the same tree, mismatch or fault, with the cursor as far from
    where it was and the same depth, and the table has the same rows, with cursors moved by the length of
    what comes before, and no others. -/
theorem evaluation_depends_on_the_rest (e : Expr) {before rest whole : Input}
    (joined : before.append? rest = some whole) :
    let alone := e.evaluate { input := rest, grammar, options } (.fresh rest.size)
    let within := e.evaluate { input := whole, grammar, options }
      ((State.fresh whole.size).moved before.size)
    within.1 = alone.1.onFault (.shifted before.size) ∧
    within.2.position = alone.2.position + before.size ∧
    within.2.depth = alone.2.depth ∧
    (∀ place < before.size, within.2.memo.rows[place]? = some none) ∧
    ∀ place, within.2.memo.rows[place + before.size]? =
      alone.2.memo.rows[place]?.map (Option.map (Row.map (Entry.shifted before.size))) := by
  intro alone within
  let c := Input.correspondence grammar options joined
  have alike : c.Exprs e e := .refl (fun _ => rfl) (fun _ => rfl) (fun _ => rfl) e
  obtain ⟨results, states⟩ := Correspondence.evaluate alike .fresh (.fresh c)
  exact ⟨results.eq id id, states.position, states.depth, states.memo.absent,
    fun place => states.memo.rows_eq id id place⟩

end

theorem sums_behind_another_symbol :
    let before := Input.text #['x']
    let rest := Input.text #['1', '+', '1']
    let whole := Input.text #['x', '1', '+', '1']
    before.append? rest = some whole ∧
      let behind := (Expr.rule defaultStart).evaluate { input := whole, grammar := sums.grammar }
        ((State.fresh whole.size).moved before.size)
      behind.1 = .done (some (.node [.leaf (.str "1"), .leaf (.str "+1")])) ∧
        behind.2.position = 4 ∧ behind.2.memo.rows[0]? = some none := by
  intro before rest whole
  have joined : before.append? rest = some whole := rfl
  have result : ((Expr.rule defaultStart).evaluate { input := rest, grammar := sums.grammar }
      (.fresh rest.size)).1 = .done (some (.node [.leaf (.str "1"), .leaf (.str "+1")])) := by cbv
  have position : ((Expr.rule defaultStart).evaluate { input := rest, grammar := sums.grammar }
      (.fresh rest.size)).2.position = 3 := by cbv
  obtain ⟨results, positions, _, absent, _⟩ :=
    evaluation_depends_on_the_rest sums.grammar {} (.rule defaultStart) joined
  refine ⟨joined, ?_, ?_, absent 0 (by decide)⟩
  · rw [results, result]
    rfl
  · rw [positions, position]
    rfl

end SeedPeg
