import SeedPeg.Proofs.Evaluator
import SeedPeg.Proofs.Likeness

/-!
# Correspondences

Two settings correspond if what is alike in them is found alike: literals agree with the inputs alike,
names that stand for each other are those of rules with definitions that are alike, and limits are the
same (`Correspondence`). The second input may be longer at its start, and rules may have other ids.
States that correspond have cursors at the same distance from the ends of the inputs, and tables that
hold the same for the same rules and positions. Then whatever is run from them ends alike, in states
that correspond (`Runs.corresponds`).
-/

namespace SeedPeg

/-- What looking up names that stand for each other gives. -/
inductive Likeness.Found (like : Likeness) (ids : Nat → Nat → Prop) :
    Except Fault (Nat × Expr) → Except Fault (Nat × Expr) → Prop where
  | missing {cause cause'} : like.faults cause cause' → Found like ids (.error cause) (.error cause')
  | rule {id id' body body'} : ids id id' → like.Exprs body body' →
      Found like ids (.ok (id, body)) (.ok (id', body'))

/-- What makes evaluation in two settings alike. The second input has so many symbols more at its
    start, and rules stand for each other one to one. -/
structure Correspondence (first second : Setting) extends Likeness where
  offset : Nat
  ids : Nat → Nat → Prop
  size : second.input.size = first.input.size + offset
  memoize : second.options.memoize = first.options.memoize
  maxDepth : second.options.maxDepth = first.options.maxDepth
  oneToOne : ∀ {id id' other other'}, ids id id' → ids other other' → (id = other ↔ id' = other')
  literal : ∀ {value value'}, literals value value' →
    Option.Rel (fun symbols symbols' => symbols'.length = symbols.length ∧ ∀ place,
        second.input.agreement symbols' (place + offset) = first.input.agreement symbols place)
      value.symbols? value'.symbols?
  lookup : ∀ {name name'}, names name name' →
    toLikeness.Found ids (first.grammar.lookup name) (second.grammar.lookup name')
  unmade : ∀ {value value'}, literals value value' →
    faults (.notIterable value.kindName) (.notIterable value'.kindName)
  improper : ∀ {value value'}, values value value' →
    faults (.noExpression value.kindName .evaluate) (.noExpression value'.kindName .evaluate)
  tooDeep : ∀ {limit name name' position}, names name name' →
    faults (.tooDeep limit name position) (.tooDeep limit name' (position + offset))
  incomparable : ∀ {kind}, faults (.incomparable kind) (.incomparable kind)
  abstract : faults .abstract .abstract

/-- Ids that stand for themselves do so one to one. -/
theorem Correspondence.sameIds_oneToOne {id id' other other' : Nat} (same : id' = id)
    (others : other' = other) : id = other ↔ id' = other' := by
  rw [same, others]

/-- The entry with the cursor that it keeps moved. -/
def Entry.shifted (distance : Nat) : Entry → Entry
  | .marker detected => .marker detected
  | .resolved tree next => .resolved tree (next + distance)

namespace Correspondence

variable {first second : Setting} (c : Correspondence first second)

/-! ## Tables that correspond -/

/-- The same entry, with a tree and a cursor of the other setting. -/
inductive Entries : Entry → Entry → Prop where
  | marker (detected) : Entries (.marker detected) (.marker detected)
  | resolved {tree tree' next} : Option.Rel c.Trees tree tree' →
      Entries (.resolved tree next) (.resolved tree' (next + c.offset))

/-- Rows with the same entries for rules that stand for each other, and none for others. -/
structure Rows (row row' : Row Entry) : Prop where
  entries : ∀ {id id'}, c.ids id id' → Option.Rel c.Entries (row.get? id) (row'.get? id')
  forth : ∀ {key}, row.get? key ≠ none → ∃ id id', c.ids id id' ∧ key = id
  back : ∀ {key}, row'.get? key ≠ none → ∃ id id', c.ids id id' ∧ key = id'

/-- Tables with the same rows, in front of which the second has rows that are not there. -/
structure Tables (table table' : MemoTable) : Prop where
  size : table'.rows.size = table.rows.size + c.offset
  absent : ∀ place < c.offset, table'.rows[place]? = some none
  rows : ∀ place, Option.Rel (Option.Rel c.Rows) table.rows[place]? table'.rows[place + c.offset]?

variable {c} {entry entry' : Entry} {id id' : Nat}

theorem Entries.ofResult {tree tree' : Option Tree} (trees : Option.Rel c.Trees tree tree')
    (position next : Int) :
    c.Entries (.ofResult position tree next) (.ofResult (position + c.offset) tree' (next + c.offset)) := by
  cases trees with
  | none => exact .resolved .none
  | some trees => exact .resolved (.some trees)

/-- If literals stand for themselves only, entries differ in the cursors that they keep. -/
theorem Entries.eq (same : ∀ {literal literal'}, c.literals literal literal' → literal' = literal)
    (alike : c.Entries entry entry') : entry' = entry.shifted c.offset := by
  cases alike with
  | marker detected => rfl
  | resolved trees => rw [Likeness.eq_of_rel_trees same trees]; rfl

namespace Rows

variable {row row' : Row Entry}

theorem empty : c.Rows .empty .empty :=
  ⟨fun _ => .none, fun held => absurd rfl held, fun held => absurd rfl held⟩

theorem insert (rows : c.Rows row row') (same : c.ids id id') (entries : c.Entries entry entry') :
    c.Rows (row.insert id entry) (row'.insert id' entry') where
  entries {other other'} others := by
    simp only [Row.get?_insert, Int.ofNat_inj]
    have both := c.oneToOne others same
    by_cases here : other = id
    · rw [if_pos here, if_pos (both.mp here)]
      exact .some entries
    · rw [if_neg here, if_neg fun there => here (both.mpr there)]
      exact rows.entries others
  forth {key} held := by
    by_cases here : key = id
    · exact ⟨id, id', same, here⟩
    · rw [Row.get?_insert, if_neg here] at held
      exact rows.forth held
  back {key} held := by
    by_cases here : key = id'
    · exact ⟨id, id', same, here⟩
    · rw [Row.get?_insert, if_neg here] at held
      exact rows.back held

theorem erase (rows : c.Rows row row') (same : c.ids id id') :
    c.Rows (row.erase id) (row'.erase id') where
  entries {other other'} others := by
    simp only [Row.get?_erase, Int.ofNat_inj]
    have both := c.oneToOne others same
    by_cases here : other = id
    · rw [if_pos here, if_pos (both.mp here)]
      exact .none
    · rw [if_neg here, if_neg fun there => here (both.mpr there)]
      exact rows.entries others
  forth {key} held := by
    rw [Row.get?_erase] at held
    split at held
    · exact absurd rfl held
    · exact rows.forth held
  back {key} held := by
    rw [Row.get?_erase] at held
    split at held
    · exact absurd rfl held
    · exact rows.back held

end Rows

namespace Tables

variable {table table' : MemoTable}

theorem ofLength (length : Nat) : c.Tables (.ofLength length) (.ofLength (length + c.offset : Nat)) where
  size := by
    rw [MemoTable.size_rows_ofLength, MemoTable.size_rows_ofLength]
    omega
  absent place below := by
    simp only [MemoTable.ofLength, Array.getElem?_replicate]
    rw [if_pos (by omega)]
  rows place := by
    simp only [MemoTable.ofLength, Array.getElem?_replicate]
    by_cases inside : place < length + 1
    · rw [if_pos (by omega), if_pos (by omega)]
      exact .some .none
    · rw [if_neg (by omega), if_neg (by omega)]
      exact .none

theorem row (tables : c.Tables table table') (place : Nat) :
    c.Rows (table.row place) (table'.row (place + c.offset)) := by
  have rows := tables.rows place
  simp only [MemoTable.row]
  generalize table.rows[place]? = held, table'.rows[place + c.offset]? = held' at rows
  cases rows with
  | none => exact .empty
  | some rows =>
    cases rows with
    | none => exact .empty
    | some rows => exact rows

/-- Changing rows in the same place alike keeps tables alike. -/
theorem modify {change change' : Option (Row Entry) → Option (Row Entry)}
    (tables : c.Tables table table') (place : Nat)
    (alike : ∀ {row row'}, Option.Rel c.Rows row row' → Option.Rel c.Rows (change row) (change' row')) :
    c.Tables ⟨table.rows.modify place change⟩ ⟨table'.rows.modify (place + c.offset) change'⟩ where
  size := by simpa using tables.size
  absent other below := by
    rw [Array.getElem?_modify, if_neg (by omega)]
    exact tables.absent other below
  rows other := by
    rw [Array.getElem?_modify, Array.getElem?_modify]
    have rows := tables.rows other
    by_cases here : place = other
    · rw [if_pos here, if_pos (by omega)]
      generalize table.rows[other]? = held, table'.rows[other + c.offset]? = held' at rows
      cases rows with
      | none => exact .none
      | some rows => exact .some (alike rows)
    · rw [if_neg here, if_neg (by omega)]
      exact rows

theorem put (tables : c.Tables table table') (place : Nat) (same : c.ids id id')
    (entries : c.Entries entry entry') :
    c.Tables (table.put place id entry) (table'.put (place + c.offset) id' entry') := by
  refine tables.modify place fun rows => ?_
  cases rows with
  | none => exact .some (Rows.empty.insert same entries)
  | some rows => exact .some (rows.insert same entries)

theorem remove (tables : c.Tables table table') (place : Nat) (same : c.ids id id') :
    c.Tables (table.remove place id) (table'.remove (place + c.offset) id') := by
  refine tables.modify place fun rows => ?_
  cases rows with
  | none => exact .none
  | some rows => exact .some (rows.erase same)

theorem known (tables : c.Tables table table') {position : Int} (low : 0 ≤ position)
    (same : c.ids id id') :
    Option.Rel c.Entries (table.known ⟨id, position⟩) (table'.known ⟨id', position + c.offset⟩) := by
  have place : (position + c.offset).toNat = position.toNat + c.offset := by omega
  have low' : 0 ≤ position + c.offset := by omega
  simp only [MemoTable.known, low, low', ↓reduceIte, place]
  exact (tables.row position.toNat).entries same

/-- What the second table knows, the first knows of a position before it. -/
theorem known_back (tables : c.Tables table table') {site' : Site}
    (found : table'.known site' = some entry') :
    ∃ site entry, site'.position = site.position + c.offset ∧ table.known site = some entry ∧
      c.Entries entry entry' := by
  obtain ⟨low, _⟩ := MemoTable.inside_of_known found
  simp only [MemoTable.known, low, ↓reduceIte] at found
  by_cases before : site'.position.toNat < c.offset
  · have absent := tables.absent _ before
    simp [MemoTable.row, absent] at found
  · obtain ⟨place, here⟩ : ∃ place, site'.position.toNat = place + c.offset :=
      ⟨_, (Nat.sub_add_cancel (by omega)).symm⟩
    rw [here] at found
    have rows := tables.row place
    obtain ⟨id, id', same, there⟩ := rows.back (by rw [found]; simp)
    have entries := rows.entries same
    rw [← there, found] at entries
    obtain ⟨entry, held, alike⟩ : ∃ entry, (table.row place).get? id = some entry ∧
        c.Entries entry entry' := by
      cases held : (table.row place).get? id with
      | none => rw [held] at entries; cases entries
      | some entry => rw [held] at entries; cases entries with | some alike => exact ⟨entry, rfl, alike⟩
    refine ⟨⟨id, place⟩, entry, ?_, ?_, alike⟩
    · show site'.position = (place : Int) + c.offset
      omega
    · simpa [MemoTable.known] using held

end Tables

/-! ## States that correspond -/

/-- States with cursors at the same distance from the ends and with tables that correspond. -/
structure States (c : Correspondence first second) (s t : State) : Prop where
  position : t.position = s.position + c.offset
  depth : t.depth = s.depth
  memo : c.Tables s.memo t.memo

variable {s t s1 t1 : State} {name name' : Value} {position position' : Int} {tree tree' : Option Tree}

namespace States

section

variable (states : c.States s t)
include states

theorem proper (sound : s.Proper first) : t.Proper second where
  low := by have := sound.low; have := states.position; omega
  high := by have := sound.high; have := states.position; have := c.size; omega
  rows := by have := sound.rows; have := states.memo.size; have := c.size; omega
  results {site' tree' next'} found := by
    obtain ⟨site, entry, place, held, alike⟩ := states.memo.known_back found
    cases alike with
    | @resolved tree _ next trees =>
      obtain ⟨behind, inside, mismatch⟩ := sound.results held
      have size := c.size
      refine ⟨by omega, by omega, ?_⟩
      rintro rfl
      cases trees
      rw [mismatch rfl, place]

theorem moved (position : Int) : c.States (s.moved position) (t.moved (position + c.offset)) :=
  ⟨rfl, states.depth, states.memo⟩

theorem told (event event' : Event) : c.States (s.told first event) (t.told second event') :=
  ⟨by simpa using states.position, by simpa using states.depth, by simpa using states.memo⟩

theorem restored (back : Bool) (there : position' = position + c.offset) :
    c.States (s.restored back position) (t.restored back position') := by
  cases back with
  | false => exact states
  | true => rw [there]; exact states.moved _

/-- The cursor has moved in both or in none. -/
theorem idle (later : c.States s1 t1) :
    decide (t1.position = t.position) = decide (s1.position = s.position) := by
  rw [later.position, states.position, decide_eq_decide]
  omega

/-- Rule applications are refused alike. -/
theorem refusal (names : c.names name name') :
    Option.Rel c.faults (first.refusal name s) (second.refusal name' t) := by
  have reached : second.options.limitReached t.depth = first.options.limitReached s.depth := by
    simp only [Options.limitReached, c.maxDepth, states.depth]
  simp only [Setting.refusal, reached, c.maxDepth, states.position]
  rcases limit : first.options.limitReached s.depth with cause | reached
  · simp only [Options.limitReached] at limit
    split at limit
    · cases limit
    · split at limit <;> cases limit
      exact .some c.incomparable
  · cases reached with
    | true => exact .some (c.tooDeep names)
    | false => exact .none

theorem accepted (names : c.names name name') (accepted : first.refusal name s = none) :
    second.refusal name' t = none := by
  have both := states.refusal names
  rw [accepted] at both
  exact eq_none_of_rel_none both

end

/-! ### Sites that correspond -/

section

variable (states : c.States s t) (low : 0 ≤ position) (there : position' = position + c.offset)
  (same : c.ids id id')
include states low there same

theorem known : Option.Rel c.Entries (s.known ⟨id, position⟩) (t.known ⟨id', position'⟩) := by
  rw [there]
  exact states.memo.known low same

theorem marked {detected : Bool} (known : s.known ⟨id, position⟩ = some (.marker detected)) :
    t.known ⟨id', position'⟩ = some (.marker detected) := by
  have both := states.known low there same
  rw [known] at both
  obtain ⟨entry, found, alike⟩ := exists_of_rel_some both
  cases alike
  exact found

theorem remembered {next : Int} (known : s.known ⟨id, position⟩ = some (.resolved tree next)) :
    ∃ tree', t.known ⟨id', position'⟩ = some (.resolved tree' (next + c.offset)) ∧
      Option.Rel c.Trees tree tree' := by
  have both := states.known low there same
  rw [known] at both
  obtain ⟨entry, found, alike⟩ := exists_of_rel_some both
  cases alike with | resolved trees => exact ⟨_, found, trees⟩

theorem unknown (known : s.known ⟨id, position⟩ = none) : t.known ⟨id', position'⟩ = none := by
  have both := states.known low there same
  rw [known] at both
  exact eq_none_of_rel_none both

theorem put (entries : c.Entries entry entry') :
    c.States (s.put ⟨id, position⟩ entry) (t.put ⟨id', position'⟩ entry') where
  position := states.position
  depth := states.depth
  memo := by
    have place : position'.toNat = position.toNat + c.offset := by omega
    simp only [State.put, place]
    exact states.memo.put _ same entries

theorem drop : c.States (s.drop ⟨id, position⟩) (t.drop ⟨id', position'⟩) where
  position := states.position
  depth := states.depth
  memo := by
    have place : position'.toNat = position.toNat + c.offset := by omega
    simp only [State.drop, place]
    exact states.memo.remove _ same

theorem planted (trees : Option.Rel c.Trees tree tree') :
    c.States (s.put ⟨id, position⟩ (.ofResult position tree s.position))
      (t.put ⟨id', position'⟩ (.ofResult position' tree' t.position)) := by
  refine states.put low there same ?_
  rw [there, states.position]
  exact .ofResult trees _ _

theorem closed (trees : Option.Rel c.Trees tree tree') :
    c.States (s.closed first name ⟨id, position⟩ tree) (t.closed second name' ⟨id', position'⟩ tree') := by
  have lower : c.States { s with depth := s.depth - 1 } { t with depth := t.depth - 1 } :=
    ⟨states.position, by rw [states.depth], states.memo⟩
  have ended : c.States
      (if tree.isSome then
          { s with depth := s.depth - 1 }.told first (.matched name position s.position)
        else ({ s with depth := s.depth - 1 }.moved position).told first (.failed name position))
      (if tree'.isSome then
          { t with depth := t.depth - 1 }.told second (.matched name' position' t.position)
        else ({ t with depth := t.depth - 1 }.moved position').told second (.failed name' position')) := by
    cases trees with
    | none => rw [there]; exact (lower.moved position).told _ _
    | some trees => exact lower.told _ _
  simp only [State.closed, c.memoize]
  cases first.options.memoize with
  | true => exact ended
  | false => exact ended.drop low there same

theorem flagged (detected : Bool) :
    c.States (s.flagged first name ⟨id, position⟩ detected)
      (t.flagged second name' ⟨id', position'⟩ detected) := by
  cases detected with
  | true => exact states
  | false => exact (states.told _ _).put low there same (.marker true)

end

theorem opened (states : c.States s t) (low : 0 ≤ s.position) (same : c.ids id id') :
    c.States (s.opened first name id) (t.opened second name' id') := by
  have told := states.told (.parsing name s.position) (.parsing name' t.position)
  have raised : c.States { s.told first (.parsing name s.position) with depth := s.depth + 1 }
      { t.told second (.parsing name' t.position) with depth := t.depth + 1 } :=
    ⟨told.position, by rw [states.depth], told.memo⟩
  exact raised.put low states.position same (.marker false)

end States

/-! ## Runs that correspond -/

/-- Tasks with expressions that are alike, at positions that correspond. -/
inductive Tasks (c : Correspondence first second) : Task → Task → Prop where
  | expr {e e'} : c.Exprs e e' → Tasks c (.expr e) (.expr e')
  | fresh {name name' id id' body body'} : c.names name name' → c.ids id id' → c.Exprs body body' →
      Tasks c (.fresh name id body) (.fresh name' id' body')
  | growth {name name' id id' body body'} {position position' : Int} : c.names name name' → c.ids id id' →
      c.Exprs body body' → position' = position + c.offset →
      Tasks c (.growth name id body position) (.growth name' id' body' position')

/-- A name that cannot be looked up stands for one that cannot be either. -/
theorem undeclared {cause : Fault} (names : c.names name name')
    (missing : first.grammar.lookup name = .error cause) :
    ∃ cause', second.grammar.lookup name' = .error cause' ∧ c.faults cause cause' := by
  have found := c.lookup names
  rw [missing] at found
  generalize second.grammar.lookup name' = looked at found
  cases found with | missing causes => exact ⟨_, rfl, causes⟩

theorem declared {body : Expr} (names : c.names name name')
    (found : first.grammar.lookup name = .ok (id, body)) :
    ∃ id' body', second.grammar.lookup name' = .ok (id', body') ∧ c.ids id id' ∧ c.Exprs body body' := by
  have both := c.lookup names
  rw [found] at both
  generalize second.grammar.lookup name' = looked at both
  cases both with | rule same bodies => exact ⟨_, _, rfl, same, bodies⟩

/-- Literals that stand for each other are matched alike. -/
theorem States.literal {literal literal' : Value} (states : c.States s t) (sound : s.Proper first)
    (same : c.literals literal literal') {result : Result}
    (matched : Action.literal first literal s = (result, s1)) :
    ∃ result' t1, Action.literal second literal' t = (result', t1) ∧ c.Results result result' ∧
      c.States s1 t1 := by
  have sound' := states.proper sound
  have symbols := c.literal same
  cases made : literal.symbols? with
  | none =>
    cases made' : literal'.symbols? with
    | some symbols' => rw [made, made'] at symbols; cases symbols
    | none =>
      rw [literal_fault made] at matched
      cases matched
      exact ⟨_, _, literal_fault made', .fault (c.unmade same), states⟩
  | some list =>
    cases made' : literal'.symbols? with
    | none => rw [made, made'] at symbols; cases symbols
    | some list' =>
      rw [made, made'] at symbols
      cases symbols with
      | some agree =>
        obtain ⟨length, agree⟩ := agree
        have low := sound.low
        have place : t.position.toNat = s.position.toNat + c.offset := by
          have := states.position; omega
        rw [literal_apply sound made] at matched
        cases matched
        refine ⟨_, _, literal_apply sound' made', ?_, ?_⟩
        · rw [place, agree, length]
          split
          · exact .done (.some (.leaf same))
          · exact .done .none
        · rw [place, agree, states.position, Int.add_right_comm]
          exact states.moved _

end Correspondence

open Correspondence

/-- What is run in corresponding states ends alike, in corresponding states. -/
theorem Runs.corresponds {first second : Setting} {c : Correspondence first second}
    {task task' : Task} {s s' t : State} {result : Result} (runs : Runs first task s result s')
    (ready : task.Ready first s) (tasks : c.Tasks task task') (states : c.States s t) :
    ∃ result' t', Runs second task' t result' t' ∧ c.Results result result' ∧ c.States s' t' := by
  -- each rule of the first run is one of the second, as what decides on it is alike: lookups, what
  -- is known of a site, refusals, and whether the cursor has moved
  induction runs generalizing task' t with
  | terminal matched =>
    cases tasks with | expr alike => cases alike with | terminal same =>
    obtain ⟨result', t', matched', ended, later⟩ := states.literal ready same matched
    exact ⟨result', t', .terminal matched', ended, later⟩
  | bare =>
    cases tasks with | expr alike =>
    cases alike
    exact ⟨_, t, .bare, .fault c.abstract, states⟩
  | plain =>
    cases tasks with | expr alike => cases alike with | plain same =>
    exact ⟨_, t, .plain, .fault (c.improper same), states⟩
  | nothing =>
    cases tasks with | expr alike =>
    cases alike
    exact ⟨_, t, .nothing, .done (.some .nil), states⟩
  | never =>
    cases tasks with | expr alike =>
    cases alike
    exact ⟨_, t, .never, .done .none, states⟩
  | stop begun _ after ih =>
    cases tasks with | expr alike =>
    obtain ⟨part', begun', parts⟩ := alike.first? begun
    obtain ⟨result', t1, runs', results, later⟩ := ih ready (.expr parts) states
    obtain ⟨ended', after', ends⟩ := alike.stop results after
    rw [← states.idle later] at after'
    exact ⟨ended', _, .stop begun' runs' after', ends, later.restored _ states.position⟩
  | @go e part s result s1 next back trees ended s2 begun runs after _ ihPart ihNext =>
    cases tasks with | expr alike =>
    obtain ⟨part', begun', parts⟩ := alike.first? begun
    obtain ⟨result', t1, runs', results, later⟩ := ihPart ready (.expr parts) states
    obtain ⟨next', trees', after', nexts, before⟩ := alike.go results after
    rw [← states.idle later] at after'
    have ready1 := Task.Ready.next ready (runs.orderly ready) back next
    obtain ⟨ended', t2, more, ends, last⟩ :=
      ihNext ready1 (.expr nexts) (later.restored back states.position)
    exact ⟨_, t2, .go begun' runs' after' more, ends.prepend before, last⟩
  | unknown missing =>
    cases tasks with | expr alike => cases alike with | rule names =>
    obtain ⟨cause', missing', causes⟩ := c.undeclared names missing
    exact ⟨_, t, .unknown missing', .fault causes, states⟩
  | marked found known =>
    cases tasks with | expr alike => cases alike with | rule names =>
    obtain ⟨id', body', found', same, _⟩ := c.declared names found
    have low := State.Proper.low ready
    exact ⟨_, _, .marked found' (states.marked low states.position same known), .done .none,
      states.flagged low states.position same _⟩
  | @remembered name id body tree next s found known =>
    cases tasks with | expr alike => cases alike with | rule names =>
    obtain ⟨id', body', found', same, _⟩ := c.declared names found
    obtain ⟨tree', known', trees⟩ := states.remembered (State.Proper.low ready) states.position same known
    refine ⟨_, _, .remembered found' known', .done trees, ?_⟩
    cases trees with
    | none => exact states
    | some trees => exact states.moved next
  | applied found unknown _ ih =>
    cases tasks with | expr alike => cases alike with | rule names =>
    obtain ⟨id', body', found', same, bodies⟩ := c.declared names found
    have unknown' := states.unknown (State.Proper.low ready) states.position same unknown
    obtain ⟨result', t1, runs', ends, later⟩ :=
      ih (Task.Ready.applied ready found unknown) (.fresh names same bodies) states
    exact ⟨result', t1, .applied found' unknown' runs', ends, later⟩
  | refused refused =>
    cases tasks with | fresh names same bodies =>
    have both := states.refusal names
    rw [refused] at both
    obtain ⟨cause', refused', causes⟩ := exists_of_rel_some both
    exact ⟨_, t, .refused refused', .fault causes, states⟩
  | broken accepted _ ih =>
    cases tasks with | fresh names same bodies =>
    obtain ⟨result', t1, runs', ends, later⟩ :=
      ih ready.opened (.expr bodies) (states.opened ready.proper.low same)
    cases ends with | fault causes =>
    exact ⟨_, t1, .broken (states.accepted names accepted) runs', .fault causes, later⟩
  | settled accepted _ found seeded ih =>
    cases tasks with | fresh names same bodies =>
    have low := ready.proper.low
    obtain ⟨result', t1, runs', ends, later⟩ := ih ready.opened (.expr bodies) (states.opened low same)
    cases ends with | done trees =>
    have there := states.position
    -- not seeded: a mismatch in both, or a match whose marker is not flagged
    refine ⟨_, _, .settled (states.accepted names accepted) runs' (later.marked low there same found) ?_,
      .done trees, (later.planted low there same trees).closed low there same trees⟩
    cases trees with
    | none => exact .inl rfl
    | some trees => exact .inr (by simpa using seeded)
  | ripened accepted runs flagged _ ihBody ihGrowth =>
    cases tasks with | fresh names same bodies =>
    have low := ready.proper.low
    obtain ⟨result', t1, runs', ends, later⟩ :=
      ihBody ready.opened (.expr bodies) (states.opened low same)
    cases ends with | done seeds =>
    have planted := later.planted low states.position same seeds
    cases seeds with | some seeds =>
    obtain ⟨result'', t2, grows', ends, last⟩ := ihGrowth (ready.planted (runs.orderly ready.opened))
      (.growth names same bodies states.position) planted
    cases ends with | done trees =>
    have flagged' := later.marked low states.position same flagged
    exact ⟨_, _, .ripened (states.accepted names accepted) runs' flagged' grows', .done trees,
      last.closed low states.position same trees⟩
  | withered accepted runs flagged _ ihBody ihGrowth =>
    cases tasks with | fresh names same bodies =>
    have low := ready.proper.low
    obtain ⟨result', t1, runs', ends, later⟩ :=
      ihBody ready.opened (.expr bodies) (states.opened low same)
    cases ends with | done seeds =>
    have planted := later.planted low states.position same seeds
    cases seeds with | some seeds =>
    obtain ⟨result'', t2, grows', ends, last⟩ := ihGrowth (ready.planted (runs.orderly ready.opened))
      (.growth names same bodies states.position) planted
    cases ends with | fault causes =>
    have flagged' := later.marked low states.position same flagged
    exact ⟨_, t2, .withered (states.accepted names accepted) runs' flagged' grows', .fault causes, last⟩
  | @grown name id body position seed reached tree s s1 known _ short ih =>
    cases tasks with | growth names same bodies there =>
    obtain ⟨seed', known', seeds⟩ := states.remembered ready.inside.1 there same known
    obtain ⟨result', t1, runs', ends, later⟩ := ih ready.moved (.expr bodies) (there ▸ states.moved position)
    cases ends with | done trees =>
    refine ⟨_, _, .grown known' runs' ?_, .done seeds, later.moved reached⟩
    rw [later.position]
    cases trees with
    | none => exact .inl rfl
    | some trees => exact .inr (by simpa using short)
  | @growing name id body position seed reached tree s s1 last s2 known runs further _ ihBody ihNext =>
    cases tasks with | @growth _ name' _ _ _ _ _ position' names same bodies there =>
    have low := ready.inside.1
    obtain ⟨seed', known', _⟩ := states.remembered low there same known
    obtain ⟨result', t1, runs', ends, later⟩ :=
      ihBody ready.moved (.expr bodies) (there ▸ states.moved position)
    cases ends with | done trees => cases trees with | some trees =>
    have planted := (later.told (.grew name position s1.position) (.grew name' position' t1.position)).planted
      low there same (.some trees)
    rw [State.position_told, State.position_told] at planted
    obtain ⟨last', t2, more, ends, final⟩ := ihNext (ready.replanted (runs.orderly ready.moved))
      (.growth names same bodies there) planted
    exact ⟨last', t2, .growing known' runs' (by rw [later.position]; omega) more, ends, final⟩
  | @stunted name id body position seed reached cause s s1 known _ ih =>
    cases tasks with | growth names same bodies there =>
    obtain ⟨seed', known', _⟩ := states.remembered ready.inside.1 there same known
    obtain ⟨result', t1, runs', ends, later⟩ := ih ready.moved (.expr bodies) (there ▸ states.moved position)
    cases ends with | fault causes =>
    exact ⟨_, t1, .stunted known' runs', .fault causes, later⟩

/-! ## Evaluations and matches -/

namespace Correspondence

variable {first second : Setting} {s t : State}

/-- At the start of the first input, and at that place of the second, nothing is known. -/
theorem States.fresh (c : Correspondence first second) :
    c.States (.fresh first.input.size) ((State.fresh second.input.size).moved c.offset) where
  position := by simp [State.fresh]
  depth := rfl
  memo := by
    have tables := @Tables.ofLength first second c first.input.size
    rw [← c.size] at tables
    exact tables

theorem evaluate {c : Correspondence first second} {e e' : Expr} (alike : c.Exprs e e')
    (sound : s.Proper first) (states : c.States s t) :
    c.Results (e.evaluate first s).1 (e'.evaluate second t).1 ∧
      c.States (e.evaluate first s).2 (e'.evaluate second t).2 := by
  obtain ⟨result', t', runs', ends, later⟩ :=
    (e.evaluate_runs sound).corresponds sound (.expr alike) states
  rw [(runs_iff_evaluate (states.proper sound)).mp runs']
  exact ⟨ends, later⟩

/-- Whole matches end alike: the end of the one input is reached with that of the other. -/
theorem whole {c : Correspondence first second} {start start' : Value} (names : c.names start start')
    (sound : s.Proper first) (states : c.States s t) :
    c.Results (Matcher.whole first start s).1 (Matcher.whole second start' t).1 ∧
      c.States (Matcher.whole first start s).2 (Matcher.whole second start' t).2 := by
  obtain ⟨ends, later⟩ := evaluate (.rule names) sound states
  rw [whole_apply, whole_apply]
  generalize (Expr.rule start).evaluate first s = one at ends later
  generalize (Expr.rule start').evaluate second t = other at ends later
  obtain ⟨result, s1⟩ := one
  obtain ⟨result', t1⟩ := other
  have place : t1.position = second.input.size ↔ s1.position = first.input.size := by
    have position : t1.position = s1.position + c.offset := later.position
    have size := c.size
    omega
  cases ends with
  | fault causes => exact ⟨.fault causes, later⟩
  | done trees =>
    cases trees with
    | none => exact ⟨.done .none, later.told _ _⟩
    | some trees =>
      simp only [place, Option.isSome_some, true_and]
      split
      · exact ⟨.done (.some trees), later⟩
      · exact ⟨.done .none, later.told _ _⟩

end Correspondence

end SeedPeg
