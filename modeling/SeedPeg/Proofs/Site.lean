import Mathlib.Tactic.Common
import SeedPeg.Evaluation.Basic

/-!
# Sites

A site is a rule at a position, the place of a rule application. What a memo table knows is read
here site by site (`MemoTable.known`), so that two sites never share an entry, and the changes of a
state that evaluation makes are given names, each with what it does to the cursor, the depth and
the known sites. A state is proper for a setting when its cursor is in the input, its table has a
row for every position, and every result in the table ends at its own position or behind it.
-/

namespace SeedPeg

/-- A rule, by its id, at a position. -/
structure Site where
  id : Nat
  position : Int
  deriving DecidableEq

/-- What a table knows of a site. -/
def MemoTable.known (table : MemoTable) (site : Site) : Option Entry :=
  if 0 ≤ site.position then (table.row site.position.toNat).get? site.id else none

namespace MemoTable

variable {table : MemoTable}

theorem slot_inside {position : Int} (low : 0 ≤ position) (high : position < table.rows.size) :
    table.slot position = .ok position.toNat := by
  obtain ⟨place, rfl⟩ := Int.eq_ofNat_of_zero_le low
  simp [slot, Cursor.slot?_natCast (show place < table.rows.size by omega)]

theorem known_eq {site : Site} (low : 0 ≤ site.position) :
    table.known site = (table.row site.position.toNat).get? site.id := if_pos low

theorem get_eq_known {site : Site} (low : 0 ≤ site.position) (high : site.position < table.rows.size) :
    table.get site.position site.id = .ok (table.known site) := by
  simp only [get, slot_inside low high, known_eq low]
  rfl

theorem known_put {site : Site} (low : 0 ≤ site.position) (high : site.position < table.rows.size)
    (entry : Entry) (other : Site) :
    (table.put site.position.toNat site.id entry).known other =
      if other = site then some entry else table.known other := by
  simp only [known, row_put table (show site.position.toNat < table.rows.size by omega)]
  obtain ⟨id, position⟩ := site
  obtain ⟨otherId, otherPosition⟩ := other
  simp only [Site.mk.injEq] at *
  by_cases inside : 0 ≤ otherPosition
  · by_cases here : position = otherPosition
    · subst here
      simp [inside, Int.ofNat_inj]
    · have apart : ¬ position.toNat = otherPosition.toNat := by omega
      simp [inside, apart, Ne.symm here]
  · have apart : ¬ otherPosition = position := by omega
    simp [inside, apart]

theorem known_remove {site : Site} (low : 0 ≤ site.position) (other : Site) :
    (table.remove site.position.toNat site.id).known other =
      if other = site then none else table.known other := by
  simp only [known, row_remove]
  obtain ⟨id, position⟩ := site
  obtain ⟨otherId, otherPosition⟩ := other
  simp only [Site.mk.injEq] at *
  by_cases inside : 0 ≤ otherPosition
  · by_cases here : position = otherPosition
    · subst here
      simp [inside, Int.ofNat_inj]
    · have apart : ¬ position.toNat = otherPosition.toNat := by omega
      simp [inside, apart, Ne.symm here]
  · have apart : ¬ otherPosition = position := by omega
    simp [inside, apart]

theorem known_ofLength (length : Int) (site : Site) : (ofLength length).known site = none := by
  simp [known, row_ofLength]

/-- Nothing is known outside of the rows. -/
theorem inside_of_known {site : Site} {entry : Entry} (found : table.known site = some entry) :
    0 ≤ site.position ∧ site.position < table.rows.size := by
  simp only [known] at found
  split at found
  · refine ⟨by assumption, ?_⟩
    by_contra outside
    have missing : table.rows[site.position.toNat]? = none := by
      rw [Array.getElem?_eq_none_iff]; omega
    simp [row, missing] at found
  · simp at found

end MemoTable

/-! ## Changes of a state -/

namespace State

/-- What a state knows of a site. -/
def known (s : State) (site : Site) : Option Entry := s.memo.known site

/-- The state with an entry for a site. -/
def put (s : State) (site : Site) (entry : Entry) : State :=
  { s with memo := s.memo.put site.position.toNat site.id entry }

/-- The state without an entry for a site. -/
def drop (s : State) (site : Site) : State :=
  { s with memo := s.memo.remove site.position.toNat site.id }

/-- The state with its cursor put somewhere. -/
def moved (s : State) (position : Int) : State := { s with position }

/-- The state after an event, which is told if a trace is kept. -/
def told (s : State) (setting : Setting) (event : Event) : State :=
  if setting.options.debug then { s with trace := s.trace.push ⟨s.depth, event⟩ } else s

variable (s : State) (setting : Setting) (site : Site) (entry : Entry) (event : Event) (position : Int)

@[simp] theorem position_put : (s.put site entry).position = s.position := rfl
@[simp] theorem depth_put : (s.put site entry).depth = s.depth := rfl
@[simp] theorem size_rows_put : (s.put site entry).memo.rows.size = s.memo.rows.size := by simp [put]

@[simp] theorem position_drop : (s.drop site).position = s.position := rfl
@[simp] theorem depth_drop : (s.drop site).depth = s.depth := rfl
@[simp] theorem size_rows_drop : (s.drop site).memo.rows.size = s.memo.rows.size := by simp [drop]

@[simp] theorem position_moved : (s.moved position).position = position := rfl
@[simp] theorem depth_moved : (s.moved position).depth = s.depth := rfl
@[simp] theorem memo_moved : (s.moved position).memo = s.memo := rfl
@[simp] theorem known_moved : (s.moved position).known site = s.known site := rfl
@[simp] theorem moved_self : s.moved s.position = s := rfl
@[simp] theorem moved_moved (other : Int) : (s.moved position).moved other = s.moved other := rfl

@[simp] theorem position_told : (s.told setting event).position = s.position := by
  simp only [told]; split <;> rfl
@[simp] theorem depth_told : (s.told setting event).depth = s.depth := by
  simp only [told]; split <;> rfl
@[simp] theorem memo_told : (s.told setting event).memo = s.memo := by
  simp only [told]; split <;> rfl
@[simp] theorem known_told : (s.told setting event).known site = s.known site := by
  simp [known]

end State

/-- Telling leaves the state told. -/
theorem Action.tell_apply (setting : Setting) (event : Event) (s : State) :
    Action.tell setting event s = (.done (), s.told setting event) := by
  simp only [Action.tell, State.told]
  split <;> rfl

/-! ## Proper states -/

/-- A state in which the cursor and the results that are known lie in the input. -/
structure State.Proper (setting : Setting) (s : State) : Prop where
  low : 0 ≤ s.position
  high : s.position ≤ setting.input.size
  rows : s.memo.rows.size = setting.input.size + 1
  results : ∀ {site tree next}, s.known site = some (.resolved tree next) →
    site.position ≤ next ∧ next ≤ setting.input.size ∧ (tree = none → next = site.position)

namespace State.Proper

variable {setting : Setting} {s : State}

theorem fresh : (State.fresh setting.input.size).Proper setting where
  low := Int.le_refl 0
  high := by simp [State.fresh]
  rows := MemoTable.size_rows_ofLength _
  results found := by simp [State.known, State.fresh, MemoTable.known_ofLength] at found

/-- What is known is known of a position in the input. -/
theorem inside (proper : s.Proper setting) {site : Site} {entry : Entry}
    (found : s.known site = some entry) :
    0 ≤ site.position ∧ site.position ≤ setting.input.size := by
  have inRows := MemoTable.inside_of_known found
  have size := proper.rows
  omega

theorem moved (proper : s.Proper setting) {position : Int} (low : 0 ≤ position)
    (high : position ≤ setting.input.size) : (s.moved position).Proper setting :=
  ⟨low, high, proper.rows, fun found => proper.results found⟩

theorem told (proper : s.Proper setting) (event : Event) : (s.told setting event).Proper setting :=
  ⟨by simpa using proper.low, by simpa using proper.high, by simpa using proper.rows,
    fun found => proper.results (by simpa using found)⟩

variable {site : Site} (low : 0 ≤ site.position) (high : site.position ≤ setting.input.size)
include low high

theorem known_put (proper : s.Proper setting) (entry : Entry) (other : Site) :
    (s.put site entry).known other = if other = site then some entry else s.known other := by
  have := proper.rows
  exact MemoTable.known_put low (by omega) entry other

theorem known_put_self (proper : s.Proper setting) (entry : Entry) :
    (s.put site entry).known site = some entry := by
  rw [proper.known_put low high, if_pos rfl]

theorem put_marker (proper : s.Proper setting) (detected : Bool) :
    (s.put site (.marker detected)).Proper setting := by
  refine ⟨proper.low, proper.high, by simpa using proper.rows, ?_⟩
  intro other tree next found
  rw [proper.known_put low high] at found
  split at found
  · simp at found
  · exact proper.results found

theorem put_result (proper : s.Proper setting) (tree : Option Tree) {next : Int}
    (behind : site.position ≤ next) (inside : next ≤ setting.input.size) :
    (s.put site (.ofResult site.position tree next)).Proper setting := by
  refine ⟨proper.low, proper.high, by simpa using proper.rows, ?_⟩
  intro other result reached found
  rw [proper.known_put low high] at found
  split at found
  · rename_i same
    subst same
    cases tree <;> simp [Entry.ofResult] at found <;> obtain ⟨rfl, rfl⟩ := found <;> simp <;> omega
  · exact proper.results found

omit high in
theorem known_drop (other : Site) :
    (s.drop site).known other = if other = site then none else s.known other :=
  MemoTable.known_remove low other

omit high in
theorem drop (proper : s.Proper setting) : (s.drop site).Proper setting := by
  refine ⟨proper.low, proper.high, by simpa using proper.rows, ?_⟩
  intro other tree next found
  rw [known_drop low] at found
  split at found
  · simp at found
  · exact proper.results found

end State.Proper

end SeedPeg
