import Mathlib
import SeedPeg.Proofs.Balance

/-!
# Memo tables as finite maps

A memo table answers every sequence of operations as a finite map from rules in rows to entries would,
although its rows are created late and its positions count from both ends
(`memo_tables_are_finite_maps`). What an operation changes is said once (`Operation.change`). The table and
the map each make the change in their own way, and one step keeps them in accord (`StandsFor.step`), so that
they are in accord after any sequence.
-/

namespace SeedPeg

namespace MemoTable

/-! ## Finite maps -/

/-- A rule, by its id, in a row, by its place. -/
abbrev Key := Nat × Int

/-- What a table holds, as a finite map. -/
abbrev Contents := Finmap fun _ : Key => Entry

/-- What an operation changes. -/
inductive Change where
  | nothing
  | set (key : Key) (entry : Entry)
  | discard (key : Key)

/-- The key that is set or discarded. -/
def Change.key? : Change → Option Key
  | .nothing => none
  | .set key _ | .discard key => some key

/-- The place of the row for a position, which counts from the front if it is not negative, and from the
    end if it is. -/
def placeOf (length : Nat) (position : Int) : Except Fault Nat :=
  if 0 ≤ position ∧ position ≤ length then .ok position.toNat
  else if -(length + 1) ≤ position ∧ position < 0 then .ok (length + 1 + position).toNat
  else .error (.outside .list position)

namespace Operation

variable (length : Nat)

/-- A change in the row for a position: nothing, if the position is outside. -/
def changeAt (position : Int) (made : Nat → Change) : Change :=
  match placeOf length position with
  | .ok place => made place
  | .error _ => .nothing

/-- What an operation changes in the table for a length. Without a tree, a result ends at the position that
    the operation is given, and not at a place. -/
def change : Operation → Change
  | .setMarker position id detected =>
    changeAt length position fun place => .set (place, id) (.marker detected)
  | .setResolved position id none _ =>
    changeAt length position fun place => .set (place, id) (.resolved none position)
  | .setResolved position id (some tree) next =>
    changeAt length position fun place => .set (place, id) (.resolved (some tree) next)
  | .discard position id => changeAt length position fun place => .discard (place, id)
  | .get .. | .size => .nothing

/-- Whether the position of an operation, if it has one, is one of the table for a length. -/
def Inside : Operation → Prop
  | .get position _ | .setMarker position .. | .setResolved position .. | .discard position _ =>
    -(length + 1) ≤ position ∧ position ≤ length
  | .size => True

end Operation

namespace Contents

/-- The map after a change. -/
def changed (contents : Contents) : Change → Contents
  | .nothing => contents
  | .set key entry => contents.insert key entry
  | .discard key => contents.erase key

/-- The answer of a map to an operation. -/
def reply (length : Nat) (contents : Contents) : Operation → Except Fault Reply
  | .get position id => (placeOf length position).map fun place => .entry (contents.lookup (place, id))
  | .setMarker position .. | .setResolved position .. | .discard position _ =>
    (placeOf length position).map fun _ => .nothing
  | .size => .ok (.count contents.keys.card)

/-- The answers of a map to operations, one after the other, and the map after them. -/
def performAll (length : Nat) (contents : Contents) :
    List Operation → List (Except Fault Reply) × Contents
  | [] => ([], contents)
  | operation :: rest =>
    let (replies, last) := performAll length (contents.changed (operation.change length)) rest
    (contents.reply length operation :: replies, last)

end Contents

/-! ## Tables -/

/-- The answers of a table to operations, one after the other, and the table after them. -/
def performAll (table : MemoTable) : List Operation → List (Except Fault Reply) × MemoTable
  | [] => ([], table)
  | operation :: rest =>
    let (reply, next) := table.perform operation
    let (replies, last) := next.performAll rest
    (reply :: replies, last)

/-- The table after a change. -/
def changed (table : MemoTable) : Change → MemoTable
  | .nothing => table
  | .set key entry => table.put key.1 key.2 entry
  | .discard key => table.remove key.1 key.2

/-- Whether a table has a row at a place, be it empty. -/
def HasRow (table : MemoTable) (place : Nat) : Prop := ∃ row, table.rows[place]? = some (some row)

/-- Whether an entry was set for a key, and the key was neither set nor discarded since. -/
def Latest (length : Nat) (operations : List Operation) (key : Key) (entry : Entry) : Prop :=
  ∃ before operation after, operations = before ++ operation :: after ∧
    operation.change length = .set key entry ∧ ∀ later ∈ after, (later.change length).key? ≠ some key

/-- A table stands for a finite map after operations: it has a place for each position, holds what the map
    holds, which is what was set last, has as many entries as the map has keys, and has those rows in which
    something was ever set. -/
structure StandsFor (length : Nat) (operations : List Operation) (table : MemoTable) (contents : Contents) :
    Prop where
  places : table.rows.size = length + 1
  entries : ∀ key, (table.row key.1).get? key.2 = contents.lookup key
  latest : ∀ key entry, contents.lookup key = some entry ↔ Latest length operations key entry
  size : table.size = contents.keys.card
  rows : ∀ place, table.HasRow place ↔
    ∃ operation ∈ operations, ∃ id entry, operation.change length = .set (place, id) entry

section

variable {length : Nat} {operations : List Operation} {operation : Operation} {table : MemoTable}
  {contents : Contents} {position : Int} {place : Nat} {key : Key} {entry : Entry} {change : Change}

/-! ## Positions -/

theorem lt_of_placeOf (found : placeOf length position = .ok place) : place < length + 1 := by
  simp only [placeOf] at found
  split at found
  · cases found
    omega
  · split at found
    · cases found
      omega
    · cases found

theorem placeOf_inside (inside : -(length + 1) ≤ position ∧ position ≤ length) :
    ∃ place, placeOf length position = .ok place := by
  by_cases negative : position < 0
  · exact ⟨_, by rw [placeOf, if_neg (by omega), if_pos ⟨inside.1, negative⟩]⟩
  · exact ⟨_, by rw [placeOf, if_pos ⟨by omega, inside.2⟩]⟩

theorem placeOf_outside (outside : ¬ (-(length + 1) ≤ position ∧ position ≤ length)) :
    placeOf length position = .error (.outside .list position) := by
  rw [placeOf, if_neg (by omega), if_neg (by omega)]

theorem slot_eq_placeOf (places : table.rows.size = length + 1) (position : Int) :
    table.slot position = placeOf length position := by
  by_cases inside : -(length + 1) ≤ position ∧ position ≤ length
  · by_cases negative : position < 0
    · obtain ⟨back, rfl⟩ : ∃ back : Nat, position = -back := ⟨position.natAbs, by omega⟩
      have found := @Cursor.slot?_neg table.rows.size back (by omega) (by omega)
      have place : length + 1 - back = (length + 1 + -(back : Int)).toNat := by omega
      rw [slot, found, placeOf, if_neg (by omega), if_pos ⟨inside.1, negative⟩, ← place, places]
    · rw [slot_inside (by omega) (by omega), placeOf, if_pos ⟨by omega, inside.2⟩]
  · have outside : Cursor.slot? table.rows.size position = none :=
      Cursor.slot?_eq_none_iff.mpr (by omega)
    rw [slot, outside, placeOf_outside inside]

theorem kind_outside (container : Container) (cursor : Int) :
    (Fault.outside container cursor).kind = .index := by
  simp only [Fault.outside]
  split <;> rfl

/-! ## Changes of a map -/

namespace Contents

theorem lookup_changed (contents : Contents) (change : Change) :
    (contents.changed change).lookup key = some entry ↔
      change = .set key entry ∨ contents.lookup key = some entry ∧ change.key? ≠ some key := by
  cases change with
  | nothing => simp [changed, Change.key?]
  | set other content =>
    by_cases same : other = key
    · subst same
      simp [changed, Change.key?, Finmap.lookup_insert]
    · simp [changed, Change.key?, same, Finmap.lookup_insert_of_ne _ (Ne.symm same)]
  | discard other =>
    by_cases same : other = key
    · subst same
      simp [changed, Change.key?, Finmap.lookup_erase]
    · simp [changed, Change.key?, same, Finmap.lookup_erase_ne (Ne.symm same)]

theorem card_keys_erase (contents : Contents) (key : Key) :
    (contents.erase key).keys.card + (contents.lookup key).toList.length = contents.keys.card := by
  rw [Finmap.keys_erase]
  cases held : contents.lookup key with
  | none =>
    have absent : key ∉ contents.keys := by
      rw [Finmap.mem_keys]
      exact Finmap.lookup_eq_none.mp held
    rw [Finset.erase_eq_of_notMem absent]
    rfl
  | some entry =>
    have present : key ∈ contents.keys := Finmap.mem_keys.mpr (Finmap.mem_of_lookup_eq_some held)
    exact Finset.card_erase_add_one present

theorem card_keys_insert (contents : Contents) (key : Key) (entry : Entry) :
    (contents.insert key entry).keys.card + (contents.lookup key).toList.length =
      contents.keys.card + 1 := by
  -- Whether the key is new or not, inserting it is adding it to the others.
  have keys : (contents.insert key entry).keys = Insert.insert key (contents.erase key).keys := by
    ext other
    simp only [Finmap.mem_keys, Finmap.mem_insert, Finset.mem_insert, Finmap.mem_erase]
    by_cases same : other = key <;> simp [same]
  have absent : key ∉ (contents.erase key).keys := by simp [Finmap.keys_erase]
  have erased := contents.card_keys_erase key
  rw [keys, Finset.card_insert_of_notMem absent]
  omega

end Contents

/-! ## Changes of a table -/

@[simp] theorem size_rows_changed (table : MemoTable) (change : Change) :
    (table.changed change).rows.size = table.rows.size := by
  cases change <;> simp [changed]

theorem get?_changed (inside : ∀ other, change.key? = some other → other.1 < table.rows.size) :
    ((table.changed change).row key.1).get? key.2 = some entry ↔
      change = .set key entry ∨ (table.row key.1).get? key.2 = some entry ∧ change.key? ≠ some key := by
  obtain ⟨place, id⟩ := key
  cases change with
  | nothing => simp [changed, Change.key?]
  | set other content =>
    obtain ⟨here, other⟩ := other
    rw [changed, row_put table (inside _ rfl)]
    by_cases same : here = place
    · subst same
      by_cases own : id = other
      · subst own
        simp [Change.key?]
      · simp [Change.key?, own, Ne.symm own]
    · simp [Change.key?, same]
  | discard other =>
    obtain ⟨here, other⟩ := other
    rw [changed, row_remove]
    by_cases same : here = place
    · subst same
      by_cases own : id = other
      · subst own
        simp [Change.key?]
      · simp [Change.key?, own, Ne.symm own]
    · simp [Change.key?, same]

/-- Setting an entry makes a row where there is none; nothing else does, and nothing takes a row away. -/
theorem hasRow_changed (inside : ∀ other, change.key? = some other → other.1 < table.rows.size) :
    (table.changed change).HasRow place ↔
      table.HasRow place ∨ ∃ id entry, change = .set (place, id) entry := by
  cases change with
  | nothing => simp [changed]
  | set key entry =>
    obtain ⟨here, id⟩ := key
    have bound : here < table.rows.size := inside _ rfl
    simp only [HasRow, changed, put, Array.getElem?_modify]
    by_cases same : here = place
    · subst same
      simp [bound]
    · simp [same]
  | discard key =>
    obtain ⟨here, id⟩ := key
    simp only [HasRow, changed, remove, Array.getElem?_modify]
    by_cases same : here = place
    · subst same
      cases table.rows[here]? with
      | none => simp
      | some held => cases held <;> simp
    · simp [same]

/-- A table and a map that hold the same grow and shrink alike. -/
theorem size_changed (inside : ∀ other, change.key? = some other → other.1 < table.rows.size)
    (entries : ∀ key, (table.row key.1).get? key.2 = contents.lookup key)
    (size : table.size = contents.keys.card) :
    (table.changed change).size = (contents.changed change).keys.card := by
  simp only [size_eq_count] at *
  cases change with
  | nothing => exact size
  | set key entry =>
    have table := table.count_put (fun _ => true) key.2 (inside key rfl) entry
    have map := contents.card_keys_insert key entry
    rw [entries key, List.countP_true, List.length_singleton] at table
    simp only [changed, Contents.changed]
    omega
  | discard key =>
    have table := table.count_remove (fun _ => true) key.2 key.1
    have map := contents.card_keys_erase key
    rw [entries key, List.countP_true] at table
    simp only [changed, Contents.changed]
    omega

/-! ## Operations -/

namespace Operation

theorem lt_of_changeAt {made : Nat → Change} (own : ∀ place, (made place).key?.map (·.1) = some place)
    (keyed : (changeAt length position made).key? = some key) : key.1 < length + 1 := by
  simp only [changeAt] at keyed
  split at keyed
  · rename_i place found
    have same := own place
    rw [keyed] at same
    cases same
    exact lt_of_placeOf found
  · cases keyed

/-- What is set or discarded is in a row of the table. -/
theorem lt_of_change (operation : Operation) (keyed : (operation.change length).key? = some key) :
    key.1 < length + 1 := by
  cases operation with
  | get | size => cases keyed
  | setMarker | discard => exact lt_of_changeAt (fun _ => rfl) keyed
  | setResolved position id tree next => cases tree <;> exact lt_of_changeAt (fun _ => rfl) keyed

end Operation

/-- An operation makes its change of the table, and none if its position is outside. -/
theorem perform_snd (places : table.rows.size = length + 1) (operation : Operation) :
    (table.perform operation).2 = table.changed (operation.change length) := by
  have slot := slot_eq_placeOf places
  cases operation with
  | get | size => rfl
  | setMarker position id detected =>
    simp only [perform, set, slot, Operation.change, Operation.changeAt]
    cases placeOf length position <;> rfl
  | setResolved position id tree next =>
    cases tree with
    | none | some =>
      simp only [perform, set, slot, Operation.change, Operation.changeAt]
      cases placeOf length position <;> rfl
  | discard position id =>
    simp only [perform, MemoTable.discard, slot, Operation.change, Operation.changeAt]
    cases placeOf length position <;> rfl

/-- An operation whose position is inside is answered. -/
theorem perform_inside (places : table.rows.size = length + 1) (inside : operation.Inside length) :
    ∃ reply, (table.perform operation).1 = .ok reply := by
  have slot := slot_eq_placeOf places
  cases operation with
  | size => exact ⟨_, rfl⟩
  | get position id | setMarker position id detected | setResolved position id tree next
  | discard position id =>
    obtain ⟨place, found⟩ := placeOf_inside inside
    simp only [perform, get, set, MemoTable.discard, slot, found]
    exact ⟨_, rfl⟩

/-- An operation whose position is outside is refused, and the table stays the same. -/
theorem perform_outside (places : table.rows.size = length + 1) (outside : ¬ operation.Inside length) :
    ∃ fault, fault.kind = .index ∧ table.perform operation = (.error fault, table) := by
  have slot := slot_eq_placeOf places
  cases operation with
  | size => exact absurd trivial outside
  | get position id | setMarker position id detected | setResolved position id tree next
  | discard position id =>
    refine ⟨_, kind_outside .list position, ?_⟩
    simp only [perform, get, set, MemoTable.discard, slot, placeOf_outside outside]
    rfl

/-! ## One step -/

theorem latest_append : Latest length (operations ++ [operation]) key entry ↔
    operation.change length = .set key entry ∨
      Latest length operations key entry ∧ (operation.change length).key? ≠ some key := by
  constructor
  · rintro ⟨before, first, after, whole, set, still⟩
    -- The operation that set the entry is the last one, or the last one is among those after it.
    rcases List.eq_nil_or_concat after with rfl | ⟨between, last, rfl⟩
    · obtain ⟨rfl, same⟩ := List.append_inj' whole rfl
      cases same
      exact .inl set
    · rw [List.concat_eq_append] at whole still
      rw [← List.cons_append, ← List.append_assoc] at whole
      obtain ⟨rfl, same⟩ := List.append_inj' whole rfl
      cases same
      refine .inr ⟨⟨before, first, between, rfl, set, fun later member => ?_⟩, ?_⟩
      · exact still later (List.mem_append_left _ member)
      · exact still operation (List.mem_append_right _ List.mem_cons_self)
  · rintro (set | ⟨⟨before, first, after, rfl, set, still⟩, spared⟩)
    · exact ⟨operations, operation, [], rfl, set, by simp⟩
    · refine ⟨before, first, after ++ [operation], by simp, set, fun later member => ?_⟩
      rcases List.mem_append.mp member with early | last
      · exact still later early
      · rw [List.mem_singleton] at last
        exact last ▸ spared

namespace StandsFor

theorem start (length : Nat) : StandsFor length [] (ofLength length) ∅ where
  places := size_rows_ofLength length
  entries key := by rw [row_ofLength, Finmap.lookup_empty, Row.get?_empty]
  latest key entry := by simp [Latest]
  size := by rw [size_eq_count, count_ofLength, Finmap.keys_empty, Finset.card_empty]
  rows place := by
    simp only [HasRow, ofLength, Array.getElem?_replicate, List.not_mem_nil, false_and, exists_false,
      iff_false, not_exists]
    intro row
    split <;> simp

theorem reply (stands : StandsFor length operations table contents) (operation : Operation) :
    (table.perform operation).1 = contents.reply length operation := by
  have slot := slot_eq_placeOf stands.places
  cases operation with
  | size => rw [perform, Contents.reply, stands.size]
  | get position id =>
    simp only [perform, get, slot, Contents.reply]
    cases placeOf length position with
    | error fault => rfl
    | ok place => exact congrArg (fun entry => Except.ok (Reply.entry entry)) (stands.entries (place, id))
  | setMarker position id detected | setResolved position id tree next | discard position id =>
    simp only [perform, set, MemoTable.discard, slot, Contents.reply]
    cases placeOf length position <;> rfl

/-- One operation keeps a table and its map in accord. -/
theorem step (stands : StandsFor length operations table contents) (operation : Operation) :
    StandsFor length (operations ++ [operation]) (table.perform operation).2
      (contents.changed (operation.change length)) := by
  have inside : ∀ key, (operation.change length).key? = some key → key.1 < table.rows.size := by
    intro key keyed
    rw [stands.places]
    exact operation.lt_of_change keyed
  rw [perform_snd stands.places]
  refine ⟨?_, fun key => Option.ext fun entry => ?_, fun key entry => ?_, ?_, fun place => ?_⟩
  · rw [size_rows_changed, stands.places]
  · rw [get?_changed inside, contents.lookup_changed, stands.entries]
  · rw [contents.lookup_changed, latest_append, stands.latest]
  · exact size_changed inside stands.entries stands.size
  · rw [hasRow_changed inside, stands.rows]
    simp only [List.mem_append, List.mem_singleton, or_and_right, exists_or, exists_eq_left]

/-- Operations in sequence are answered alike, and keep a table and its map in accord. -/
theorem run (stands : StandsFor length operations table contents) (rest : List Operation) :
    (table.performAll rest).1 = (contents.performAll length rest).1 ∧
      StandsFor length (operations ++ rest) (table.performAll rest).2 (contents.performAll length rest).2 := by
  -- What was done before is generalized: the accord speaks of all operations since the start.
  induction rest generalizing operations table contents with
  | nil => exact ⟨rfl, by rw [List.append_nil]; exact stands⟩
  | cons operation rest ih =>
    obtain ⟨replies, after⟩ := ih (stands.step operation)
    rw [List.append_assoc] at after
    refine ⟨?_, after⟩
    exact congrArg₂ List.cons (stands.reply operation) replies

end StandsFor

end

end MemoTable

open MemoTable

/-- Over any operations a memo table answers as a finite map, and it comes to stand for that map. After
    them, an operation whose position is inside is answered, and one whose position is outside is refused
    and leaves the table as it is. -/
theorem memo_tables_are_finite_maps (length : Nat) (operations : List Operation) :
    let (replies, table) := (ofLength length).performAll operations
    let (expected, contents) := Contents.performAll length ∅ operations
    replies = expected ∧ StandsFor length operations table contents ∧
      ∀ operation : Operation,
        (operation.Inside length → ∃ reply, (table.perform operation).1 = .ok reply) ∧
        (¬ operation.Inside length →
          ∃ fault, fault.kind = .index ∧ table.perform operation = (.error fault, table)) := by
  obtain ⟨replies, stands⟩ := (StandsFor.start length).run operations
  rw [List.nil_append] at stands
  refine ⟨replies, stands, fun operation => ⟨fun inside => ?_, fun outside => ?_⟩⟩
  · exact perform_inside stands.places inside
  · exact perform_outside stands.places outside

/-- A mismatch is stored in the last row, counted from the end, looked up from the front and discarded. -/
def storedFromTheEnd : List Operation :=
  [.setResolved (-1) 7 none 5, .get 2 7, .discard 2 7, .get (-1) 7, .size]

/-- A mismatch keeps the position under which it was stored, and its row outlasts it. -/
theorem mismatches_stored_from_the_end :
    let (replies, table) := (ofLength 2).performAll storedFromTheEnd
    replies = [.ok .nothing, .ok (.entry (some (.resolved none (-1)))), .ok .nothing, .ok (.entry none),
        .ok (.count 0)] ∧
      table.HasRow 2 ∧ ¬ table.HasRow 0 ∧
      (∃ reply, (table.perform (.get (-3) 7)).1 = .ok reply) ∧
      ∃ fault, fault.kind = .index ∧ table.perform (.get 3 7) = (.error fault, table) := by
  obtain ⟨replies, stands, answers⟩ := memo_tables_are_finite_maps 2 storedFromTheEnd
  refine ⟨rfl, (stands.rows 2).mpr ?_, fun row => ?_, (answers (.get (-3) 7)).1 ?_, (answers (.get 3 7)).2 ?_⟩
  · exact ⟨.setResolved (-1) 7 none 5, .head _, 7, .resolved none (-1), rfl⟩
  · obtain ⟨operation, member, id, entry, set⟩ := (stands.rows 0).mp row
    simp only [storedFromTheEnd, List.mem_cons, List.not_mem_nil, or_false] at member
    rcases member with rfl | rfl | rfl | rfl | rfl <;> cases set
  · exact ⟨by decide, by decide⟩
  · exact fun inside => absurd inside.2 (by decide)

end SeedPeg
