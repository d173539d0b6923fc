import SeedPeg.Cursor
import SeedPeg.Fault
import SeedPeg.Memo.Row
import SeedPeg.Tree

/-!
# Memo tables

A memo table holds what is known of rule applications, by position and by the id of the rule. It
has a row for each position, created when something is first stored there, and positions are
cursors: negative ones count from the end.
-/

namespace SeedPeg

/-- What is known of a rule application. -/
inductive Entry where
  /-- It is being evaluated for the first time; `detected` if its rule came back to its place. -/
  | marker (detected : Bool)
  /-- It ended with a tree and the cursor behind it, or, without a tree, with a mismatch. -/
  | resolved (tree : Option Tree) (next : Int)

/-- The entry for a result: a mismatch leaves the cursor where the application is. -/
def Entry.ofResult (position : Int) (tree : Option Tree) (next : Int) : Entry :=
  .resolved tree (if tree.isSome then next else position)

/-- Rows of entries, by position; a row that was never stored to is absent. -/
structure MemoTable where
  rows : Array (Option (Row Entry))

namespace MemoTable

/-- The table without entries for an input of a length, which has that many positions and one
    more. -/
def ofLength (length : Int) : MemoTable := ⟨Array.replicate (length + 1).toNat none⟩

variable (table : MemoTable)

/-- The place of the row for a position. -/
def slot (position : Int) : Except Fault Nat :=
  match Cursor.slot? table.rows.size position with
  | some place => .ok place
  | none => .error (.outside .list position)

/-- The row at a place; an absent one holds nothing. -/
def row (place : Nat) : Row Entry := (table.rows[place]?.join).getD .empty

def get (position id : Int) : Except Fault (Option Entry) := do
  let place ← table.slot position
  return (table.row place).get? id

/-- The table with an entry for a rule in the row at a place. -/
def put (place : Nat) (id : Int) (entry : Entry) : MemoTable :=
  ⟨table.rows.modify place fun row => some ((row.getD .empty).insert id entry)⟩

/-- The table without an entry for a rule in the row at a place; an absent row stays absent. -/
def remove (place : Nat) (id : Int) : MemoTable :=
  ⟨table.rows.modify place fun row => row.map (·.erase id)⟩

def set (position id : Int) (entry : Entry) : Except Fault MemoTable := do
  let place ← table.slot position
  return table.put place id entry

def discard (position id : Int) : Except Fault MemoTable := do
  let place ← table.slot position
  return table.remove place id

def size : Nat := table.rows.toList.foldr (fun row total => (row.getD .empty).size + total) 0

/-- The rows that are there, with their places, in order. -/
def present : List (Nat × Row Entry) :=
  table.rows.toList.zipIdx.filterMap fun (row, place) => row.map (place, ·)

@[simp] theorem size_rows_put (place : Nat) (id : Int) (entry : Entry) :
    (table.put place id entry).rows.size = table.rows.size := by simp [put]

@[simp] theorem size_rows_remove (place : Nat) (id : Int) :
    (table.remove place id).rows.size = table.rows.size := by simp [remove]

theorem row_put {place : Nat} (inside : place < table.rows.size) (id : Int) (entry : Entry)
    (other : Nat) :
    (table.put place id entry).row other =
      if place = other then (table.row place).insert id entry else table.row other := by
  simp only [put, row, Array.getElem?_modify]
  split
  · rename_i here
    subst here
    rw [Array.getElem?_eq_getElem inside]
    cases table.rows[place] <;> rfl
  · rfl

theorem row_remove (place : Nat) (id : Int) (other : Nat) :
    (table.remove place id).row other =
      if place = other then (table.row place).erase id else table.row other := by
  simp only [remove, row, Array.getElem?_modify]
  split
  · rename_i here
    subst here
    cases table.rows[place]? with
    | none => rfl
    | some held => cases held <;> rfl
  · rfl

theorem size_rows_ofLength (length : Nat) : (ofLength length).rows.size = length + 1 := by
  simp only [ofLength, Array.size_replicate]
  omega

theorem row_ofLength (length : Int) (place : Nat) : (ofLength length).row place = .empty := by
  simp only [ofLength, row, Array.getElem?_replicate]
  split <;> rfl

inductive Operation where
  | get (position id : Int)
  | setMarker (position id : Int) (detected : Bool)
  | setResolved (position id : Int) (tree : Option Tree) (next : Int)
  | discard (position id : Int)
  | size

inductive Reply where
  | nothing
  | entry (entry : Option Entry)
  | count (size : Nat)

/-- The answer of an operation and the table after it, which is unchanged if it fails. -/
def perform : Operation → Except Fault Reply × MemoTable
  | .get position id => (table.get position id |>.map .entry, table)
  | .setMarker position id detected => change (table.set position id (.marker detected))
  | .setResolved position id tree next =>
    change (table.set position id (.ofResult position tree next))
  | .discard position id => change (table.discard position id)
  | .size => (.ok (.count table.size), table)
where
  /-- The answer of a change: nothing, with the changed table. -/
  change : Except Fault MemoTable → Except Fault Reply × MemoTable
    | .ok changed => (.ok .nothing, changed)
    | .error fault => (.error fault, table)

end MemoTable

end SeedPeg
