/-!
# Cursors

A cursor is an integer that points into a sequence: counted from the front when it is not
negative, from the end when it is. `slot?` finds the place a cursor points at and `cut` the
places between two cursors. A cursor that is out of every sequence's reach does not even fit into
a machine word (`isWord`).
-/

namespace SeedPeg.Cursor

/-- The place that a cursor points at among `size` places, `none` outside of them. -/
def slot? (size : Nat) (cursor : Int) : Option Nat :=
  if cursor < 0 then
    if -size ≤ cursor then some (cursor + size).toNat else none
  else if cursor < size then some cursor.toNat else none

theorem lt_of_slot? {size place : Nat} {cursor : Int} (found : slot? size cursor = some place) :
    place < size := by
  simp only [slot?] at found
  repeat' split at found
  all_goals simp at found
  all_goals omega

theorem slot?_natCast {size place : Nat} (inside : place < size) :
    slot? size place = some place := by
  rw [slot?, if_neg (by omega), if_pos (by omega)]
  simp

/-- A cursor that counts `back` places from the end points at the place `size - back`. -/
theorem slot?_neg {size back : Nat} (counted : 0 < back) (inside : back ≤ size) :
    slot? size (-(back : Int)) = some (size - back) := by
  rw [slot?, if_pos (by omega), if_pos (by omega)]
  congr 1
  omega

/-- A cursor points outside exactly when it lies below minus the size or not below the size. -/
theorem slot?_eq_none_iff {size : Nat} {cursor : Int} :
    slot? size cursor = none ↔ cursor < -(size : Int) ∨ (size : Int) ≤ cursor := by
  simp only [slot?]
  repeat' split
  all_goals simp
  all_goals omega

/-- Whether a cursor fits into a machine word of 64 bits with a sign. -/
def isWord (cursor : Int) : Bool := -0x8000000000000000 ≤ cursor && cursor < 0x8000000000000000

/-- The bound of a cut that a cursor stands for: a place, moved into `0 … size`. -/
def bound (size : Nat) (cursor : Int) : Nat :=
  if cursor < 0 then (cursor + size).toNat else min cursor.toNat size

/-- The items from one cursor to another; a cursor outside stands for the nearer end. -/
def cut {α : Type} (items : Array α) (start stop : Int) : Array α :=
  items.extract (bound items.size start) (bound items.size stop)

end SeedPeg.Cursor
