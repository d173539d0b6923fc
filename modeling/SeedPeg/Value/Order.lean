import SeedPeg.Fault
import SeedPeg.Value.Equality

/-!
# The order of values

Numbers and truth values are ordered by value, strings by the code points of their characters and
bytes by their numbers, in each case like the words of a dictionary. So are lists and tuples: the
first items that are not equal decide, and of two that agree as far as they go the shorter comes
first. Values of other kinds, or of different ones, have no order. Names are sorted by insertion
(`sortNames`), and sorting loses none of them and makes none up (`perm_of_sortNames`).
-/

namespace SeedPeg

mutual

/-- Whether a value lies below another. -/
def Value.isBelow : Value → Value → Except Fault Bool
  | .str s, .str t => .ok (decide (s < t))
  | .bytes bs, .bytes cs => .ok (decide (bs < cs))
  | .list items, .list others => Value.areBelow items others
  | .tuple items, .tuple others => Value.areBelow items others
  | v, w =>
    match v.number?, w.number? with
    | some x, some y => .ok (x.isBelow y)
    | _, _ => .error (.unordered v.kindName w.kindName)
termination_by structural v => v

/-- Whether some items lie below others: the first that are not equal decide. -/
def Value.areBelow : List Value → List Value → Except Fault Bool
  | v :: vs, w :: ws => if v.equals w then Value.areBelow vs ws else v.isBelow w
  | [], _ :: _ => .ok true
  | _, [] => .ok false
termination_by structural v => v

end

/-- Sorted names with a further one, in front of the first that it lies below. -/
def placeName (name : Value) : List Value → Except Fault (List Value)
  | [] => .ok [name]
  | first :: rest => do
    if ← name.isBelow first then return name :: first :: rest
    else
      let placed ← placeName name rest
      return first :: placed

/-- Sorted names with some more, placed one after the other. -/
def placeNames : List Value → List Value → Except Fault (List Value)
  | [], placed => .ok placed
  | name :: rest, placed => do placeNames rest (← placeName name placed)

/-- Names from the lowest to the highest. -/
def sortNames (names : List Value) : Except Fault (List Value) := placeNames names []

theorem perm_of_placeName {name : Value} {names placed : List Value}
    (done : placeName name names = .ok placed) : placed.Perm (name :: names) := by
  induction names generalizing placed with
  | nil => cases done; exact .refl _
  | cons first rest ih =>
    simp only [placeName, bind, Except.bind] at done
    cases order : name.isBelow first with
    | error fault => simp [order] at done
    | ok lower =>
      cases lower with
      | true =>
        simp only [order, if_true, pure, Except.pure, Except.ok.injEq] at done
        exact done ▸ .refl _
      | false =>
        cases others : placeName name rest with
        | error fault => simp [order, others] at done
        | ok more =>
          simp only [order, others, pure, Except.pure] at done
          cases done
          exact ((ih others).cons first).trans (.swap name first rest)

theorem perm_of_placeNames {names placed sorted : List Value}
    (done : placeNames names placed = .ok sorted) : sorted.Perm (names ++ placed) := by
  induction names generalizing placed with
  | nil => cases done; exact .refl _
  | cons name rest ih =>
    simp only [placeNames, bind, Except.bind] at done
    cases first : placeName name placed with
    | error fault => simp [first] at done
    | ok next =>
      simp only [first] at done
      exact ((ih done).trans ((perm_of_placeName first).append_left rest)).trans List.perm_middle

theorem perm_of_sortNames {names sorted : List Value} (done : sortNames names = .ok sorted) :
    sorted.Perm names := by
  simpa using perm_of_placeNames done

end SeedPeg
