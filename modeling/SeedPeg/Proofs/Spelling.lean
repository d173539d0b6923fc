import Mathlib.Data.List.Forall2
import SeedPeg.Proofs.Site

/-!
# Spelling

How far the symbols of a literal agree with an input (`Input.agreement`), what consuming them does
to a proper state (`consumeAll_apply`, `literal_apply`), and which part of an input some symbols
spell (`Input.Spells`).
-/

namespace SeedPeg

/-- The number of symbols up to the first that is not the one in the input, from a place on. -/
def Input.agreement (input : Input) : List Value → Nat → Nat
  | [], _ => 0
  | symbol :: rest, place =>
    match input.get? place with
    | some found => if found.equals symbol then input.agreement rest (place + 1) + 1 else 0
    | none => 0

/-- Symbols equal those of an input from one cursor to another, one by one and as many of them. -/
structure Input.Spells (input : Input) (symbols : List Value) (start stop : Int) : Prop where
  length : (symbols.length : Int) = stop - start
  equal : List.Forall₂ (fun found symbol => found.equals symbol = true)
    (input.symbols.extract start.toNat stop.toNat) symbols

namespace Input

variable (input : Input)

theorem get?_isSome_iff (place : Nat) : (input.get? place).isSome ↔ place < input.size := by
  rw [get?_eq, ← length_symbols]
  simp

theorem agreement_inside (symbols : List Value) {place : Nat} (inside : place ≤ input.size) :
    place + input.agreement symbols place ≤ input.size := by
  induction symbols generalizing place with
  | nil => simpa [agreement] using inside
  | cons symbol rest ih =>
    simp only [agreement]
    split
    · rename_i found here
      have below : place < input.size := (input.get?_isSome_iff place).mp (by simp [here])
      split
      · have bound := @ih (place + 1) (by omega)
        omega
      · omega
    · omega

theorem symbolAt_inside {cursor : Int} (low : 0 ≤ cursor) (high : cursor < input.size) :
    ∃ found, input.get? cursor.toNat = some found ∧ input.symbolAt cursor = .ok found := by
  obtain ⟨place, rfl⟩ := Int.eq_ofNat_of_zero_le low
  have below : place < input.size := by omega
  obtain ⟨found, here⟩ := Option.isSome_iff_exists.mp ((input.get?_isSome_iff place).mpr below)
  exact ⟨found, by simpa using here, by simp [symbolAt, Cursor.slot?_natCast below, here]⟩

/-- Symbols that agree to the last of them are spelled by the input. -/
theorem agreement_eq_length_iff (symbols : List Value) {place : Nat} :
    input.agreement symbols place = symbols.length ↔
      List.Forall₂ (fun found symbol => found.equals symbol = true)
        ((input.symbols.drop place).take symbols.length) symbols := by
  induction symbols generalizing place with
  | nil => simp [agreement]
  | cons symbol rest ih =>
    simp only [agreement, get?_eq, List.length_cons]
    cases here : input.symbols[place]? with
    | none =>
      have past : input.symbols.length ≤ place := by simpa using here
      simp [List.drop_eq_nil_of_le past]
    | some found =>
      obtain ⟨inside, rfl⟩ := List.getElem?_eq_some_iff.mp here
      rw [List.drop_eq_getElem_cons inside, List.take_succ_cons, List.forall₂_cons, ← ih]
      by_cases same : input.symbols[place].equals symbol = true <;> simp [same]

theorem spells_nil (cursor : Int) : input.Spells [] cursor cursor :=
  ⟨by simp, by simp [List.extract_eq_take_drop]⟩

theorem spells_iff_agreement {symbols : List Value} {cursor : Int} (low : 0 ≤ cursor) :
    input.Spells symbols cursor (cursor + symbols.length) ↔
      input.agreement symbols cursor.toNat = symbols.length := by
  have span : (cursor + symbols.length).toNat - cursor.toNat = symbols.length := by omega
  have same : input.symbols.extract cursor.toNat (cursor + symbols.length).toNat =
      (input.symbols.drop cursor.toNat).take symbols.length := by
    rw [List.extract_eq_take_drop, span]
  constructor
  · intro spells
    have equal := spells.equal
    rw [same] at equal
    exact (input.agreement_eq_length_iff symbols).mpr equal
  · intro all
    refine ⟨by omega, ?_⟩
    rw [same]
    exact (input.agreement_eq_length_iff symbols).mp all

variable {input}

/-- What is spelled up to a cursor and from there on is spelled as a whole. -/
theorem Spells.append {left right : List Value} {start middle stop : Int}
    (first : input.Spells left start middle) (second : input.Spells right middle stop) :
    input.Spells (left ++ right) start stop := by
  have leftLength := first.length
  have rightLength := second.length
  refine ⟨by simp only [List.length_append]; omega, ?_⟩
  have whole : input.symbols.extract start.toNat stop.toNat =
      input.symbols.extract start.toNat middle.toNat ++
        input.symbols.extract middle.toNat stop.toNat := by
    simp only [List.extract_eq_take_drop]
    have sum : stop.toNat - start.toNat =
        (middle.toNat - start.toNat) + (stop.toNat - middle.toNat) := by omega
    have place : middle.toNat = start.toNat + (middle.toNat - start.toNat) := by omega
    rw [sum, List.take_add, List.drop_drop, ← place]
  rw [whole]
  exact List.rel_append first.equal second.equal

end Input

/-! ## Consuming -/

variable {setting : Setting} {s : State}

theorem consume_apply (proper : s.Proper setting) (symbol : Value) :
    Action.consume setting symbol s =
      match setting.input.get? s.position.toNat with
      | some found =>
        if found.equals symbol then (.done true, s.moved (s.position + 1)) else (.done false, s)
      | none => (.done false, s) := by
  simp only [Action.consume]
  split
  · rename_i below
    obtain ⟨found, here, read⟩ := setting.input.symbolAt_inside proper.low below
    simp only [here, read]
    rfl
  · rename_i past
    have missing : setting.input.get? s.position.toNat = none := by
      have outside : ¬ s.position.toNat < setting.input.size := by omega
      simpa [← setting.input.get?_isSome_iff] using outside
    simp [missing]

/-- Consuming symbols puts the cursor behind those that agree. -/
theorem consumeAll_apply (proper : s.Proper setting) (symbols : List Value) :
    Action.consumeAll setting symbols s =
      (.done (decide (setting.input.agreement symbols s.position.toNat = symbols.length)),
        s.moved (s.position + setting.input.agreement symbols s.position.toNat)) := by
  induction symbols generalizing s with
  | nil => simp [Action.consumeAll, Input.agreement, pure, Action.pure]
  | cons symbol rest ih =>
    rcases Option.eq_none_or_eq_some (setting.input.get? s.position.toNat) with here | ⟨found, here⟩
    · simp [Action.consumeAll, Action.bind_apply, consume_apply proper, Input.agreement, here, pure,
        Action.pure]
    · by_cases same : found.equals symbol = true
      · have below := (setting.input.get?_isSome_iff _).mp (by rw [here]; rfl)
        have low := proper.low
        have further : (s.moved (s.position + 1)).Proper setting :=
          proper.moved (by omega) (by omega)
        have place : (s.position + 1).toNat = s.position.toNat + 1 := by omega
        simp only [Action.consumeAll, Action.bind_apply, consume_apply proper, Input.agreement, here,
          same, ↓reduceIte, ih further, State.position_moved, place, State.moved_moved,
          List.length_cons, Nat.add_right_cancel_iff]
        congr 2
        omega
      · simp [Action.consumeAll, Action.bind_apply, consume_apply proper, Input.agreement, here, same,
          pure, Action.pure]

/-- A literal is matched if all of its symbols agree; either way the cursor is put behind those
    that do. -/
theorem literal_apply (proper : s.Proper setting) {literal : Value} {symbols : List Value}
    (made : literal.symbols? = some symbols) :
    Action.literal setting literal s =
      (.done (if setting.input.agreement symbols s.position.toNat = symbols.length
          then some (.leaf literal) else none),
        s.moved (s.position + setting.input.agreement symbols s.position.toNat)) := by
  simp only [Action.literal, made, Action.bind_apply, consumeAll_apply proper]
  by_cases all : setting.input.agreement symbols s.position.toNat = symbols.length <;>
    simp [all, pure, Action.pure]

/-- What is not made of symbols cannot be matched. -/
theorem literal_fault {literal : Value} (made : literal.symbols? = none) :
    Action.literal setting literal s = (.fault (.notIterable literal.kindName), s) := by
  simp only [Action.literal, made]
  rfl

/-- Matching a literal does nothing but move the cursor. -/
theorem literal_moves (proper : s.Proper setting) {literal : Value} {s' : State}
    {result : Outcome (Option Tree)} (matched : Action.literal setting literal s = (result, s')) :
    ∃ position, s' = s.moved position := by
  cases made : literal.symbols? with
  | none =>
    rw [literal_fault made] at matched
    cases matched
    exact ⟨s.position, rfl⟩
  | some symbols =>
    rw [literal_apply proper made] at matched
    cases matched
    exact ⟨_, rfl⟩

end SeedPeg
