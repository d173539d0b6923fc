import Mathlib.Algebra.Field.Rat
import Mathlib.Algebra.Order.Field.Basic
import Mathlib.Data.List.Forall2
import SeedPeg.Value.Equality

/-!
# Equality

Equality of values is symmetric and transitive (`Value.equals_symm`, `Value.equals_trans`), however
deep integers stand for truth values in them, so it makes no difference which of some equal values
another one is compared with (`Value.equals_congr`). Equal values are keys alike
(`Value.isKey_of_equals`) and are made of equal symbols (`Value.symbols_of_equals`). Expressions in which
all literals and names are strings are equal only if they are the same (`Expr.Textual.equals_iff_eq`).
-/

namespace SeedPeg

/-! ## Numbers by value -/

namespace Number

/-- The exact value of a number: a fraction, or an infinity with its sign; what is not a number has
    none. -/
def worth? : Number → Option (ℚ ⊕ Bool)
  | .nan => none
  | .infinite negative => some (.inr negative)
  | .finite negative mantissa exponent => some (.inl (signed negative mantissa * 2 ^ exponent))

/-- Numbers are brought to one exponent for comparison, which changes neither value. -/
theorem compareFinite_eq (m i n j : Int) :
    compareFinite m i n j = .eq ↔ (m * 2 ^ i : ℚ) = n * 2 ^ j := by
  have scale (i j : Int) : (2 ^ i : ℚ) = 2 ^ min i j * ((Nat.pow 2 (i - j).toNat : Nat) : ℚ) := by
    rw [Nat.pow_eq, Nat.cast_pow, Nat.cast_ofNat, ← zpow_natCast, ← zpow_add₀ two_ne_zero]
    congr 1
    omega
  have base : (2 ^ min i j : ℚ) ≠ 0 := zpow_ne_zero _ two_ne_zero
  rw [compareFinite, compare_eq_iff_eq, scale i j, scale j i, min_comm j i, mul_left_comm,
    mul_left_comm (n : ℚ), mul_right_inj' base]
  exact_mod_cast Iff.rfl

/-- Numbers agree if they have the same exact value. -/
theorem agrees_iff {x y : Number} :
    x.agrees y = true ↔ ∃ value, x.worth? = some value ∧ y.worth? = some value := by
  cases x with
  | nan => simp [agrees, compare?, worth?]
  | infinite negative =>
    cases y with
    | nan | finite => cases negative <;> simp [agrees, compare?, worth?]
    | infinite other => cases negative <;> cases other <;> simp [agrees, compare?, worth?]
  | finite negative mantissa exponent =>
    cases y with
    | nan => simp [agrees, compare?, worth?]
    | infinite other => cases other <;> simp [agrees, compare?, worth?]
    | finite other size scale =>
      rw [agrees, compare?, beq_iff_eq, Option.some_inj, compareFinite_eq]
      simp only [worth?, Option.some_inj, exists_eq_left']
      exact ⟨fun same => by rw [same], fun same => (Sum.inl.inj same).symm⟩

end Number

/-! ## Equal values and expressions -/

namespace Value

/-- The exact value of a value that is a number. -/
def worth? (v : Value) : Option (ℚ ⊕ Bool) := v.number?.bind Number.worth?

theorem sameNumber_iff {v w : Value} :
    v.sameNumber w = true ↔ ∃ value, v.worth? = some value ∧ w.worth? = some value := by
  simp only [sameNumber, worth?]
  cases v.number? with
  | none => simp
  | some x =>
    cases w.number? with
    | none => simp
    | some y => exact Number.agrees_iff

/-- How two values can be equal. -/
inductive Same : Value → Value → Prop where
  | none : Same .none .none
  | number {v w value} : v.worth? = some value → w.worth? = some value → Same v w
  | str (s) : Same (.str s) (.str s)
  | bytes (bs) : Same (.bytes bs) (.bytes bs)
  | list {items others} : Value.equalAll items others = true → Same (.list items) (.list others)
  | tuple {items others} : Value.equalAll items others = true → Same (.tuple items) (.tuple others)
  | expr {e f} : e.equals f = true → Same (.expr e) (.expr f)

theorem equals_iff {v w : Value} : v.equals w = true ↔ v.Same w := by
  constructor
  · fun_cases equals v w with
    | case1 => exact fun _ => .none
    | case2 s t => exact fun same => eq_of_beq same ▸ .str s
    | case3 bs cs => exact fun same => eq_of_beq same ▸ .bytes bs
    | case4 items others => exact .list
    | case5 items others => exact .tuple
    | case6 e f => exact .expr
    | case7 =>
      intro same
      obtain ⟨value, left, right⟩ := sameNumber_iff.mp same
      exact .number left right
  · intro same
    cases same with
    | none => rfl
    | number left right =>
      have same := sameNumber_iff.mpr ⟨_, left, right⟩
      cases v with
      | bool | int | float => exact same
      | _ => cases left
    | str | bytes => exact beq_self_eq_true _
    | list same | tuple same | expr same => exact same

end Value

/-- How two expressions can be equal. -/
inductive Expr.Same : Expr → Expr → Prop where
  | terminal {literal other} : literal.equals other = true → Same (.terminal literal) (.terminal other)
  | rule {name other} : name.equals other = true → Same (.rule name) (.rule other)
  | sequence {items others} : Expr.equalAll items others = true → Same (.sequence items) (.sequence others)
  | choice {items others} : Expr.equalAll items others = true → Same (.choice items) (.choice others)
  | star {element other} : element.equals other = true → Same (.star element) (.star other)
  | plus {element other} : element.equals other = true → Same (.plus element) (.plus other)
  | optional {element other} : element.equals other = true → Same (.optional element) (.optional other)
  | ahead {element other} : element.equals other = true → Same (.ahead element) (.ahead other)
  | notAhead {element other} : element.equals other = true → Same (.notAhead element) (.notAhead other)
  | bare : Same .bare .bare
  | plain {value other} : value.equals other = true → Same (.plain value) (.plain other)

theorem Expr.equals_iff {e f : Expr} : e.equals f = true ↔ e.Same f := by
  constructor
  · fun_cases Expr.equals e f with
    | case1 literal other => exact .terminal
    | case2 name other => exact .rule
    | case3 items others => exact .sequence
    | case4 items others => exact .choice
    | case5 element other => exact .star
    | case6 element other => exact .plus
    | case7 element other => exact .optional
    | case8 element other => exact .ahead
    | case9 element other => exact .notAhead
    | case10 => exact fun _ => .bare
    | case11 value other => exact .plain
    | case12 => exact fun same => nomatch same
  · intro same
    cases same with
    | bare => rfl
    | terminal same | rule same | sequence same | choice same | star same | plus same | optional same
    | ahead same | notAhead same | plain same => exact same

-- Comparing two expressions of a kind computes to comparing their parts, so each case below is what
-- holds of the parts, as it stands.
mutual

theorem Value.equals_symm {v w : Value} (same : v.equals w = true) : w.equals v = true :=
  match v, w, Value.equals_iff.mp same with
  | _, _, .none => rfl
  | _, _, .number left right => Value.equals_iff.mpr (.number right left)
  | _, _, .str _ | _, _, .bytes _ => same
  | _, _, .list same | _, _, .tuple same => (Value.equalAll_symm same :)
  | _, _, .expr same => (Expr.equals_symm same :)
termination_by structural v

theorem Value.equalAll_symm {vs ws : List Value} (same : Value.equalAll vs ws = true) :
    Value.equalAll ws vs = true :=
  match vs, ws with
  | [], [] => rfl
  | _ :: _, _ :: _ => by
    simp only [Value.equalAll, Bool.and_eq_true] at same ⊢
    exact ⟨Value.equals_symm same.1, Value.equalAll_symm same.2⟩
termination_by structural vs

theorem Expr.equals_symm {e f : Expr} (same : e.equals f = true) : f.equals e = true :=
  match e, f, Expr.equals_iff.mp same with
  | _, _, .terminal same | _, _, .rule same | _, _, .plain same =>
    (Value.equals_symm same :)
  | _, _, .sequence same | _, _, .choice same => (Expr.equalAll_symm same :)
  | _, _, .star same | _, _, .plus same | _, _, .optional same | _, _, .ahead same
  | _, _, .notAhead same => (Expr.equals_symm same :)
  | _, _, .bare => rfl
termination_by structural e

theorem Expr.equalAll_symm {es fs : List Expr} (same : Expr.equalAll es fs = true) :
    Expr.equalAll fs es = true :=
  match es, fs with
  | [], [] => rfl
  | _ :: _, _ :: _ => by
    simp only [Expr.equalAll, Bool.and_eq_true] at same ⊢
    exact ⟨Expr.equals_symm same.1, Expr.equalAll_symm same.2⟩
termination_by structural es

end

mutual

theorem Value.equals_trans {u v w : Value} (first : u.equals v = true) (second : v.equals w = true) :
    u.equals w = true :=
  match u, v, w, Value.equals_iff.mp first, Value.equals_iff.mp second with
  | _, _, _, .none, .none => rfl
  | _, _, _, .number left right, .number left' right' =>
    Value.equals_iff.mpr (.number (left.trans (right.symm.trans left')) right')
  | _, _, _, .str _, _ | _, _, _, .bytes _, _ => second
  | _, _, _, .list first, .list second | _, _, _, .tuple first, .tuple second =>
    (Value.equalAll_trans first second :)
  | _, _, _, .expr first, .expr second => (Expr.equals_trans first second :)
termination_by structural u

theorem Value.equalAll_trans {us vs ws : List Value} (first : Value.equalAll us vs = true)
    (second : Value.equalAll vs ws = true) : Value.equalAll us ws = true :=
  match us, vs, ws with
  | [], [], [] => rfl
  | _ :: _, _ :: _, _ :: _ => by
    simp only [Value.equalAll, Bool.and_eq_true] at first second ⊢
    exact ⟨Value.equals_trans first.1 second.1, Value.equalAll_trans first.2 second.2⟩
termination_by structural us

theorem Expr.equals_trans {d e f : Expr} (first : d.equals e = true) (second : e.equals f = true) :
    d.equals f = true :=
  match d, e, f, Expr.equals_iff.mp first, Expr.equals_iff.mp second with
  | _, _, _, .terminal first, .terminal second | _, _, _, .rule first, .rule second
  | _, _, _, .plain first, .plain second => (Value.equals_trans first second :)
  | _, _, _, .sequence first, .sequence second | _, _, _, .choice first, .choice second =>
    (Expr.equalAll_trans first second :)
  | _, _, _, .star first, .star second | _, _, _, .plus first, .plus second
  | _, _, _, .optional first, .optional second | _, _, _, .ahead first, .ahead second
  | _, _, _, .notAhead first, .notAhead second => (Expr.equals_trans first second :)
  | _, _, _, .bare, .bare => rfl
termination_by structural d

theorem Expr.equalAll_trans {ds es fs : List Expr} (first : Expr.equalAll ds es = true)
    (second : Expr.equalAll es fs = true) : Expr.equalAll ds fs = true :=
  match ds, es, fs with
  | [], [], [] => rfl
  | _ :: _, _ :: _, _ :: _ => by
    simp only [Expr.equalAll, Bool.and_eq_true] at first second ⊢
    exact ⟨Expr.equals_trans first.1 second.1, Expr.equalAll_trans first.2 second.2⟩
termination_by structural ds

end

/-- Comparing with values that are equal gives the same. -/
theorem Value.equals_congr {v w v' w' : Value} (first : v.equals v' = true) (second : w.equals w' = true) :
    v.equals w = v'.equals w' := by
  rw [Bool.eq_iff_iff]
  constructor
  · intro same
    exact equals_trans (equals_symm first) (equals_trans same second)
  · intro same
    exact equals_trans first (equals_trans same (equals_symm second))

/-! ## Equal keys and symbols -/

/-- A number is a key and is not made of symbols. -/
theorem Value.number_spec {v : Value} {value : ℚ ⊕ Bool} (number : v.worth? = some value) :
    v.isKey = true ∧ v.symbols? = Option.none := by
  cases v with
  | bool | int | float => exact ⟨rfl, rfl⟩
  | _ => cases number

mutual

theorem Value.isKey_of_equals {v w : Value} (same : v.equals w = true) : v.isKey = w.isKey :=
  match v, w, Value.equals_iff.mp same with
  | _, _, .none | _, _, .str _ | _, _, .bytes _ | _, _, .list _ => rfl
  | _, _, .number left right => (Value.number_spec left).1.trans (Value.number_spec right).1.symm
  | _, _, .tuple same => (Value.areKeys_of_equals same :)
  | _, _, .expr same => (Expr.isKey_of_equals same :)
termination_by structural v

theorem Value.areKeys_of_equals {vs ws : List Value} (same : Value.equalAll vs ws = true) :
    Value.areKeys vs = Value.areKeys ws :=
  match vs, ws with
  | [], [] => rfl
  | _ :: _, _ :: _ => by
    simp only [Value.equalAll, Bool.and_eq_true] at same
    simp only [Value.areKeys, Value.isKey_of_equals same.1, Value.areKeys_of_equals same.2]
termination_by structural vs

theorem Expr.isKey_of_equals {e f : Expr} (same : e.equals f = true) : e.isKey = f.isKey :=
  match e, f, Expr.equals_iff.mp same with
  | _, _, .terminal same | _, _, .rule same | _, _, .plain same => (Value.isKey_of_equals same :)
  | _, _, .sequence same | _, _, .choice same => (Expr.areKeys_of_equals same :)
  | _, _, .star same | _, _, .plus same | _, _, .optional same | _, _, .ahead same
  | _, _, .notAhead same => (Expr.isKey_of_equals same :)
  | _, _, .bare => rfl
termination_by structural e

theorem Expr.areKeys_of_equals {es fs : List Expr} (same : Expr.equalAll es fs = true) :
    Expr.areKeys es = Expr.areKeys fs :=
  match es, fs with
  | [], [] => rfl
  | _ :: _, _ :: _ => by
    simp only [Expr.equalAll, Bool.and_eq_true] at same
    simp only [Expr.areKeys, Expr.isKey_of_equals same.1, Expr.areKeys_of_equals same.2]
termination_by structural es

end

theorem Value.equalAll_iff {vs ws : List Value} :
    Value.equalAll vs ws = true ↔ List.Forall₂ (·.equals ·) vs ws := by
  induction vs generalizing ws with
  | nil => cases ws <;> simp [equalAll]
  | cons v vs ih => cases ws <;> simp [equalAll, ih]

/-- Equal values are made of equal symbols, or none of the two is made of symbols. -/
theorem Value.symbols_of_equals {v w : Value} (same : v.equals w = true) :
    Option.Rel (List.Forall₂ (·.equals ·)) v.symbols? w.symbols? := by
  cases Value.equals_iff.mp same with
  | none => exact .none
  | number left right =>
    rw [(number_spec left).2, (number_spec right).2]
    exact .none
  | str s =>
    refine .some (List.forall₂_same.mpr fun symbol member => ?_)
    obtain ⟨c, _, rfl⟩ := List.mem_map.mp member
    simp [ofChar, equals]
  | bytes bs =>
    refine .some (List.forall₂_same.mpr fun symbol member => ?_)
    obtain ⟨b, _, rfl⟩ := List.mem_map.mp member
    simp [equals, sameNumber, number?, Number.agrees_ofInt]
  | list same | tuple same => exact .some (equalAll_iff.mp same)
  | expr => exact .none

/-! ## Expressions over strings -/

/-- An expression whose literals and names are strings, and in which no value stands for an expression. -/
inductive Expr.Textual : Expr → Prop where
  | terminal {text} : Textual (.terminal (.str text))
  | rule {name} : Textual (.rule (.str name))
  | sequence {items} : (∀ item ∈ items, Textual item) → Textual (.sequence items)
  | choice {alternatives} : (∀ alternative ∈ alternatives, Textual alternative) →
      Textual (.choice alternatives)
  | star {element} : Textual element → Textual (.star element)
  | plus {element} : Textual element → Textual (.plus element)
  | optional {element} : Textual element → Textual (.optional element)
  | ahead {element} : Textual element → Textual (.ahead element)
  | notAhead {element} : Textual element → Textual (.notAhead element)
  | bare : Textual .bare

namespace Expr

variable {e f : Expr} {es fs : List Expr}

theorem equalAll_iff : equalAll es fs = true ↔ List.Forall₂ (·.equals ·) es fs := by
  induction es generalizing fs with
  | nil => cases fs <;> simp [equalAll]
  | cons e es ih => cases fs <;> simp [equalAll, ih]

theorem Textual.equals_self (textual : e.Textual) : e.equals e = true := by
  induction textual with
  | terminal | rule => simp [equals, Value.equals]
  | sequence _ ih | choice _ ih => rw [equals, equalAll_iff, List.forall₂_same]; exact ih
  | star _ ih | plus _ ih | optional _ ih | ahead _ ih | notAhead _ ih => rwa [equals]
  | bare => rfl

theorem eq_of_equalAll (each : ∀ e ∈ es, ∀ {f : Expr}, e.equals f = true → e = f)
    (same : equalAll es fs = true) : es = fs := by
  induction es generalizing fs with
  | nil => cases fs <;> simp [equalAll] at same ⊢
  | cons e es ih =>
    cases fs with
    | nil => simp [equalAll] at same
    | cons f fs =>
      simp only [equalAll, Bool.and_eq_true] at same
      have others := ih (fun e member => each e (List.mem_cons_of_mem _ member)) same.2
      rw [each e List.mem_cons_self same.1, others]

theorem Textual.eq_of_equals (textual : e.Textual) (same : e.equals f = true) : e = f := by
  induction textual generalizing f with
  | terminal =>
    cases equals_iff.mp same with
    | terminal same => cases Value.equals_iff.mp same with | number left _ => cases left | str => rfl
  | rule =>
    cases equals_iff.mp same with
    | rule same => cases Value.equals_iff.mp same with | number left _ => cases left | str => rfl
  | sequence _ ih => cases equals_iff.mp same with | sequence same => rw [eq_of_equalAll ih same]
  | choice _ ih => cases equals_iff.mp same with | choice same => rw [eq_of_equalAll ih same]
  | star _ ih => cases equals_iff.mp same with | star same => rw [ih same]
  | plus _ ih => cases equals_iff.mp same with | plus same => rw [ih same]
  | optional _ ih => cases equals_iff.mp same with | optional same => rw [ih same]
  | ahead _ ih => cases equals_iff.mp same with | ahead same => rw [ih same]
  | notAhead _ ih => cases equals_iff.mp same with | notAhead same => rw [ih same]
  | bare => cases equals_iff.mp same with | bare => rfl

/-- Expressions over strings are equal if they are built alike from the same strings. -/
theorem Textual.equals_iff_eq (textual : e.Textual) : e.equals f = true ↔ e = f :=
  ⟨textual.eq_of_equals, fun same => same ▸ textual.equals_self⟩

end Expr

end SeedPeg
