import Mathlib.Tactic.Common
import SeedPeg.Definition

/-!
# Reading definitions

Which values are definitions: expressions, strings, and tuples of a keyword and as many definitions as
its operator takes (`Value.WellFormed`). What is wrong with a value is listed in the order in which it is
checked (`Value.failures`): the head of a tuple before its operands, these from the left to the right, and
their number after all of them. A value is read exactly if it is well formed, and otherwise reading ends
with the first failure of that list (`definitions_are_checked_in_order`).
-/

namespace SeedPeg

/-! ## What is well formed -/

/-- The keywords of the operators that take any number of operands. -/
def listKeywords : List String := ["CHOICE", "SEQUENCE"]

/-- The keywords of the operators that take one operand. -/
def unaryKeywords : List String := ["ZERO_OR_MORE", "ZERO_OR_ONE", "ONE_OR_MORE", "AND", "NOT"]

def keywords : List String := listKeywords ++ unaryKeywords

/-- Whether a value is written in the notation of definitions. -/
inductive Value.WellFormed : Value → Prop where
  | expr {e} : WellFormed (.expr e)
  | str {s} : WellFormed (.str s)
  | tuple {word operands} : word ∈ keywords → (∀ operand ∈ operands, WellFormed operand) →
      word ∈ listKeywords ∨ operands.length = 1 → WellFormed (.tuple (.str word :: operands))

/-! ## What is wrong, and when it is seen -/

/-- A failure as a caller sees it: what kind of fault it is taken for, and its message. -/
abbrev Failure := Fault.Kind × String

namespace Value

/-- The failure of a value that no expression can be read from. -/
def unknown (definition : Value) : Failure := (.name, "Unknown meta-terminal " ++ definition.text)

/-- What is wrong with a definition before its operands are read: with what it is, or with its head if it
    is a tuple. -/
def headFailure? : Value → Option Failure
  | .expr _ | .str _ => Option.none
  | .tuple (.str word :: operands) =>
    if word ∈ keywords then Option.none else some (unknown (.tuple (.str word :: operands)))
  | .tuple (head :: operands) =>
    if head.isKey then some (unknown (.tuple (head :: operands)))
    else some (.type, "unhashable type: 'list'")
  | definition => some definition.unknown

/-- What is wrong with a definition after its operands are read: their number. -/
def countFailure? : Value → Option Failure
  | .tuple (.str word :: operands) =>
    if word ∈ unaryKeywords ∧ operands.length ≠ 1 then
      some (.type, word ++ " takes exactly one operand, got " ++ toString operands.length)
    else Option.none
  | _ => Option.none

mutual

/-- All that is wrong with a definition and its operands, in the order in which it is checked. -/
def failures : Value → List Failure
  | .tuple (head :: operands) =>
    (headFailure? (.tuple (head :: operands))).toList ++ failuresAll operands ++
      (countFailure? (.tuple (head :: operands))).toList
  | definition => definition.headFailure?.toList

def failuresAll : List Value → List Failure
  | [] => []
  | definition :: rest => definition.failures ++ failuresAll rest

end

end Value

/-- The failure that a caller sees, if reading does not succeed. -/
def failure? {α : Type} : Except Fault α → Option Failure
  | .ok _ => none
  | .error cause => some (cause.kind, cause.message)

/-! ## Keywords and operators -/

namespace Operator

theorem keyword_mem (operator : Operator) : operator.keyword ∈ keywords := by
  cases operator <;> decide

theorem exists_keyword {word : String} (member : word ∈ keywords) :
    ∃ operator : Operator, word = operator.keyword := by
  simp only [keywords, listKeywords, unaryKeywords, List.cons_append, List.nil_append, List.mem_cons,
    List.not_mem_nil, or_false] at member
  rcases member with rfl | rfl | rfl | rfl | rfl | rfl | rfl
  exacts [⟨.choice, rfl⟩, ⟨.sequence, rfl⟩, ⟨.zeroOrMore, rfl⟩, ⟨.zeroOrOne, rfl⟩, ⟨.oneOrMore, rfl⟩,
    ⟨.and, rfl⟩, ⟨.not, rfl⟩]

/-- Nothing but the string of a keyword names an operator. -/
theorem ofValue?_eq_none {head : Value} (other : ∀ word ∈ keywords, head ≠ .str word) :
    ofValue? head = none := by
  cases named : ofValue? head with
  | none => rfl
  | some operator => exact absurd (eq_keyword_of_ofValue? named) (other _ operator.keyword_mem)

/-- An operator refuses operands if it takes one and there are more or fewer. -/
theorem combine?_eq_none_iff {operator : Operator} {operands : List Expr} :
    operator.combine? operands = none ↔ operator.keyword ∈ unaryKeywords ∧ operands.length ≠ 1 := by
  have unary : operator.keyword ∈ unaryKeywords ↔ ¬ (operator = .choice ∨ operator = .sequence) := by
    cases operator <;> decide
  have accepted := operator.combine?_isSome_iff operands
  rw [← Option.not_isSome_iff_eq_none, accepted, unary, not_or, and_comm]

end Operator

/-! ## Reading -/

section

variable {definition : Value} {operands rest : List Value} {e : Expr} {es : List Expr} {cause : Fault}

theorem Expr.ofDefinitions_cons :
    Expr.ofDefinitions (definition :: rest) =
      match Expr.ofDefinition definition with
      | .error cause => .error cause
      | .ok e => (Expr.ofDefinitions rest).map (e :: ·) := by
  rw [Expr.ofDefinitions]
  cases Expr.ofDefinition definition with
  | error cause => rfl
  | ok e => cases Expr.ofDefinitions rest <;> rfl

theorem length_of_ofDefinitions (read : Expr.ofDefinitions operands = .ok es) :
    es.length = operands.length := by
  induction operands generalizing es with
  | nil => cases read; rfl
  | cons definition rest ih =>
    rw [Expr.ofDefinitions_cons] at read
    cases first : Expr.ofDefinition definition with
    | error cause => rw [first] at read; cases read
    | ok e =>
      cases others : Expr.ofDefinitions rest with
      | error cause => rw [first, others] at read; cases read
      | ok more =>
        rw [first, others] at read
        cases read
        simp [ih others]

/-- Operands fail with the first of them that does. -/
theorem failure?_ofDefinitions_cons :
    failure? (Expr.ofDefinitions (definition :: rest)) =
      (failure? (Expr.ofDefinition definition)).or (failure? (Expr.ofDefinitions rest)) := by
  rw [Expr.ofDefinitions_cons]
  cases Expr.ofDefinition definition with
  | error cause => rfl
  | ok e => cases Expr.ofDefinitions rest <;> rfl

/-- A tuple that starts with a keyword fails with its operands, or else with their number. -/
theorem failure?_keyword (operator : Operator) (operands : List Value) :
    failure? (Expr.ofDefinition (.tuple (.str operator.keyword :: operands))) =
      (failure? (Expr.ofDefinitions operands)).or
        (Value.countFailure? (.tuple (.str operator.keyword :: operands))) := by
  rw [Expr.ofDefinition, if_pos (by rfl), Operator.ofValue?_keyword]
  cases read : Expr.ofDefinitions operands with
  | error cause => rfl
  | ok es =>
    have length := length_of_ofDefinitions read
    simp only [bind, Except.bind, failure?, Option.none_or, Value.countFailure?, ← length]
    cases made : operator.combine? es with
    | none => rw [if_pos (Operator.combine?_eq_none_iff.mp made)]; rfl
    | some e =>
      have accepted : ¬ (operator.keyword ∈ unaryKeywords ∧ es.length ≠ 1) := by
        rw [← Operator.combine?_eq_none_iff, made]
        simp
      rw [if_neg accepted]

/-- Nothing is wrong with the head of a tuple if it is a keyword, and only then. -/
theorem Value.headFailure?_eq_none_iff {head : Value} :
    headFailure? (.tuple (head :: operands)) = Option.none ↔ ∃ word ∈ keywords, head = .str word := by
  cases head with
  | str word => simp [headFailure?]
  | _ =>
    rw [headFailure?]
    · split <;> simp
    · simp

/-- A tuple that does not start with a keyword fails with its head. -/
theorem failure?_head {head : Value} (other : ∀ word ∈ keywords, head ≠ .str word) :
    failure? (Expr.ofDefinition (.tuple (head :: operands))) =
      Value.headFailure? (.tuple (head :: operands)) := by
  rw [Expr.ofDefinition, Operator.ofValue?_eq_none other]
  cases head with
  | str word =>
    have unknown : word ∉ keywords := fun member => other word member rfl
    rw [Value.headFailure?, if_neg unknown, if_pos (by rfl)]
    rfl
  | _ =>
    rw [Value.headFailure?]
    · split <;> rfl
    · simp

end

mutual

/-- Reading ends with the first failure. -/
theorem failure?_ofDefinition (definition : Value) :
    failure? (Expr.ofDefinition definition) = definition.failures.head? := by
  cases definition with
  | tuple items =>
    cases items with
    | nil => rfl
    | cons head operands =>
      by_cases named : ∃ word ∈ keywords, head = .str word
      · obtain ⟨word, member, rfl⟩ := named
        obtain ⟨operator, rfl⟩ := Operator.exists_keyword member
        rw [failure?_keyword, failure?_ofDefinitions operands, Value.failures, Value.headFailure?,
          if_pos member]
        simp
      · have other : ∀ word ∈ keywords, head ≠ .str word := by
          intro word member same
          exact named ⟨word, member, same⟩
        obtain ⟨failure, wrong⟩ := Option.ne_none_iff_exists'.mp
          (mt Value.headFailure?_eq_none_iff.mp named : Value.headFailure? (.tuple (head :: operands)) ≠ _)
        rw [failure?_head other, Value.failures, wrong]
        rfl
  | _ => rfl

/-- Reading some definitions ends with the first failure of the first that has one. -/
theorem failure?_ofDefinitions (definitions : List Value) :
    failure? (Expr.ofDefinitions definitions) = (Value.failuresAll definitions).head? := by
  cases definitions with
  | nil => rfl
  | cons definition rest =>
    rw [failure?_ofDefinitions_cons, failure?_ofDefinition definition, failure?_ofDefinitions rest,
      Value.failuresAll, List.head?_append]

end

/-- Of the keywords, those of operators that do not take one operand are those that take any number. -/
theorem mem_unaryKeywords_iff {word : String} (member : word ∈ keywords) :
    word ∈ unaryKeywords ↔ word ∉ listKeywords := by
  obtain ⟨operator, rfl⟩ := Operator.exists_keyword member
  cases operator <;> decide

theorem Value.countFailure?_eq_none_iff {word : String} {operands : List Value}
    (member : word ∈ keywords) :
    countFailure? (.tuple (.str word :: operands)) = Option.none ↔
      word ∈ listKeywords ∨ operands.length = 1 := by
  simp only [countFailure?, mem_unaryKeywords_iff member]
  by_cases listed : word ∈ listKeywords
  · simp [listed]
  · by_cases single : operands.length = 1 <;> simp [listed, single]

mutual

/-- Nothing is wrong with what is well formed, and with nothing else. -/
theorem failures_eq_nil_iff (definition : Value) : definition.failures = [] ↔ definition.WellFormed := by
  cases definition with
  | expr e => exact ⟨fun _ => .expr, fun _ => rfl⟩
  | str s => exact ⟨fun _ => .str, fun _ => rfl⟩
  | tuple items =>
    cases items with
    | nil => exact ⟨fun clean => (by cases clean), fun formed => (by cases formed)⟩
    | cons head operands =>
      have each := failuresAll_eq_nil_iff operands
      simp only [Value.failures, List.append_eq_nil_iff, Option.toList_eq_nil_iff,
        Value.headFailure?_eq_none_iff, each]
      constructor
      · rintro ⟨⟨⟨word, member, rfl⟩, formed⟩, counted⟩
        exact .tuple member formed ((Value.countFailure?_eq_none_iff member).mp counted)
      · intro formed
        cases formed with
        | tuple member formed counted =>
          exact ⟨⟨⟨_, member, rfl⟩, formed⟩, (Value.countFailure?_eq_none_iff member).mpr counted⟩
  | _ => exact ⟨fun clean => (by cases clean), fun formed => (by cases formed)⟩

theorem failuresAll_eq_nil_iff (definitions : List Value) :
    Value.failuresAll definitions = [] ↔ ∀ definition ∈ definitions, definition.WellFormed := by
  cases definitions with
  | nil => simp [Value.failuresAll]
  | cons definition rest =>
    have first := failures_eq_nil_iff definition
    have others := failuresAll_eq_nil_iff rest
    simp [Value.failuresAll, first, others]

end

/-- A value is read exactly if it is well formed; otherwise a caller sees the first of the failures in it,
    in the order in which a head is checked before its operands and their number after them. -/
theorem definitions_are_checked_in_order (definition : Value) :
    ((∃ e, Expr.ofDefinition definition = .ok e) ↔ definition.WellFormed) ∧
      failure? (Expr.ofDefinition definition) = definition.failures.head? := by
  refine ⟨?_, failure?_ofDefinition definition⟩
  rw [← failures_eq_nil_iff, ← List.head?_eq_none_iff, ← failure?_ofDefinition]
  cases Expr.ofDefinition definition <;> simp [failure?]

end SeedPeg
