import Mathlib
import SeedPeg.Proofs.Occurrence
import SeedPeg.Proofs.Termination

/-!
# References

The names that a grammar applies and does not declare foretell which rules can be missed in a match
(`undefined_references_foretell`). They are collected from the definitions, each once, if nothing stands
in an expression's place there that is none (`Expr.references_cases`); and whatever is evaluated in a
match applies no other names than the definitions do, that of the start apart.
-/

namespace SeedPeg

/-! ## Sets of names -/

theorem Value.equals_str {value : Value} {s : String} :
    value.equals (.str s) = true ↔ value = .str s := by
  cases value <;> simp [Value.equals, Value.sameNumber, Value.number?]

theorem any_equals_str {names : List Value} {s : String} :
    names.any (·.equals (.str s)) = true ↔ .str s ∈ names := by
  rw [List.any_eq_true]
  constructor
  · rintro ⟨name, member, same⟩
    rwa [Value.equals_str.mp same] at member
  · exact fun member => ⟨_, member, Value.equals_str.mpr rfl⟩

theorem mem_insertName {names : List Value} {name : Value} {s : String} :
    name ∈ insertName names (.str s) ↔ name ∈ names ∨ name = .str s := by
  simp only [insertName]
  split
  · rename_i held
    rw [any_equals_str] at held
    exact ⟨.inl, fun member => member.elim id fun same => same ▸ held⟩
  · simp

theorem nodup_insertName {names : List Value} (single : names.Nodup) (s : String) :
    (insertName names (.str s)).Nodup := by
  simp only [insertName]
  split
  · exact single
  · rename_i missing
    rw [any_equals_str] at missing
    refine List.nodup_append.mpr ⟨single, List.nodup_singleton _, fun name member other last => ?_⟩
    rw [List.mem_singleton.mp last]
    rintro rfl
    exact missing member

/-- Joining names that are strings makes a list of the names of both, each once. -/
theorem joinNames_spec {names others : List Value} (single : names.Nodup)
    (strings : ∀ name ∈ others, ∃ s, name = .str s) :
    (joinNames names others).Nodup ∧
      ∀ name, name ∈ joinNames names others ↔ name ∈ names ∨ name ∈ others := by
  induction others generalizing names with
  | nil => simpa [joinNames] using single
  | cons first rest ih =>
    obtain ⟨⟨s, rfl⟩, others⟩ := List.forall_mem_cons.mp strings
    obtain ⟨nodup, members⟩ := ih (nodup_insertName single s) others
    refine ⟨nodup, fun name => ?_⟩
    have joined : joinNames names (.str s :: rest) = joinNames (insertName names (.str s)) rest := rfl
    rw [joined, members, mem_insertName, List.mem_cons, or_assoc]

/-! ## The references of an expression -/

/-- Whether nothing stands in an expression's place, at any depth, that is none. -/
def Expr.WellMade (e : Expr) : Prop := ∀ value, ¬ Occurs (.plain value) e

/-- What collecting the references of an expression gives. -/
inductive Expr.Referred (e : Expr) : Except Fault (List Value) → Prop where
  | names {names} : e.WellMade → names.Nodup → (∀ name, name ∈ names ↔ e.Applies name) →
      Referred e (.ok names)
  | improper {kind} : ¬ e.WellMade → Referred e (.error (.noExpression kind .references))

/-- What is built from two expressions refers to what they refer to, collected from the left. -/
theorem Expr.Referred.join {e first second : Expr} {one other : Except Fault (List Value)}
    (occurs : ∀ {part : Expr}, part.IsAtom → (Occurs part e ↔ Occurs part first ∨ Occurs part second))
    (strings : ∀ name, second.Applies name → ∃ s, name = .str s)
    (left : first.Referred one) (right : second.Referred other) :
    e.Referred (do return joinNames (← one) (← other)) := by
  have improper (value : Value) := occurs (isAtom_plain value)
  cases left with
  | improper flawed =>
    exact .improper fun made => flawed fun value inside => made value ((improper value).mpr (.inl inside))
  | names made single exact =>
    cases right with
    | improper flawed =>
      exact .improper fun made => flawed fun value inside => made value ((improper value).mpr (.inr inside))
    | names made' _ exact' =>
      obtain ⟨nodup, members⟩ :=
        joinNames_spec single fun name member => strings name ((exact' name).mp member)
      refine .names (fun value inside => ?_) nodup fun name => ?_
      · exact ((improper value).mp inside).elim (made value) (made' value)
      · rw [members, exact, exact']
        exact (occurs (isAtom_rule name)).symm

/-- What is built from one expression refers to what that refers to. -/
theorem Expr.Referred.whole {e element : Expr} {collected : Except Fault (List Value)}
    (referred : element.Referred collected) (built : e.children = .ok [element]) (apart : ¬ e.IsAtom) :
    e.Referred collected := by
  have improper (value : Value) := (isAtom_plain value).occurs_element built apart
  cases referred with
  | names made single exact =>
    exact .names (fun value inside => made value ((improper value).mp inside)) single
      fun name => (exact name).trans ((isAtom_rule name).occurs_element built apart).symm
  | improper flawed =>
    exact .improper fun made => flawed fun value inside => made value ((improper value).mpr inside)

theorem Expr.Referred.nothing {e : Expr} (made : e.WellMade) (applies : ∀ name, ¬ e.Applies name) :
    e.Referred (.ok []) :=
  .names made List.nodup_nil (by simpa using applies)

theorem Expr.wellMade_of_childless {e : Expr} (built : e.children = .ok [])
    (apart : ∀ value, e ≠ .plain value) : e.WellMade :=
  fun value inside => apart value ((Occurs.eq_of_childless built).mp inside).symm

/-- The references of an expression are the names that it applies, each once, if they are strings and
    the expression is well made; if it is not, there are none. -/
theorem Expr.references_cases (e : Expr) (strings : ∀ name, e.Applies name → ∃ s, name = .str s) :
    e.Referred e.references := by
  induction e using Expr.byParts with
  | terminal literal => exact .nothing (wellMade_of_childless rfl (by simp)) (by simp)
  | rule name =>
    obtain ⟨s, rfl⟩ := strings name (by simp)
    exact .names (wellMade_of_childless rfl (by simp)) (List.nodup_singleton _) (by simp)
  | nothing => exact .nothing (wellMade_of_childless rfl (by simp)) (by simp)
  | sequence item rest ihItem ihRest =>
    simp only [applies_sequence] at strings
    exact .join IsAtom.occurs_sequence (fun name inside => strings name (.inr inside))
      (ihItem fun name inside => strings name (.inl inside))
      (ihRest fun name inside => strings name (.inr inside))
  | never => exact .nothing (wellMade_of_childless rfl (by simp)) (by simp)
  | choice alternative rest ihFirst ihRest =>
    simp only [applies_choice] at strings
    exact .join IsAtom.occurs_choice (fun name inside => strings name (.inr inside))
      (ihFirst fun name inside => strings name (.inl inside))
      (ihRest fun name inside => strings name (.inr inside))
  | star element ih => exact (ih (by simpa using strings)).whole rfl id
  | plus element ih => exact (ih (by simpa using strings)).whole rfl id
  | optional element ih => exact (ih (by simpa using strings)).whole rfl id
  | ahead element ih => exact (ih (by simpa using strings)).whole rfl id
  | notAhead element ih => exact (ih (by simpa using strings)).whole rfl id
  | bare => exact .nothing (wellMade_of_childless rfl (by simp)) (by simp)
  | plain value => exact .improper fun made => made value .here

/-! ## The names that a grammar misses -/

namespace Grammar

variable (grammar : Grammar)

/-- Whether the names of all rules are strings. -/
def DeclaresStrings : Prop := ∀ entry ∈ grammar.entries, ∃ s, entry.1 = .str s

/-- Whether the names that are applied in the definitions are strings. -/
def AppliesStrings : Prop :=
  ∀ body ∈ grammar.definitions, ∀ name, body.Applies name → ∃ s, name = .str s

def WellMade : Prop := ∀ body ∈ grammar.definitions, body.WellMade

/-- Whether a name is applied in some definition, at any depth, and not declared. -/
def Misses (name : Value) : Prop :=
  (∃ body ∈ grammar.definitions, body.Applies name) ∧ grammar.find? name = none

variable {grammar}

/-- The definitions refer to what their sequence refers to. -/
theorem undefinedReferences_cases (strings : grammar.AppliesStrings) :
    (grammar.WellMade ∧ ∃ names, grammar.undefinedReferences = .ok names ∧ names.Nodup ∧
        ∀ name, name ∈ names ↔ grammar.Misses name) ∨
      (¬ grammar.WellMade ∧ ∃ cause, grammar.undefinedReferences = .error cause ∧
        cause.kind = .attribute) := by
  have occurs {part : Expr} (atom : part.IsAtom) :=
    @Expr.IsAtom.occurs_iff part (.sequence grammar.definitions) atom _ rfl id
  have wellMade : (Expr.sequence grammar.definitions).WellMade ↔ grammar.WellMade := by
    simp only [Expr.WellMade, WellMade, occurs (Expr.isAtom_plain _), not_exists, not_and]
    exact ⟨fun made body member value => made value body member,
      fun made value body member => made body member value⟩
  have applies (name : Value) : (Expr.sequence grammar.definitions).Applies name ↔
      ∃ body ∈ grammar.definitions, body.Applies name := occurs (Expr.isAtom_rule name)
  have collected := Expr.references_cases (.sequence grammar.definitions) fun name inside => by
    obtain ⟨body, member, inner⟩ := (applies name).mp inside
    exact strings body member name inner
  have undefined : grammar.undefinedReferences = (do
      let names ← (Expr.sequence grammar.definitions).references
      return names.filter fun name => (grammar.find? name).isNone) := rfl
  rw [undefined]
  generalize (Expr.sequence grammar.definitions).references = references at collected ⊢
  cases collected with
  | names made single exact =>
    refine .inl ⟨wellMade.mp made, _, rfl, single.filter _, fun name => ?_⟩
    simp only [List.mem_filter, exact, applies, Option.isNone_iff_eq_none]
    rfl
  | improper flawed => exact .inr ⟨fun made => flawed (wellMade.mpr made), _, rfl, rfl⟩

theorem missing_of_lookup {name : Value} {cause : Fault} (failed : grammar.lookup name = .error cause)
    (named : cause.kind = .name) : cause = .unknownRule name ∧ grammar.find? name = none := by
  simp only [lookup] at failed
  split at failed
  · split at failed
    · cases failed
    · rename_i missing
      cases failed
      exact ⟨rfl, missing⟩
  · cases failed
    cases named

end Grammar

/-! ## Faults of names -/

section

variable {e part next : Expr} {name : Value}

theorem Expr.Applies.of_first (first : e.first? = some part) (inside : part.Applies name) :
    e.Applies name := by
  cases e with
  | terminal | rule | bare | plain => cases first
  | sequence items =>
    cases items with
    | nil => cases first
    | cons item rest => cases first; exact applies_sequence.mpr (.inl inside)
  | choice alternatives =>
    cases alternatives with
    | nil => cases first
    | cons alternative rest => cases first; exact applies_choice.mpr (.inl inside)
  | star | plus | optional | ahead | notAhead => cases first; simpa using inside

/-- What an expression goes on with applies nothing that the expression does not. -/
theorem Expr.Applies.of_after {result : Result} {idle back : Bool} {trees : List Tree}
    (after : e.after result idle = .go next back trees) (inside : next.Applies name) : e.Applies name := by
  obtain ⟨tree, rfl⟩ := Expr.done_of_after_go after
  cases e with
  | terminal | rule | bare | plain => cases tree <;> cases after
  | sequence items =>
    cases items with
    | nil => cases tree <;> cases after
    | cons item rest => cases tree <;> cases after; exact applies_sequence.mpr (.inr inside)
  | choice alternatives =>
    cases alternatives with
    | nil => cases tree <;> cases after
    | cons alternative rest => cases tree <;> cases after; exact applies_choice.mpr (.inr inside)
  | star element => cases tree <;> cases idle <;> cases after; exact inside
  | plus element => cases tree <;> cases after; simpa using inside
  | optional | ahead | notAhead => cases tree <;> cases after

end

/-- A fault of a name in a match is that of a name which is not declared: of the start, or of one that
    is applied in some definition. -/
theorem Matcher.missing_of_run {matcher : Matcher} {input : Input} {start : Option Value} {cause : Fault}
    (failed : (matcher.run input start).1 = .fault cause) (named : cause.kind = .name) :
    ∃ name, cause = .unknownRule name ∧ matcher.grammar.find? name = none ∧
      (name = start.getD matcher.start ∨ matcher.grammar.Misses name) := by
  have inherits : matcher.grammar.Inherits fun e => ∀ name, e.Applies name →
      name = start.getD matcher.start ∨ ∃ body ∈ matcher.grammar.definitions, body.Applies name :=
    ⟨fun first held name inside => held name (.of_first first inside),
      fun after held name inside => held name (.of_after after inside),
      fun found name inside => .inr ⟨_, List.mem_of_getElem? found, inside⟩⟩
  have begins : ∀ name, (matcher.entry start).Applies name →
      name = start.getD matcher.start ∨ ∃ body ∈ matcher.grammar.definitions, body.Applies name :=
    fun name inside => .inl (by simpa [Matcher.entry] using inside)
  rcases Matcher.caused inherits begins failed with ⟨e, held, raises⟩ | ⟨_, _, refused, _⟩
  · cases raises with
    | terminal | bare | plain => cases named
    | @rule name _ missing =>
      obtain ⟨rfl, unknown⟩ := Grammar.missing_of_lookup missing named
      refine ⟨name, rfl, unknown, ?_⟩
      exact (held name (by simp)).imp id fun applied => ⟨applied, unknown⟩
  · rcases Setting.fault_of_refusal refused with rfl | rfl <;> cases named

/-- If a grammar applies strings only and is well made, its undefined references are the names that it
    applies and does not declare, each once; if something stands in an expression's place that is none,
    they cannot be collected. A fault of a name in a match is that of the undeclared start or of such a
    name, which is among the undefined references where these can be collected; so without any, and with
    a start that is declared, there is none. -/
theorem undefined_references_foretell (matcher : Matcher) (strings : matcher.grammar.AppliesStrings) :
    (matcher.grammar.WellMade → ∃ names, matcher.grammar.undefinedReferences = .ok names ∧
      names.Nodup ∧ ∀ name, name ∈ names ↔ matcher.grammar.Misses name) ∧
    (¬ matcher.grammar.WellMade → ∃ cause, matcher.grammar.undefinedReferences = .error cause ∧
      cause.kind = .attribute) ∧
    (∀ input start cause, (matcher.run input start).1 = .fault cause → cause.kind = .name →
      ∃ name, cause = .unknownRule name ∧ cause.message = "Unknown rule " ++ name.text ∧
        matcher.grammar.find? name = none ∧
        (name = start.getD matcher.start ∨ matcher.grammar.Misses name) ∧
        ∀ names, matcher.grammar.undefinedReferences = .ok names →
          name = start.getD matcher.start ∨ name ∈ names) ∧
    ∀ start, matcher.grammar.undefinedReferences = .ok [] →
      matcher.grammar.find? (start.getD matcher.start) ≠ none →
      ∀ input cause, (matcher.run input start).1 = .fault cause → cause.kind ≠ .name := by
  have collected := Grammar.undefinedReferences_cases strings
  have exact {names} (referred : matcher.grammar.undefinedReferences = .ok names) (name : Value) :
      name ∈ names ↔ matcher.grammar.Misses name := by
    rcases collected with ⟨_, others, found, _, members⟩ | ⟨_, cause, failed, _⟩
    · rw [referred] at found
      cases found
      exact members name
    · rw [referred] at failed
      cases failed
  refine ⟨fun made => ?_, fun flawed => ?_, fun input start cause failed named => ?_,
    fun start empty declared input cause failed named => ?_⟩
  · exact collected.elim And.right fun other => absurd made other.1
  · exact collected.elim (fun other => absurd other.1 flawed) And.right
  · obtain ⟨name, rfl, unknown, origin⟩ := Matcher.missing_of_run failed named
    exact ⟨name, rfl, rfl, unknown, origin, fun names referred => origin.imp id (exact referred name).mpr⟩
  · obtain ⟨name, rfl, unknown, rfl | missed⟩ := Matcher.missing_of_run failed named
    · exact declared unknown
    · exact absurd ((exact empty name).mpr missed) List.not_mem_nil

/-- A one and, perhaps, what is not declared. -/
def straying : Matcher where
  grammar :=
    { entries := [(defaultStart, .sequence [.terminal (.str "1"), .optional (.rule (.str "more"))])] }

theorem straying_foretold :
    straying.grammar.AppliesStrings ∧ straying.grammar.WellMade ∧
      (∃ names, straying.grammar.undefinedReferences = .ok names ∧ names.Nodup ∧
        ∀ name, name ∈ names ↔ straying.grammar.Misses name) ∧
      (straying.run (.text #['1'])).1 = .fault (.unknownRule (.str "more")) ∧
      straying.grammar.Misses (.str "more") := by
  have strings : straying.grammar.AppliesStrings := by
    intro body member name inside
    obtain rfl := List.mem_singleton.mp member
    exact ⟨"more", by simpa using inside⟩
  have made : straying.grammar.WellMade := by
    have referred : straying.grammar.undefinedReferences = .ok [.str "more"] := by rfl
    rcases Grammar.undefinedReferences_cases strings with ⟨made, _⟩ | ⟨_, cause, failed, _⟩
    · exact made
    · rw [referred] at failed
      cases failed
  have failed : (straying.run (.text #['1'])).1 = .fault (.unknownRule (.str "more")) := by cbv
  obtain ⟨collected, _, faults, _⟩ := undefined_references_foretell straying strings
  obtain ⟨name, cause, _, _, origin, _⟩ := faults _ none _ failed rfl
  cases cause
  exact ⟨strings, made, collected made, failed, origin.resolve_left (by simp [straying, defaultStart])⟩

/-- A reference to a rule that is not declared, and a number where an expression should be. -/
def patchwork : Grammar :=
  { entries := [(defaultStart, .sequence [.rule (.str "more"), .plain (.int 5)])] }

theorem patchwork_foretells_nothing :
    patchwork.DeclaresStrings ∧ patchwork.AppliesStrings ∧ patchwork.Misses (.str "more") ∧
      patchwork.undefinedReferences = .error (.noExpression "int" .references) ∧
      ¬ ∃ names, patchwork.undefinedReferences = .ok names ∧
        ∀ name, name ∈ names ↔ patchwork.Misses name := by
  have failed : patchwork.undefinedReferences = .error (.noExpression "int" .references) := by rfl
  refine ⟨?_, ?_, ⟨⟨_, List.mem_singleton_self _, by simp⟩, by rfl⟩, failed, ?_⟩
  · intro entry member
    obtain rfl := List.mem_singleton.mp member
    exact ⟨"start", rfl⟩
  · intro body member name inside
    obtain rfl := List.mem_singleton.mp member
    exact ⟨"more", by simpa using inside⟩
  · rintro ⟨names, found, _⟩
    rw [failed] at found
    cases found

end SeedPeg
