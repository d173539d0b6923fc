import SeedPeg.Proofs.Orderly

/-!
# The meaning of expressions

What an expression means at a position, without a memo table, markers or a depth: it matches with a
tree up to some cursor, it fails, or it applies a rule that is not declared. A meaning is given by a
finite derivation, in which a rule means what its definition means at the same position; a rule that
comes back to itself without moving has none. The height of a derivation counts the rules that are
nested in it. A derivation of an expression has one of the part that is evaluated first in it, and
together with the way in which that part ends one of what comes after (`Within.split`).
-/

namespace SeedPeg

/-- What an expression means at a position. -/
inductive Verdict where
  /-- It matches with a tree, up to a cursor. -/
  | matched (tree : Tree) (stop : Int)
  /-- It does not match. -/
  | failed
  /-- A rule is applied that is not declared. -/
  | undefined (name : Value)

/-- The verdict with some trees before those of its list. -/
def Verdict.prepend (trees : List Tree) : Verdict → Verdict
  | .matched (.node others) stop => .matched (.node (trees ++ others)) stop
  | verdict => verdict

/-- Derivations of what expressions mean in an input. -/
inductive Derivation (grammar : Grammar) (input : Input) : Expr → Int → Verdict → Type where
  | literal {literal symbols start} :
      literal.symbols? = some symbols → input.Spells symbols start (start + symbols.length) →
      Derivation grammar input (.terminal literal) start
        (.matched (.leaf literal) (start + symbols.length))
  | mismatch {literal symbols start} :
      literal.symbols? = some symbols → ¬ input.Spells symbols start (start + symbols.length) →
      Derivation grammar input (.terminal literal) start .failed
  | nothing {start} : Derivation grammar input (.sequence []) start (.matched (.node []) start)
  | broken {item rest start} :
      Derivation grammar input item start .failed →
      Derivation grammar input (.sequence (item :: rest)) start .failed
  | item {item rest start middle tree verdict} :
      Derivation grammar input item start (.matched tree middle) →
      Derivation grammar input (.sequence rest) middle verdict →
      Derivation grammar input (.sequence (item :: rest)) start
        (verdict.prepend (if item.isKept then [tree] else []))
  | never {start} : Derivation grammar input (.choice []) start .failed
  | chosen {alternative rest start tree stop} :
      Derivation grammar input alternative start (.matched tree stop) →
      Derivation grammar input (.choice (alternative :: rest)) start (.matched tree stop)
  | other {alternative rest start verdict} :
      Derivation grammar input alternative start .failed →
      Derivation grammar input (.choice rest) start verdict →
      Derivation grammar input (.choice (alternative :: rest)) start verdict
  | stopped {element start} :
      Derivation grammar input element start .failed →
      Derivation grammar input (.star element) start (.matched (.node []) start)
  | idle {element start tree} :
      Derivation grammar input element start (.matched tree start) →
      Derivation grammar input (.star element) start (.matched (.node []) start)
  | again {element start middle tree verdict} :
      Derivation grammar input element start (.matched tree middle) → middle ≠ start →
      Derivation grammar input (.star element) middle verdict →
      Derivation grammar input (.star element) start (verdict.prepend [tree])
  | missing {element start} :
      Derivation grammar input element start .failed →
      Derivation grammar input (.plus element) start .failed
  | once {element start middle tree verdict} :
      Derivation grammar input element start (.matched tree middle) →
      Derivation grammar input (.star element) middle verdict →
      Derivation grammar input (.plus element) start (verdict.prepend [tree])
  | absent {element start} :
      Derivation grammar input element start .failed →
      Derivation grammar input (.optional element) start (.matched (.node []) start)
  | present {element start tree stop} :
      Derivation grammar input element start (.matched tree stop) →
      Derivation grammar input (.optional element) start (.matched (.node [tree]) stop)
  | ahead {element start tree stop} :
      Derivation grammar input element start (.matched tree stop) →
      Derivation grammar input (.ahead element) start (.matched .lookahead start)
  | notAhead {element start} :
      Derivation grammar input element start .failed →
      Derivation grammar input (.ahead element) start .failed
  | excluded {element start tree stop} :
      Derivation grammar input element start (.matched tree stop) →
      Derivation grammar input (.notAhead element) start .failed
  | allowed {element start} :
      Derivation grammar input element start .failed →
      Derivation grammar input (.notAhead element) start (.matched .lookahead start)
  | interrupted {e part start name} :
      e.first? = some part → Derivation grammar input part start (.undefined name) →
      Derivation grammar input e start (.undefined name)
  | unknown {name start} :
      grammar.lookup name = .error (.unknownRule name) →
      Derivation grammar input (.rule name) start (.undefined name)
  | rule {name id body start verdict} :
      grammar.lookup name = .ok (id, body) → Derivation grammar input body start verdict →
      Derivation grammar input (.rule name) start verdict

/-- Whether an expression means something at a position. -/
def Means (setting : Setting) (e : Expr) (start : Int) (verdict : Verdict) : Prop :=
  Nonempty (Derivation setting.grammar setting.input e start verdict)

/-- Whether an evaluation ends with a result and a cursor as a verdict says; where there is no match
    the cursor can be anywhere. -/
def Verdict.Answers : Verdict → Result → Int → Prop
  | .matched tree stop, result, position => result = .done (some tree) ∧ position = stop
  | .failed, result, _ => result = .done none
  | .undefined name, result, _ => result = .fault (.unknownRule name)

section

variable {grammar : Grammar} {input : Input} {e part : Expr} {start : Int} {verdict : Verdict}

/-- The number of rules that are nested in a derivation. -/
def Derivation.height {e : Expr} {start : Int} {verdict : Verdict} :
    Derivation grammar input e start verdict → Nat
  | .literal .. | .mismatch .. | .nothing | .never | .unknown _ => 0
  | .broken first | .chosen first | .stopped first | .idle first | .missing first | .absent first
  | .present first | .ahead first | .notAhead first | .excluded first | .allowed first
  | .interrupted _ first => first.height
  | .item first rest | .other first rest | .again first _ rest | .once first rest =>
    max first.height rest.height
  | .rule _ body => body.height + 1

/-- What an expression means by a derivation of some height at most. -/
def Within (setting : Setting) (height : Nat) (e : Expr) (start : Int) (verdict : Verdict) : Prop :=
  ∃ derivation : Derivation setting.grammar setting.input e start verdict, derivation.height ≤ height

theorem Verdict.answers_prepend {result : Result} {position : Int} (trees : List Tree)
    (answers : verdict.Answers result position) :
    (verdict.prepend trees).Answers (result.prepend trees) position := by
  cases verdict with
  | matched tree stop =>
    obtain ⟨rfl, rfl⟩ := answers
    cases tree <;> exact ⟨rfl, rfl⟩
  | failed => cases answers; rfl
  | undefined name => cases answers; rfl

/-- Where there is no match the cursor does not matter. -/
theorem Verdict.Answers.placed {tree : Option Tree} {stop : Int} (answers : verdict.Answers (.done tree) stop)
    (start : Int) : verdict.Answers (.done tree) (if tree.isSome then stop else start) := by
  cases verdict with
  | matched found place =>
    obtain ⟨same, rfl⟩ := answers
    cases same
    exact ⟨rfl, rfl⟩
  | failed => exact answers
  | undefined name => cases answers

variable {setting : Setting} {height : Nat}

/-- What follows a part that has ended as it means. -/
def Within.After (setting : Setting) (height : Nat) (start : Int) (verdict : Verdict) (stop : Int) :
    SeedPeg.After → Prop
  | .stop ended back => verdict.Answers ended (if back then start else stop)
  | .go next back trees =>
    ∃ later, Within setting height next (if back then start else stop) later ∧
      ∀ ended position, later.Answers ended position → verdict.Answers (ended.prepend trees) position

/-- The part that is evaluated first has a derivation too, and so has what comes after it. -/
theorem Within.split (within : Within setting height e start verdict) (first : e.first? = some part) :
    ∃ inner, Within setting height part start inner ∧
      ∀ result stop, inner.Answers result stop →
        Within.After setting height start verdict stop (e.after result (stop = start)) := by
  obtain ⟨derivation, bound⟩ := within
  cases derivation with
  | literal | mismatch | nothing | never | unknown | rule => cases first
  | item inner rest =>
    cases first
    have both := Nat.max_le.mp bound
    refine ⟨_, ⟨inner, both.1⟩, ?_⟩
    rintro result stop ⟨rfl, rfl⟩
    exact ⟨_, ⟨rest, both.2⟩, fun ended position => Verdict.answers_prepend _⟩
  | other inner rest =>
    cases first
    have both := Nat.max_le.mp bound
    refine ⟨_, ⟨inner, both.1⟩, ?_⟩
    rintro result stop ⟨⟩
    exact ⟨_, ⟨rest, both.2⟩, fun ended position answers => by rwa [Outcome.prepend_nil]⟩
  | again inner moved rest =>
    cases first
    have both := Nat.max_le.mp bound
    refine ⟨_, ⟨inner, both.1⟩, ?_⟩
    rintro result stop ⟨rfl, rfl⟩
    simp only [moved, decide_false]
    exact ⟨_, ⟨rest, both.2⟩, fun ended position => Verdict.answers_prepend _⟩
  | once inner rest =>
    cases first
    have both := Nat.max_le.mp bound
    refine ⟨_, ⟨inner, both.1⟩, ?_⟩
    rintro result stop ⟨rfl, rfl⟩
    exact ⟨_, ⟨rest, both.2⟩, fun ended position => Verdict.answers_prepend _⟩
  | idle inner =>
    cases first
    refine ⟨_, ⟨inner, bound⟩, ?_⟩
    rintro result stop ⟨rfl, rfl⟩
    simp only [decide_true]
    exact ⟨rfl, rfl⟩
  | broken inner | missing inner | notAhead inner | stopped inner | absent inner | allowed inner =>
    cases first
    refine ⟨_, ⟨inner, bound⟩, ?_⟩
    rintro result stop ⟨⟩
    first | rfl | exact ⟨rfl, rfl⟩
  | chosen inner | present inner | ahead inner | excluded inner =>
    cases first
    refine ⟨_, ⟨inner, bound⟩, ?_⟩
    rintro result stop ⟨rfl, rfl⟩
    first | rfl | exact ⟨rfl, rfl⟩
  | interrupted same inner =>
    rw [first] at same
    cases same
    refine ⟨_, ⟨inner, bound⟩, ?_⟩
    rintro result stop ⟨⟩
    rw [Expr.after_fault]
    rfl

end

end SeedPeg
