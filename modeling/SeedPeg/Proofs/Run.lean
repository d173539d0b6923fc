import Mathlib.Data.Bool.Basic
import SeedPeg.Proofs.Site

/-!
# Runs

What evaluation does, without bounds. An expression with parts evaluates its first part
(`Expr.first?`); what comes after depends on how that ends (`Expr.after`): the expression ends, or
goes on as another expression whose trees follow those that are there. A rule application at a site
of which nothing is known is fresh, and a fresh application can lead to growth. `Runs` is the
relation between the start and the end of these tasks. It is deterministic, and it is what the
evaluator computes (`SeedPeg.Proofs.Evaluator`).
-/

namespace SeedPeg

/-- How the evaluation of an expression ends. -/
abbrev Result := Outcome (Option Tree)

/-- The result in which some trees stand before those of the list that is there. -/
def Outcome.prepend (trees : List Tree) : Result → Result
  | .done (some (.node others)) => .done (some (.node (trees ++ others)))
  | result => result

theorem Outcome.prepend_nil (result : Result) : result.prepend [] = result := by
  rcases result with (_ | ⟨_ | _ | _⟩) | _ | _ <;> rfl

/-- The state with its cursor put back to where it was, if it has to be. -/
def State.restored (s : State) (back : Bool) (position : Int) : State :=
  if back then s.moved position else s

@[simp] theorem State.restored_true (s : State) (position : Int) :
    s.restored true position = s.moved position := rfl

@[simp] theorem State.restored_false (s : State) (position : Int) : s.restored false position = s := rfl

/-! ## Expressions with parts -/

/-- The part that an expression evaluates first. -/
def Expr.first? : Expr → Option Expr
  | .sequence (item :: _) => some item
  | .choice (alternative :: _) => some alternative
  | .star element | .plus element | .optional element | .ahead element | .notAhead element =>
    some element
  | _ => none

/-- What follows the end of a part. -/
inductive After where
  /-- The expression ends with a result, with the cursor put back or not. -/
  | stop (result : Result) (back : Bool)
  /-- The expression goes on as another one, the trees of which follow some that are there. -/
  | go (next : Expr) (back : Bool) (trees : List Tree)

/-- What an expression does after its first part has ended with a result, idly if the cursor did
    not move. A fault ends every expression. -/
def Expr.after : Expr → Result → Bool → After
  | .sequence (item :: rest), .done (some tree), _ =>
    .go (.sequence rest) false (if item.isKept then [tree] else [])
  | .choice (_ :: rest), .done none, _ => .go (.choice rest) true []
  | .star element, .done (some tree), false => .go (.star element) false [tree]
  | .star _, .done _, _ => .stop (.done (some (.node []))) true
  | .plus element, .done (some tree), _ => .go (.star element) false [tree]
  | .plus _, .done none, _ => .stop (.done none) true
  | .optional _, .done (some tree), _ => .stop (.done (some (.node [tree]))) false
  | .optional _, .done none, _ => .stop (.done (some (.node []))) true
  | .ahead _, .done tree, _ => .stop (.done (if tree.isSome then some .lookahead else none)) true
  | .notAhead _, .done tree, _ => .stop (.done (if tree.isSome then none else some .lookahead)) true
  | _, result, _ => .stop result false

/-! ## Rule applications -/

/-- The fault of one more rule application, if there is one. -/
def Setting.refusal (setting : Setting) (name : Value) (s : State) : Option Fault :=
  match setting.options.limitReached s.depth with
  | .ok false => none
  | .ok true => some (.tooDeep setting.options.maxDepth name s.position)
  | .error cause => some cause

/-- The state in which the definition of a rule is evaluated for the first time. -/
def State.opened (s : State) (setting : Setting) (name : Value) (id : Nat) : State :=
  { s.told setting (.parsing name s.position) with depth := s.depth + 1 }.put ⟨id, s.position⟩
    (.marker false)

/-- The state after a rule application has ended with a result. -/
def State.closed (s : State) (setting : Setting) (name : Value) (site : Site)
    (tree : Option Tree) : State :=
  let lower := { s with depth := s.depth - 1 }
  let ended := if tree.isSome then lower.told setting (.matched name site.position s.position)
    else (lower.moved site.position).told setting (.failed name site.position)
  if setting.options.memoize then ended else ended.drop site

/-- The state after a rule has come back to the site of its marker. -/
def State.flagged (s : State) (setting : Setting) (name : Value) (site : Site) (detected : Bool) :
    State :=
  if detected then s
  else (s.told setting (.leftRecursion name site.position)).put site (.marker true)

/-- What can be under way in a match. -/
inductive Task where
  /-- An expression is evaluated at the cursor. -/
  | expr (e : Expr)
  /-- A rule is applied at the cursor, where nothing is known of it. -/
  | fresh (name : Value) (id : Nat) (body : Expr)
  /-- The seed that a rule has at a position is grown. -/
  | growth (name : Value) (id : Nat) (body : Expr) (position : Int)

/-- A task, begun in a state, ends with a result in another state. -/
inductive Runs (setting : Setting) : Task → State → Result → State → Prop where
  | terminal {literal s result s'} :
      Action.literal setting literal s = (result, s') →
      Runs setting (.expr (.terminal literal)) s result s'
  | bare {s} : Runs setting (.expr .bare) s (.fault .abstract) s
  | plain {value s} :
      Runs setting (.expr (.plain value)) s (.fault (.noExpression value.kindName .evaluate)) s
  | nothing {s} : Runs setting (.expr (.sequence [])) s (.done (some (.node []))) s
  | never {s} : Runs setting (.expr (.choice [])) s (.done none) s
  | stop {e part s result s' ended back} :
      e.first? = some part → Runs setting (.expr part) s result s' →
      e.after result (s'.position = s.position) = .stop ended back →
      Runs setting (.expr e) s ended (s'.restored back s.position)
  | go {e part s result s' next back trees ended s''} :
      e.first? = some part → Runs setting (.expr part) s result s' →
      e.after result (s'.position = s.position) = .go next back trees →
      Runs setting (.expr next) (s'.restored back s.position) ended s'' →
      Runs setting (.expr e) s (ended.prepend trees) s''
  | unknown {name cause s} :
      setting.grammar.lookup name = .error cause → Runs setting (.expr (.rule name)) s (.fault cause) s
  | marked {name id body detected s} :
      setting.grammar.lookup name = .ok (id, body) →
      s.known ⟨id, s.position⟩ = some (.marker detected) →
      Runs setting (.expr (.rule name)) s (.done none)
        (s.flagged setting name ⟨id, s.position⟩ detected)
  | remembered {name id body tree next s} :
      setting.grammar.lookup name = .ok (id, body) →
      s.known ⟨id, s.position⟩ = some (.resolved tree next) →
      Runs setting (.expr (.rule name)) s (.done tree) (s.restored tree.isSome next)
  | applied {name id body s result s'} :
      setting.grammar.lookup name = .ok (id, body) → s.known ⟨id, s.position⟩ = none →
      Runs setting (.fresh name id body) s result s' →
      Runs setting (.expr (.rule name)) s result s'
  | refused {name id body cause s} :
      setting.refusal name s = some cause → Runs setting (.fresh name id body) s (.fault cause) s
  | broken {name id body cause s s'} :
      setting.refusal name s = none →
      Runs setting (.expr body) (s.opened setting name id) (.fault cause) s' →
      Runs setting (.fresh name id body) s (.fault cause) s'
  | settled {name id body tree detected s s'} :
      setting.refusal name s = none →
      Runs setting (.expr body) (s.opened setting name id) (.done tree) s' →
      s'.known ⟨id, s.position⟩ = some (.marker detected) → tree = none ∨ detected = false →
      Runs setting (.fresh name id body) s (.done tree)
        ((s'.put ⟨id, s.position⟩ (.ofResult s.position tree s'.position)).closed setting name
          ⟨id, s.position⟩ tree)
  | ripened {name id body seed tree s s' s''} :
      setting.refusal name s = none →
      Runs setting (.expr body) (s.opened setting name id) (.done (some seed)) s' →
      s'.known ⟨id, s.position⟩ = some (.marker true) →
      Runs setting (.growth name id body s.position)
        (s'.put ⟨id, s.position⟩ (.ofResult s.position (some seed) s'.position)) (.done tree) s'' →
      Runs setting (.fresh name id body) s (.done tree) (s''.closed setting name ⟨id, s.position⟩ tree)
  | withered {name id body seed cause s s' s''} :
      setting.refusal name s = none →
      Runs setting (.expr body) (s.opened setting name id) (.done (some seed)) s' →
      s'.known ⟨id, s.position⟩ = some (.marker true) →
      Runs setting (.growth name id body s.position)
        (s'.put ⟨id, s.position⟩ (.ofResult s.position (some seed) s'.position)) (.fault cause) s'' →
      Runs setting (.fresh name id body) s (.fault cause) s''
  | grown {name id body position seed reached tree s s'} :
      s.known ⟨id, position⟩ = some (.resolved seed reached) →
      Runs setting (.expr body) (s.moved position) (.done tree) s' →
      tree = none ∨ s'.position ≤ reached →
      Runs setting (.growth name id body position) s (.done seed) (s'.moved reached)
  | growing {name id body position seed reached tree s s' ended s''} :
      s.known ⟨id, position⟩ = some (.resolved seed reached) →
      Runs setting (.expr body) (s.moved position) (.done (some tree)) s' →
      reached < s'.position →
      Runs setting (.growth name id body position)
        ((s'.told setting (.grew name position s'.position)).put ⟨id, position⟩
          (.ofResult position (some tree) s'.position)) ended s'' →
      Runs setting (.growth name id body position) s ended s''
  | stunted {name id body position seed reached cause s s'} :
      s.known ⟨id, position⟩ = some (.resolved seed reached) →
      Runs setting (.expr body) (s.moved position) (.fault cause) s' →
      Runs setting (.growth name id body position) s (.fault cause) s'

/-- A task has one end. The first step of a run is settled by the expression, the grammar and what
    is known of the site; by induction its parts have one end each, and these settle the rest. -/
theorem Runs.deterministic {setting : Setting} {task : Task} {s s1 s2 : State} {first second : Result}
    (one : Runs setting task s first s1) (other : Runs setting task s second s2) :
    first = second ∧ s1 = s2 := by
  induction one generalizing second s2 with
  | stop part _ after ih => cases other <;> grind [Expr.first?]
  | go part _ after _ ihPart ihNext => cases other <;> grind [Expr.first?]
  | _ => cases other <;> grind [Expr.first?]

end SeedPeg
