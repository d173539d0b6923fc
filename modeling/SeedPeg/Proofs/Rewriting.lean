import Mathlib
import SeedPeg.Matcher
import SeedPeg.Proofs.Evaluator
import SeedPeg.Proofs.Likeness

/-!
# Rewriting

Two ways of writing an expression differently that no match can tell: a lookahead is the negation of its
negation, and a choice among the alternatives of a choice can be replaced by its own alternatives
(`Expr.Rewrites`, at any place of an expression). Both sides are the same action, from every state and
whatever rules do (`Expr.Rewrites.evaluateWith_eq`), and so are rules whose definitions are rewritten
(`applyRule_rewritten`). A grammar can be rewritten in any number of places, in either direction, and
every match with it ends with the same result in the same state (`rewriting_is_exact`).
-/

namespace SeedPeg

/-- One place of an expression is rewritten. -/
inductive Expr.Rewrites : Expr → Expr → Prop where
  | lookahead {e} : Rewrites (.ahead e) (.notAhead (.notAhead e))
  | splice {before inner after} :
      Rewrites (.choice (before ++ .choice inner :: after)) (.choice (before ++ (inner ++ after)))
  | sequence {before item item' after} : Rewrites item item' →
      Rewrites (.sequence (before ++ item :: after)) (.sequence (before ++ item' :: after))
  | choice {before alternative alternative' after} : Rewrites alternative alternative' →
      Rewrites (.choice (before ++ alternative :: after)) (.choice (before ++ alternative' :: after))
  | star {element element'} : Rewrites element element' → Rewrites (.star element) (.star element')
  | plus {element element'} : Rewrites element element' → Rewrites (.plus element) (.plus element')
  | optional {element element'} : Rewrites element element' →
      Rewrites (.optional element) (.optional element')
  | ahead {element element'} : Rewrites element element' → Rewrites (.ahead element) (.ahead element')
  | notAhead {element element'} : Rewrites element element' →
      Rewrites (.notAhead element) (.notAhead element')

/-- An expression is rewritten in any number of places, one after the other, in either direction. -/
def Expr.Rewritten : Expr → Expr → Prop := Relation.EqvGen Expr.Rewrites

/-- Grammars with the same names, in the same order, for definitions that are rewritten. -/
def Grammar.Rewritten (grammar grammar' : Grammar) : Prop :=
  List.Forall₂ (fun rule rule' => rule'.1 = rule.1 ∧ rule.2.Rewritten rule'.2) grammar.entries
    grammar'.entries

/-! ## Expressions -/

section

variable {setting : Setting} {apply : Value → Action (Option Tree)} {e e' : Expr}

/-- A lookahead is the negation of its negation. -/
theorem Action.notAhead_notAhead (attempt : Action (Option Tree)) :
    notAhead (notAhead attempt) = ahead attempt := by
  funext s
  simp only [notAhead, ahead, bind_apply, position, moveTo]
  rcases attempt s with ⟨(_ | tree) | cause | _, s1⟩ <;> rfl

/-- A choice puts the cursor back before it does anything else. -/
theorem evaluateFirst_moved (alternatives : List Expr) (start : Int) (s : State) :
    Expr.evaluateFirst setting apply start alternatives (s.moved start) =
      Expr.evaluateFirst setting apply start alternatives s := by
  cases alternatives <;> rfl

/-- The later alternatives are tried if the earlier ones fail. -/
theorem evaluateFirst_append (before after : List Expr) (start : Int) (s : State) :
    Expr.evaluateFirst setting apply start (before ++ after) s =
      match Expr.evaluateFirst setting apply start before s with
      | (.done none, s1) => Expr.evaluateFirst setting apply start after s1
      | ended => ended := by
  induction before generalizing s with
  | nil => exact (evaluateFirst_moved after start s).symm
  | cons alternative rest ih =>
    rw [List.cons_append, evaluateFirst_apply, evaluateFirst_apply]
    rcases alternative.evaluateWith setting apply (s.moved start) with ⟨(_ | tree) | cause | _, s1⟩
    · exact ih s1
    · rfl
    · rfl
    · rfl

/-- The alternatives of a choice can stand in its place. -/
theorem evaluateFirst_splice (inner after : List Expr) (start : Int) (s : State) :
    Expr.evaluateFirst setting apply start (.choice inner :: after) s =
      Expr.evaluateFirst setting apply start (inner ++ after) s := by
  have nested : (Expr.choice inner).evaluateWith setting apply (s.moved start) =
      Expr.evaluateFirst setting apply start inner s := evaluateFirst_moved inner start s
  rw [evaluateFirst_append, ← nested]
  exact evaluateFirst_apply _ _ _ _

theorem evaluateFirst_congr {start : Int} {after after' : List Expr} (before : List Expr)
    (same : ∀ s, Expr.evaluateFirst setting apply start after' s =
      Expr.evaluateFirst setting apply start after s) :
    ∀ s, Expr.evaluateFirst setting apply start (before ++ after') s =
      Expr.evaluateFirst setting apply start (before ++ after) s := by
  intro s
  simp only [evaluateFirst_append, same]

theorem evaluateItems_congr {item item' : Expr} (before after : List Expr)
    (same : item'.evaluateWith setting apply = item.evaluateWith setting apply)
    (kept : item'.isKept = item.isKept) :
    Expr.evaluateItems setting apply (before ++ item' :: after) =
      Expr.evaluateItems setting apply (before ++ item :: after) := by
  induction before with
  | nil => simp only [List.nil_append, Expr.evaluateItems, same, kept]
  | cons first rest ih => simp only [List.cons_append, Expr.evaluateItems, ih]

theorem Expr.Rewrites.isKept_eq (rewrites : e.Rewrites e') : e'.isKept = e.isKept := by
  cases rewrites <;> rfl

/-- What is rewritten is the same action. -/
theorem Expr.Rewrites.evaluateWith_eq (rewrites : e.Rewrites e') :
    e'.evaluateWith setting apply = e.evaluateWith setting apply := by
  induction rewrites with
  | lookahead => exact Action.notAhead_notAhead _
  | @splice before inner after =>
    funext s
    exact evaluateFirst_congr before (fun s1 => (evaluateFirst_splice inner after s.position s1).symm) s
  | sequence rewrites ih =>
    simp only [evaluateWith, evaluateItems_congr _ _ ih rewrites.isKept_eq]
  | @choice before alternative alternative' after _ ih =>
    funext s
    exact evaluateFirst_congr before (fun s => by simp only [evaluateFirst_apply, ih]) s
  | star _ ih | plus _ ih | optional _ ih | ahead _ ih | notAhead _ ih => simp only [evaluateWith, ih]

theorem Expr.Rewritten.evaluateWith_eq (rewritten : e.Rewritten e') :
    e'.evaluateWith setting apply = e.evaluateWith setting apply := by
  induction rewritten with
  | rel _ _ rewrites => exact rewrites.evaluateWith_eq
  | refl => rfl
  | symm _ _ _ ih => exact ih.symm
  | trans _ _ _ _ _ first second => exact second.trans first

end

/-! ## Rules -/

section

variable {setting : Setting} {grammar : Grammar} {apply : Value → Action (Option Tree)}

theorem Action.consumeAll_regrammared (symbols : List Value) :
    consumeAll { setting with grammar } symbols = consumeAll setting symbols := by
  induction symbols with
  | nil => rfl
  | cons symbol rest ih =>
    simp only [consumeAll, ih]
    rfl

theorem Action.literal_regrammared (literal : Value) :
    Action.literal { setting with grammar } literal = Action.literal setting literal := by
  simp only [Action.literal, consumeAll_regrammared]

/-- Growing does not look at the grammar. -/
theorem Action.grow_regrammared {name : Value} {position id : Int} {attempt : Action (Option Tree)}
    (bound : Nat) :
    grow { setting with grammar } name position id attempt bound =
      grow setting name position id attempt bound := by
  induction bound with
  | zero => rfl
  | succ bound ih =>
    simp only [grow, ih]
    rfl

theorem Action.applyFresh_regrammared {name : Value} {position id : Int}
    {attempt : Action (Option Tree)} {bound : Nat} :
    applyFresh { setting with grammar } name position id attempt bound =
      applyFresh setting name position id attempt bound := by
  have ripens (first : Option Tree × Bool) :
      ripen { setting with grammar } name position id attempt bound first =
        ripen setting name position id attempt bound first := by
    rcases first with ⟨_ | tree, _ | _⟩
    · rfl
    · rfl
    · rfl
    · exact grow_regrammared bound
  simp only [applyFresh, ripens]
  rfl

theorem applyRule_missing {fuel : Nat} {name : Value} {cause : Fault}
    (found : setting.grammar.lookup name = .error cause) :
    applyRule setting (fuel + 1) name = Action.fail cause := by
  simp only [applyRule, found]
  rfl

theorem applyRule_found {fuel id : Nat} {name : Value} {body : Expr}
    (found : setting.grammar.lookup name = .ok (id, body)) :
    applyRule setting (fuel + 1) name = (do
      let position ← Action.position
      match ← Action.look position id with
      | some entry => Action.applyKnown setting name position id entry
      | none =>
        Action.applyFresh setting name position id
          (body.evaluateWith setting (applyRule setting fuel)) setting.loopBound) := by
  simp only [applyRule, found]
  rfl

theorem Setting.loopBound_regrammared (size : grammar.size = setting.grammar.size) :
    ({ setting with grammar } : Setting).loopBound = setting.loopBound := by
  simp only [loopBound, size]

mutual

/-- Of the grammar evaluation sees the number of its rules, and what the rules do. -/
theorem evaluateWith_regrammared (size : grammar.size = setting.grammar.size) (e : Expr) :
    e.evaluateWith { setting with grammar } apply = e.evaluateWith setting apply := by
  cases e with
  | terminal literal => exact Action.literal_regrammared literal
  | sequence items => simp only [Expr.evaluateWith, evaluateItems_regrammared size items]
  | choice alternatives => simp only [Expr.evaluateWith, evaluateFirst_regrammared size _ alternatives]
  | star element | plus element =>
    simp only [Expr.evaluateWith, evaluateWith_regrammared size element, Setting.loopBound_regrammared size]
  | optional element | ahead element | notAhead element =>
    simp only [Expr.evaluateWith, evaluateWith_regrammared size element]
  | rule | bare | plain => rfl

theorem evaluateItems_regrammared (size : grammar.size = setting.grammar.size) (items : List Expr) :
    Expr.evaluateItems { setting with grammar } apply items = Expr.evaluateItems setting apply items := by
  cases items with
  | nil => rfl
  | cons item rest =>
    simp only [Expr.evaluateItems, evaluateWith_regrammared size item, evaluateItems_regrammared size rest]

theorem evaluateFirst_regrammared (size : grammar.size = setting.grammar.size) (start : Int)
    (alternatives : List Expr) :
    Expr.evaluateFirst { setting with grammar } apply start alternatives =
      Expr.evaluateFirst setting apply start alternatives := by
  cases alternatives with
  | nil => rfl
  | cons alternative rest =>
    simp only [Expr.evaluateFirst, evaluateWith_regrammared size alternative,
      evaluateFirst_regrammared size start rest]

end

end

/-- A name that is looked up in both grammars is found in the same place, with definitions that are
    rewritten, or is missing in both. -/
theorem Grammar.Rewritten.lookup {grammar grammar' : Grammar} (rewritten : grammar.Rewritten grammar')
    (name : Value) :
    (∃ cause, grammar.lookup name = .error cause ∧ grammar'.lookup name = .error cause) ∨
      ∃ id body body', grammar.lookup name = .ok (id, body) ∧ grammar'.lookup name = .ok (id, body') ∧
        body.Rewritten body' := by
  have found := Declarations.locate_related Expr.Rewritten name name
    (rewritten.imp fun _ _ both => ⟨by rw [both.1], both.2⟩)
  simp only [Grammar.lookup, Declarations.find?]
  split
  · generalize Declarations.locate name grammar.entries = held,
      Declarations.locate name grammar'.entries = held' at found ⊢
    cases found with
    | none => exact .inl ⟨_, rfl, rfl⟩
    | @some found found' both =>
      obtain ⟨id, body⟩ := found
      obtain ⟨id', body'⟩ := found'
      obtain ⟨rfl, related⟩ := both
      exact .inr ⟨_, _, _, rfl, rfl, related⟩
  · exact .inl ⟨_, rfl, rfl⟩

section

variable {setting : Setting} {grammar : Grammar} (rewritten : setting.grammar.Rewritten grammar)
include rewritten

theorem Grammar.Rewritten.size_eq : grammar.size = setting.grammar.size :=
  rewritten.length_eq.symm

/-- Rules that are rewritten do the same. -/
theorem applyRule_rewritten (fuel : Nat) :
    applyRule { setting with grammar } fuel = applyRule setting fuel := by
  induction fuel with
  | zero => rfl
  | succ fuel ih =>
    have bound := Setting.loopBound_regrammared rewritten.size_eq
    funext name
    rcases rewritten.lookup name with ⟨cause, found, found'⟩ | ⟨id, body, body', found, found', bodies⟩
    · rw [applyRule_missing found, applyRule_missing found']
    · have same : body'.evaluateWith { setting with grammar } (applyRule { setting with grammar } fuel) =
          body.evaluateWith setting (applyRule setting fuel) := by
        rw [evaluateWith_regrammared rewritten.size_eq, ih, bodies.evaluateWith_eq]
      rw [applyRule_found found, applyRule_found found', same, bound]
      simp only [Action.applyFresh_regrammared]
      rfl

theorem Expr.evaluate_rewritten (e : Expr) : e.evaluate { setting with grammar } = e.evaluate setting := by
  have bound : ({ setting with grammar } : Setting).ruleBound = setting.ruleBound := by
    simp only [Setting.ruleBound, rewritten.size_eq]
  rw [evaluate, evaluate, bound, applyRule_rewritten rewritten, evaluateWith_regrammared rewritten.size_eq]

end

/-- A match with a grammar that is rewritten, in any number of places, ends with the same tree, mismatch or
    fault; and it leaves the same state: the cursor, the depth, the memo table and the trace. -/
theorem rewriting_is_exact {grammar grammar' : Grammar} (rewritten : grammar.Rewritten grammar')
    (start : Value) (options : Options) (input : Input) :
    Matcher.run { grammar := grammar', start, options } input =
      Matcher.run { grammar, start, options } input := by
  have same := @Expr.evaluate_rewritten { input, grammar, options } _ rewritten (.rule start)
  simp only [Matcher.run, Matcher.whole, Matcher.setting, Option.getD_none, same]
  rfl

/-- A sum of ones, where a one is looked at before it is read. -/
def spied : Grammar where
  entries :=
    [(.str "start", .choice [.sequence [.rule (.str "start"), .terminal (.str "+"), .rule (.str "one")],
      .choice [.rule (.str "one"), .choice []]]),
     (.str "one", .sequence [.ahead (.terminal (.str "1")), .terminal (.str "1")])]

/-- The grammar with its choices in one and its lookahead negated twice. -/
def spiedOtherwise : Grammar where
  entries :=
    [(.str "start", .choice [.sequence [.rule (.str "start"), .terminal (.str "+"), .rule (.str "one")],
      .rule (.str "one")]),
     (.str "one", .sequence [.notAhead (.notAhead (.terminal (.str "1"))), .terminal (.str "1")])]

theorem spied_otherwise :
    spied.Rewritten spiedOtherwise ∧
      let run := Matcher.run { grammar := spiedOtherwise, options := { debug := true } }
        (.text #['1', '+', '1'])
      run.1 = .done (some (.node [.node [.leaf (.str "1")], .leaf (.str "+"), .node [.leaf (.str "1")]])) ∧
        run.2.trace.size = 8 := by
  have one : Expr.Rewritten (.sequence [.ahead (.terminal (.str "1")), .terminal (.str "1")])
      (.sequence [.notAhead (.notAhead (.terminal (.str "1"))), .terminal (.str "1")]) :=
    .rel _ _ (@Expr.Rewrites.sequence [] _ _ _ .lookahead)
  have sum : Expr.Rewritten
      (.choice [.sequence [.rule (.str "start"), .terminal (.str "+"), .rule (.str "one")],
        .choice [.rule (.str "one"), .choice []]])
      (.choice [.sequence [.rule (.str "start"), .terminal (.str "+"), .rule (.str "one")],
        .rule (.str "one")]) :=
    .trans _ _ _ (.rel _ _ (@Expr.Rewrites.splice [_] _ [])) (.rel _ _ (@Expr.Rewrites.splice [_, _] [] []))
  have rewritten : spied.Rewritten spiedOtherwise := .cons ⟨rfl, sum⟩ (.cons ⟨rfl, one⟩ .nil)
  have result : (Matcher.run { grammar := spied, options := { debug := true } } (.text #['1', '+', '1'])).1 =
      .done (some (.node [.node [.leaf (.str "1")], .leaf (.str "+"), .node [.leaf (.str "1")]])) := by cbv
  have told : (Matcher.run { grammar := spied, options := { debug := true } }
      (.text #['1', '+', '1'])).2.trace.size = 8 := by cbv
  have same := rewriting_is_exact rewritten defaultStart { debug := true } (.text #['1', '+', '1'])
  exact ⟨rewritten, by rw [same, result], by rw [same, told]⟩

end SeedPeg
