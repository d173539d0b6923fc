import SeedPeg.Proofs.Occurrence
import SeedPeg.Proofs.Run

/-!
# Likeness

Two evaluations can do the same with different literals, names and values. A likeness says which of
these stand for each other, and which faults do. Expressions are alike if they are of one kind at
every place and have literals, names and values there that stand for each other; so are trees, whose
leaves are literals. Expressions that are alike have parts that are alike, and after results that are
alike they go on alike.
-/

namespace SeedPeg

theorem exists_of_rel_some {α β : Type} {related : α → β → Prop} {one : α} {other : Option β}
    (both : Option.Rel related (some one) other) : ∃ two, other = some two ∧ related one two := by
  cases both with | some both => exact ⟨_, rfl, both⟩

theorem eq_none_of_rel_none {α β : Type} {related : α → β → Prop} {other : Option β}
    (both : Option.Rel related none other) : other = none := by
  cases both; rfl

theorem rel_imp {α β : Type} {related other : α → β → Prop} {one : Option α} {two : Option β}
    (weaker : ∀ {a b}, related a b → other a b) (both : Option.Rel related one two) :
    Option.Rel other one two := by
  cases both with
  | none => exact .none
  | some both => exact .some (weaker both)

theorem eq_map_of_rel {α β : Type} {related : α → β → Prop} {change : α → β} {one : Option α} {two : Option β}
    (changed : ∀ {a b}, related a b → b = change a) (both : Option.Rel related one two) :
    two = one.map change := by
  cases both with
  | none => rfl
  | some both => rw [changed both]; rfl

/-- Under names that entries are alike to, entries that are related one by one have related items in the same
    place, or none. -/
theorem Declarations.locate_related {α β : Type} (related : α → β → Prop) (name name' : Value)
    {entries : List (Value × α)} {entries' : List (Value × β)}
    (both : List.Forall₂ (fun entry entry' =>
      entry'.1.equals name' = entry.1.equals name ∧ related entry.2 entry'.2) entries entries') :
    Option.Rel (fun found found' => found'.1 = found.1 ∧ related found.2 found'.2)
      (locate name entries) (locate name' entries') := by
  induction both with
  | nil => exact .none
  | cons here _ ih =>
    simp only [locate, here.1]
    split
    · exact .some ⟨rfl, here.2⟩
    · generalize locate name _ = found, locate name' _ = found' at ih
      cases ih with
      | none => exact .none
      | some both => exact .some ⟨congrArg (· + 1) both.1, both.2⟩

/-- Which literals, rule names, values in an expression's place and faults stand for each other. -/
structure Likeness where
  literals : Value → Value → Prop
  names : Value → Value → Prop
  values : Value → Value → Prop
  faults : Fault → Fault → Prop

/-- The outcome with its fault changed, if it is one. -/
def Outcome.onFault {α : Type} (change : Fault → Fault) : Outcome α → Outcome α
  | .fault cause => .fault (change cause)
  | outcome => outcome

namespace Likeness

variable (like : Likeness)

/-- Expressions that are built alike. -/
inductive Exprs : Expr → Expr → Prop where
  | terminal {literal literal'} : like.literals literal literal' →
      Exprs (.terminal literal) (.terminal literal')
  | rule {name name'} : like.names name name' → Exprs (.rule name) (.rule name')
  | nothing : Exprs (.sequence []) (.sequence [])
  | sequence {item item' rest rest'} : Exprs item item' → Exprs (.sequence rest) (.sequence rest') →
      Exprs (.sequence (item :: rest)) (.sequence (item' :: rest'))
  | never : Exprs (.choice []) (.choice [])
  | choice {alternative alternative' rest rest'} : Exprs alternative alternative' →
      Exprs (.choice rest) (.choice rest') →
      Exprs (.choice (alternative :: rest)) (.choice (alternative' :: rest'))
  | star {element element'} : Exprs element element' → Exprs (.star element) (.star element')
  | plus {element element'} : Exprs element element' → Exprs (.plus element) (.plus element')
  | optional {element element'} : Exprs element element' →
      Exprs (.optional element) (.optional element')
  | ahead {element element'} : Exprs element element' → Exprs (.ahead element) (.ahead element')
  | notAhead {element element'} : Exprs element element' →
      Exprs (.notAhead element) (.notAhead element')
  | bare : Exprs .bare .bare
  | plain {value value'} : like.values value value' → Exprs (.plain value) (.plain value')

/-- Trees of one shape, with literals that stand for each other. -/
inductive Trees : Tree → Tree → Prop where
  | leaf {literal literal'} : like.literals literal literal' → Trees (.leaf literal) (.leaf literal')
  | nil : Trees (.node []) (.node [])
  | cons {tree tree' rest rest'} : Trees tree tree' → Trees (.node rest) (.node rest') →
      Trees (.node (tree :: rest)) (.node (tree' :: rest'))
  | lookahead : Trees .lookahead .lookahead

/-- Results that are both trees or mismatches, or both faults, which stand for each other. -/
inductive Results : Result → Result → Prop where
  | done {tree tree'} : Option.Rel like.Trees tree tree' → Results (.done tree) (.done tree')
  | fault {cause cause'} : like.faults cause cause' → Results (.fault cause) (.fault cause')

/-- What follows parts that end alike. -/
inductive Afters : After → After → Prop where
  | stop {result result' back} : like.Results result result' →
      Afters (.stop result back) (.stop result' back)
  | go {next next' back trees trees'} : like.Exprs next next' →
      like.Trees (.node trees) (.node trees') → Afters (.go next back trees) (.go next' back trees')

variable {like} {e e' : Expr} {result result' : Result}

theorem Exprs.first? {part : Expr} (alike : like.Exprs e e') (first : e.first? = some part) :
    ∃ part', e'.first? = some part' ∧ like.Exprs part part' := by
  cases alike with
  | terminal | rule | nothing | never | bare | plain => cases first
  | sequence part | choice part | star part | plus part | optional part | ahead part | notAhead part =>
    cases first
    exact ⟨_, rfl, part⟩

theorem Exprs.isKept_eq (alike : like.Exprs e e') : e'.isKept = e.isKept := by
  cases alike <;> rfl

/-- Expressions that are alike do alike things after parts that end alike. -/
theorem Exprs.after (alike : like.Exprs e e') (ended : like.Results result result') (idle : Bool) :
    like.Afters (e.after result idle) (e'.after result' idle) := by
  have single {tree tree'} (trees : like.Trees tree tree') : like.Trees (.node [tree]) (.node [tree']) :=
    .cons trees .nil
  cases ended with
  | @fault cause cause' causes =>
    have stopped : like.Afters (.stop (.fault cause) false) (.stop (.fault cause') false) :=
      .stop (.fault causes)
    cases alike <;> exact stopped
  | done trees =>
    cases alike with
    | terminal | rule | nothing | never | bare | plain => exact .stop (.done trees)
    | @sequence item item' rest rest' part others =>
      cases trees with
      | none => exact .stop (.done .none)
      | some trees =>
        simp only [Expr.after, part.isKept_eq]
        refine .go others ?_
        split
        · exact single trees
        · exact .nil
    | choice part others =>
      cases trees with
      | none => exact .go others .nil
      | some trees => exact .stop (.done (.some trees))
    | star part =>
      cases trees with
      | none => exact .stop (.done (.some .nil))
      | some trees =>
        cases idle with
        | true => exact .stop (.done (.some .nil))
        | false => exact .go (.star part) (single trees)
    | plus part =>
      cases trees with
      | none => exact .stop (.done .none)
      | some trees => exact .go (.star part) (single trees)
    | optional part =>
      cases trees with
      | none => exact .stop (.done (.some .nil))
      | some trees => exact .stop (.done (.some (single trees)))
    | ahead part =>
      cases trees with
      | none => exact .stop (.done .none)
      | some trees => exact .stop (.done (.some .lookahead))
    | notAhead part =>
      cases trees with
      | none => exact .stop (.done (.some .lookahead))
      | some trees => exact .stop (.done .none)

theorem Exprs.stop {ended : Result} {idle back : Bool} (alike : like.Exprs e e')
    (results : like.Results result result') (after : e.after result idle = .stop ended back) :
    ∃ ended', e'.after result' idle = .stop ended' back ∧ like.Results ended ended' := by
  have afters := alike.after results idle
  rw [after] at afters
  generalize e'.after result' idle = follows at afters
  cases afters with | stop ends => exact ⟨_, rfl, ends⟩

theorem Exprs.go {next : Expr} {idle back : Bool} {trees : List Tree} (alike : like.Exprs e e')
    (results : like.Results result result') (after : e.after result idle = .go next back trees) :
    ∃ next' trees', e'.after result' idle = .go next' back trees' ∧ like.Exprs next next' ∧
      like.Trees (.node trees) (.node trees') := by
  have afters := alike.after results idle
  rw [after] at afters
  generalize e'.after result' idle = follows at afters
  cases afters with | go nexts before => exact ⟨_, _, rfl, nexts, before⟩

theorem Trees.append {trees trees' others others' : List Tree}
    (first : like.Trees (.node trees) (.node trees'))
    (second : like.Trees (.node others) (.node others')) :
    like.Trees (.node (trees ++ others)) (.node (trees' ++ others')) := by
  induction trees generalizing trees' with
  | nil => cases first; exact second
  | cons tree rest ih => cases first with | cons here more => exact .cons here (ih more)

theorem Results.prepend {trees trees' : List Tree} (ended : like.Results result result')
    (before : like.Trees (.node trees) (.node trees')) :
    like.Results (result.prepend trees) (result'.prepend trees') := by
  cases ended with
  | fault causes => exact .fault causes
  | done found =>
    cases found with
    | none => exact .done .none
    | some found =>
      cases found with
      | leaf same => exact .done (.some (.leaf same))
      | nil => exact .done (.some (before.append .nil))
      | cons first rest => exact .done (.some (before.append (.cons first rest)))
      | lookahead => exact .done (.some .lookahead)

/-! ## Literals that stand for themselves -/

section

variable (same : ∀ {literal literal'}, like.literals literal literal' → literal' = literal)
include same

/-- If literals stand for themselves only, so do trees. -/
theorem Trees.eq {tree tree' : Tree} (alike : like.Trees tree tree') : tree' = tree := by
  induction alike with
  | leaf alike => rw [same alike]
  | nil | lookahead => rfl
  | cons _ _ ihFirst ihRest => rw [ihFirst, Tree.node.inj ihRest]

theorem eq_of_rel_trees {tree tree' : Option Tree} (alike : Option.Rel like.Trees tree tree') :
    tree' = tree := by
  have mapped := eq_map_of_rel (fun trees => Trees.eq same trees) alike
  rwa [Option.map_id'] at mapped

/-- If moreover each fault stands for one that comes of it, results differ in that only. -/
theorem Results.eq {change : Fault → Fault}
    (changed : ∀ {cause cause'}, like.faults cause cause' → cause' = change cause)
    (alike : like.Results result result') : result' = result.onFault change := by
  cases alike with
  | done trees => rw [eq_of_rel_trees same trees]; rfl
  | fault causes => rw [changed causes]; rfl

end

end Likeness

end SeedPeg
