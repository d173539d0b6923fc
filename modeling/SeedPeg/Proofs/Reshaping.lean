import SeedPeg.Proofs.Correspondence
import SeedPeg.Proofs.Equality
import SeedPeg.Proofs.References
import SeedPeg.Proofs.Renaming
import SeedPeg.Proofs.Termination

/-!
# Reshaping

The names and the order of rules do not matter, nor do rules that cannot be reached from the start
(`names_are_only_names`). A grammar is reshaped if its rules are renamed, put in another order, or added
and removed out of reach (`Grammar.Reshapes`). What all of this keeps is that a reachable name is
declared if its renaming is, with the renamed definition (`Grammar.Mirrors`); then the ids of reachable
rules stand for each other one to one, and the settings correspond.
-/

namespace SeedPeg

variable {f g : String → String}

/-! ## Reshaped grammars -/

namespace Grammar

variable (grammar : Grammar) (start : Value)

/-- The names that are reached from a start: those that are applied in definitions of such names. -/
inductive Reaches : Value → Prop where
  | start : Reaches start
  | step {name body next} : Reaches name → (name, body) ∈ grammar.entries → body.Applies next →
      Reaches next

/-- The strings that are in use as names: declared, applied in a definition, or started from. -/
def Words : Set String :=
  { s | .str s = start ∨ ∃ entry ∈ grammar.entries, .str s = entry.1 ∨ entry.2.Applies (.str s) }

/-- Any combination of putting rules in another order, renaming them, and adding and removing rules that
    are not reached from the start. -/
inductive Reshapes : (String → String) → Grammar → Value → Grammar → Value → Prop where
  | reordered {grammar grammar' start} : grammar'.entries.Perm grammar.entries →
      Reshapes id grammar start grammar' start
  | renamed {grammar grammar' : Grammar} {start f} : (grammar.Words start).InjOn f →
      grammar'.entries = grammar.entries.map (fun entry => (entry.1.renamed f, entry.2.renamed f)) →
      Reshapes f grammar start grammar' (start.renamed f)
  | added {grammar grammar' : Grammar} {start s body before after} : ¬ grammar.Reaches start (.str s) →
      grammar.entries = before ++ after → grammar'.entries = before ++ (.str s, body) :: after →
      Reshapes id grammar start grammar' start
  | removed {grammar grammar' : Grammar} {start s body before after} : ¬ grammar.Reaches start (.str s) →
      grammar.entries = before ++ (.str s, body) :: after → grammar'.entries = before ++ after →
      Reshapes id grammar start grammar' start
  | trans {f g grammar grammar' grammar'' start start' start''} :
      Reshapes f grammar start grammar' start' → Reshapes g grammar' start' grammar'' start'' →
      Reshapes (g ∘ f) grammar start grammar'' start''

variable {grammar start} in
/-- Names among which the start is and those that their definitions apply are all that is reached. -/
theorem Reaches.mem {names : List Value} {name : Value} (reached : grammar.Reaches start name)
    (begins : start ∈ names)
    (closed : ∀ entry ∈ grammar.entries, entry.1 ∈ names → ∀ next, entry.2.Applies next → next ∈ names) :
    name ∈ names := by
  induction reached with
  | start => exact begins
  | step _ declared inside ih => exact closed _ declared ih _ inside

/-- What reshaping a grammar keeps of the names that are reached. -/
structure Mirrors (f : String → String) (grammar : Grammar) (start : Value) (grammar' : Grammar)
    (start' : Value) : Prop where
  strings : grammar'.DeclaresStrings
  begins : start' = start.renamed f
  apart : ∀ {name other}, grammar.Reaches start name → grammar.Reaches start other →
    name.renamed f = other.renamed f → name = other
  declared : ∀ {name body}, grammar.Reaches start name → (name, body) ∈ grammar.entries →
    (name.renamed f, body.renamed f) ∈ grammar'.entries
  undeclared : ∀ {name body'}, grammar.Reaches start name → (name.renamed f, body') ∈ grammar'.entries →
    ∃ body, (name, body) ∈ grammar.entries

variable {grammar start} {grammar' grammar'' : Grammar} {start' start'' name : Value}

theorem mem_words {s : String} (reached : grammar.Reaches start (.str s)) : s ∈ grammar.Words start := by
  cases reached with
  | start => exact .inl rfl
  | step _ declared inside => exact .inr ⟨_, declared, .inr inside⟩

/-- Grammars that declare the same for all names that are reached mirror each other. -/
theorem Mirrors.ofSame (strings : grammar'.DeclaresStrings)
    (same : ∀ {name body}, grammar.Reaches start name →
      ((name, body) ∈ grammar'.entries ↔ (name, body) ∈ grammar.entries)) :
    Mirrors id grammar start grammar' start where
  strings := strings
  begins := by simp
  apart _ _ same := by simpa using same
  declared reached held := by simpa [Expr.renamed_id] using (same reached).mpr held
  undeclared reached held := ⟨_, (same reached).mp (by simpa using held)⟩

theorem Mirrors.reaches (mirrors : Mirrors f grammar start grammar' start')
    (reached : grammar.Reaches start name) : grammar'.Reaches start' (name.renamed f) := by
  induction reached with
  | start => exact mirrors.begins ▸ .start
  | step reached declared inside ih => exact ih.step (mirrors.declared reached declared) inside.renamed

theorem Mirrors.trans (first : Mirrors f grammar start grammar' start')
    (second : Mirrors g grammar' start' grammar'' start'') :
    Mirrors (g ∘ f) grammar start grammar'' start'' where
  strings := second.strings
  begins := by rw [second.begins, first.begins, Value.renamed_renamed]
  apart reached reached' same := by
    simp only [← Value.renamed_renamed] at same
    exact first.apart reached reached' (second.apart (first.reaches reached) (first.reaches reached') same)
  declared reached held := by
    rw [← Value.renamed_renamed, ← Expr.renamed_renamed]
    exact second.declared (first.reaches reached) (first.declared reached held)
  undeclared reached held := by
    rw [← Value.renamed_renamed] at held
    obtain ⟨_, held'⟩ := second.undeclared (first.reaches reached) held
    exact first.undeclared reached held'

/-- Reshaping keeps what is reached, in one step of any kind and so in all of them. -/
theorem Reshapes.mirrors (reshapes : Reshapes f grammar start grammar' start')
    (strings : grammar.DeclaresStrings) : Mirrors f grammar start grammar' start' := by
  -- an entry more for a name that is not reached makes no difference to names that are
  have amid {before after : List (Value × Expr)} {unreached name : Value} {more body : Expr}
      (apart : name ≠ unreached) :
      (name, body) ∈ before ++ (unreached, more) :: after ↔ (name, body) ∈ before ++ after := by
    simp [apart]
  induction reshapes with
  | reordered same =>
    exact .ofSame (fun entry held => strings entry (same.mem_iff.mp held)) fun _ => same.mem_iff
  | @renamed grammar grammar' start f apart entries =>
    have known {name : Value} (reached : grammar.Reaches start name) (s : String) (here : name = .str s) :
        s ∈ grammar.Words start := mem_words (here ▸ reached)
    refine ⟨fun entry held => ?_, rfl, fun reached reached' => ?_, fun reached held => ?_,
      fun reached held => ?_⟩
    · rw [entries] at held
      obtain ⟨old, member, rfl⟩ := List.mem_map.mp held
      obtain ⟨s, here⟩ := strings old member
      exact ⟨f s, by rw [here]; rfl⟩
    · exact Value.eq_of_renamed apart (known reached) (known reached')
    · rw [entries]
      exact List.mem_map.mpr ⟨_, held, rfl⟩
    · rw [entries] at held
      obtain ⟨old, member, same⟩ := List.mem_map.mp held
      have names := Value.eq_of_renamed apart (fun s here => .inr ⟨old, member, .inl here.symm⟩)
        (known reached) (Prod.mk.inj same).1
      exact ⟨old.2, names ▸ member⟩
  | added unreached entries entries' =>
    refine .ofSame (fun entry held => ?_) fun reached => ?_
    · rw [entries', List.mem_append, List.mem_cons, or_left_comm, ← List.mem_append, ← entries] at held
      exact held.elim (fun here => ⟨_, by rw [here]⟩) (strings entry)
    · rw [entries, entries']
      exact amid fun here : _ = Value.str _ => unreached (here ▸ reached)
  | removed unreached entries entries' =>
    refine .ofSame (fun entry held => strings entry ?_) fun reached => ?_
    · rw [entries, List.mem_append, List.mem_cons, or_left_comm, ← List.mem_append, ← entries']
      exact .inr held
    · rw [entries, entries']
      exact (amid fun here : _ = Value.str _ => unreached (here ▸ reached)).symm
  | trans _ _ ihFirst ihSecond =>
    have first := ihFirst strings
    exact first.trans (ihSecond first.strings)

end Grammar

/-! ## Ids of reachable rules -/

theorem Value.str_equals {s : String} {value : Value} :
    (Value.str s).equals value = true ↔ value = .str s :=
  Iff.trans ⟨equals_symm, equals_symm⟩ equals_str

/-- Among different strings, what is found under a name is in the place where the name is. -/
theorem Declarations.locate_eq_some {α : Type} {entries : List (Value × α)} {name : Value} {id : Nat}
    {item : α} (distinct : NamesDistinct entries) (strings : ∀ entry ∈ entries, ∃ s, entry.1 = .str s) :
    locate name entries = some (id, item) ↔ entries[id]? = some (name, item) := by
  induction entries generalizing id with
  | nil => simp [locate]
  | cons first rest ih =>
    obtain ⟨other, held⟩ := first
    obtain ⟨⟨s, rfl⟩, others⟩ := List.forall_mem_cons.mp strings
    obtain ⟨apart, distinct⟩ := List.pairwise_cons.mp distinct
    rw [locate]
    by_cases same : name = .str s
    · rw [if_pos (Value.str_equals.mpr same), same]
      cases id with
      | zero => simp
      | succ id =>
        have absent : rest[id]? ≠ some (.str s, item) := fun found => by
          have different := apart _ (List.mem_of_getElem? found)
          rw [Value.str_equals.mpr rfl] at different
          cases different
        simp [absent]
    · rw [if_neg fun equal => same (Value.str_equals.mp equal)]
      cases id with
      | zero => simp [Ne.symm same]
      | succ id => simp [← ih distinct others]

namespace Grammar

section

variable {grammar grammar' : Grammar} {start start' name : Value} {id : Nat} {body : Expr}

theorem find?_eq_some (strings : grammar.DeclaresStrings) :
    grammar.find? name = some (id, body) ↔ grammar.entries[id]? = some (name, body) :=
  Declarations.locate_eq_some grammar.distinct strings

variable (mirrors : Mirrors f grammar start grammar' start') (strings : grammar.DeclaresStrings)
  (reached : grammar.Reaches start name)
include mirrors strings reached

theorem Mirrors.found (found : grammar.find? name = some (id, body)) :
    ∃ id', grammar'.find? (name.renamed f) = some (id', body.renamed f) := by
  have held := List.mem_of_getElem? ((find?_eq_some strings).mp found)
  obtain ⟨id', here⟩ := List.getElem?_of_mem (mirrors.declared reached held)
  exact ⟨id', (find?_eq_some mirrors.strings).mpr here⟩

theorem Mirrors.missing (missing : grammar.find? name = none) :
    grammar'.find? (name.renamed f) = none := by
  by_contra found
  obtain ⟨⟨id', body'⟩, found⟩ := Option.ne_none_iff_exists'.mp found
  have held := List.mem_of_getElem? ((find?_eq_some mirrors.strings).mp found)
  obtain ⟨body, held⟩ := mirrors.undeclared reached held
  obtain ⟨id, here⟩ := List.getElem?_of_mem held
  rw [(find?_eq_some strings).mpr here] at missing
  cases missing

end

variable (f) (grammar : Grammar) (start : Value) (grammar' : Grammar)

/-- The ids under which a name that is reached in the one grammar, and its renaming in the other, are
    declared. -/
def SameRule (id id' : Nat) : Prop :=
  ∃ name body body', grammar.Reaches start name ∧ grammar.find? name = some (id, body) ∧
    grammar'.find? (name.renamed f) = some (id', body')

variable {f grammar start grammar'} {start' : Value}

/-- Reachable rules stand for each other one to one. -/
theorem Mirrors.oneToOne (mirrors : Mirrors f grammar start grammar' start')
    (strings : grammar.DeclaresStrings) {id id' other other' : Nat}
    (same : grammar.SameRule f start grammar' id id')
    (others : grammar.SameRule f start grammar' other other') : id = other ↔ id' = other' := by
  obtain ⟨name, body, body', reached, found, found'⟩ := same
  obtain ⟨name', _, _, reached', located, located'⟩ := others
  constructor
  · rintro rfl
    have here := (find?_eq_some strings).mp found
    have there := (find?_eq_some strings).mp located
    obtain rfl : name = name' := by
      simpa [here] using congrArg (Option.map Prod.fst) (here.symm.trans there)
    exact (Prod.mk.inj (Option.some.inj (found'.symm.trans located'))).1
  · rintro rfl
    have here := (find?_eq_some mirrors.strings).mp found'
    have there := (find?_eq_some mirrors.strings).mp located'
    obtain rfl : name = name' := mirrors.apart reached reached' <| by
      simpa [here] using congrArg (Option.map Prod.fst) (here.symm.trans there)
    exact (Prod.mk.inj (Option.some.inj (found.symm.trans located))).1

end Grammar

/-! ## Matches with reshaped grammars -/

section

variable {grammar grammar' : Grammar} {start start' : Value} (strings : grammar.DeclaresStrings)

/-- Grammars that mirror each other correspond, with names that are reached and their renamings. -/
def Grammar.Mirrors.correspondence (mirrors : Mirrors f grammar start grammar' start') (options : Options)
    (input : Input) :
    Correspondence { input, grammar, options } { input, grammar := grammar', options } where
  literals literal literal' := literal' = literal
  names name name' := grammar.Reaches start name ∧ name' = name.renamed f
  values value value' := value' = value
  faults cause cause' := cause' = cause.renamed f
  offset := 0
  ids := grammar.SameRule f start grammar'
  size := rfl
  memoize := rfl
  maxDepth := rfl
  oneToOne := mirrors.oneToOne strings
  literal {value value'} same := by
    rw [same]
    cases value.symbols? with
    | none => exact .none
    | some symbols => exact .some ⟨rfl, fun _ => rfl⟩
  lookup {name name'} names := by
    obtain ⟨reached, rfl⟩ := names
    simp only [lookup, Value.isKey_renamed]
    split
    · cases found : grammar.find? name with
      | none =>
        rw [mirrors.missing strings reached found]
        exact .missing rfl
      | some rule =>
        obtain ⟨id, body⟩ := rule
        obtain ⟨id', found'⟩ := mirrors.found strings reached found
        rw [found']
        have held := List.mem_of_getElem? ((find?_eq_some strings).mp found)
        exact .rule ⟨name, _, _, reached, found, found'⟩
          (.renamed (fun _ => rfl) (fun _ => rfl) fun next inside => ⟨reached.step held inside, rfl⟩)
    · exact .missing rfl
  unmade same := by rw [same]; rfl
  improper same := by rw [same]; rfl
  tooDeep names := by rw [names.2]; simp [Fault.renamed]
  incomparable := rfl
  abstract := rfl

end

/-- Rows with the same entries, under ids that stand for each other, and no others. -/
structure Row.Renumbered (ids : Nat → Nat → Prop) (row row' : Row Entry) : Prop where
  entries : ∀ {id id'}, ids id id' → row'.get? id' = row.get? id
  forth : ∀ {key}, row.get? key ≠ none → ∃ id id', ids id id' ∧ key = id
  back : ∀ {key}, row'.get? key ≠ none → ∃ id id', ids id id' ∧ key = id'

/-- Tables with the same rows but for the ids. -/
def MemoTable.Renumbered (ids : Nat → Nat → Prop) (table table' : MemoTable) : Prop :=
  ∀ place : Nat, Option.Rel (Option.Rel (Row.Renumbered ids)) table.rows[place]? table'.rows[place]?

theorem Entry.shifted_zero (entry : Entry) : entry.shifted 0 = entry := by
  cases entry <;> simp [shifted]

section

variable {first second : Setting} {c : Correspondence first second}
  (same : ∀ {literal literal'}, c.literals literal literal' → literal' = literal) (level : c.offset = 0)
include same level

theorem Correspondence.Rows.renumbered {row row' : Row Entry} (rows : c.Rows row row') :
    row.Renumbered c.ids row' where
  entries related := by
    have mapped := eq_map_of_rel (fun alike => alike.eq same) (rows.entries related)
    rwa [level, funext Entry.shifted_zero, Option.map_id'] at mapped
  forth := rows.forth
  back := rows.back

theorem Correspondence.Tables.renumbered {table table' : MemoTable} (tables : c.Tables table table') :
    table.Renumbered c.ids table' := by
  intro place
  have rows := tables.rows place
  rw [level, Nat.add_zero] at rows
  exact rel_imp (fun rows => rel_imp (fun row => row.renumbered same level) rows) rows

end

/-- Matching with a grammar of strings and with a reshaped one ends with the same tree or mismatch, or
    with the same fault, where the name that it gives is renamed; with the same cursor and depth; and
    with tables that are the same but for the ids of reachable rules. These stand for each other one to
    one: each is declared in the other grammar too, with the renamed definition. -/
theorem names_are_only_names {grammar grammar' : Grammar} {start start' : Value}
    (strings : grammar.DeclaresStrings) (reshapes : grammar.Reshapes f start grammar' start')
    (options : Options) (input : Input) :
    let ids := grammar.SameRule f start grammar'
    let run := Matcher.run { grammar, start, options } input
    let run' := Matcher.run { grammar := grammar', start := start', options } input
    run'.1 = run.1.onFault (.renamed f) ∧ run'.2.position = run.2.position ∧
      run'.2.depth = run.2.depth ∧ run.2.memo.Renumbered ids run'.2.memo ∧
      (∀ {id id' other other'}, ids id id' → ids other other' → (id = other ↔ id' = other')) ∧
      ∀ {name id body}, grammar.Reaches start name → grammar.find? name = some (id, body) →
        ∃ id', ids id id' ∧ grammar'.find? (name.renamed f) = some (id', body.renamed f) := by
  intro ids run run'
  have mirrors := reshapes.mirrors strings
  let c := mirrors.correspondence strings options input
  have begun : c.States (.fresh input.size) (.fresh input.size) := .fresh c
  obtain ⟨results, states⟩ := Correspondence.whole (c := c) ⟨.start, mirrors.begins⟩ .fresh begun
  refine ⟨results.eq id id, states.position.trans (Int.add_zero _), states.depth,
    states.memo.renumbered id rfl, mirrors.oneToOne strings, fun reached found => ?_⟩
  obtain ⟨id', found'⟩ := mirrors.found strings reached found
  exact ⟨id', ⟨_, _, _, reached, found, found'⟩, found'⟩

/-- A sum of what another rule matches. -/
def tally (start one : String) : Expr :=
  .choice [.sequence [.rule (.str start), .terminal (.str "+"), .rule (.str one)], .rule (.str one)]

/-- Sums of ones, and a rule that is not reached. -/
def tallies : Grammar where
  entries :=
    [(.str "start", tally "start" "one"), (.str "spare", .rule (.str "start")),
      (.str "one", .terminal (.str "1"))]

/-- Sums of ones under other names, and a rule that is not reached, which comes first. -/
def talliesRetold : Grammar where
  entries :=
    [(.str "more", .rule (.str "a one")), (.str "a one", .terminal (.str "1")),
      (.str "a start", tally "a start" "a one")]

theorem tallies_reshapes :
    tallies.Reshapes ("a " ++ ·) (.str "start") talliesRetold (.str "a start") := by
  have removed : tallies.Reshapes id (.str "start")
      { entries := [(.str "start", tally "start" "one"), (.str "one", .terminal (.str "1"))] }
      (.str "start") := by
    refine .removed (fun reached => ?_) (show tallies.entries = [_] ++ _ :: [_] from rfl) rfl
    have member := @Grammar.Reaches.mem _ _ [.str "start", .str "one"] _ reached (by simp)
      (by simp [tallies, tally])
    simp at member
  have renamed : Grammar.Reshapes ("a " ++ ·)
      { entries := [(.str "start", tally "start" "one"), (.str "one", .terminal (.str "1"))] }
      (.str "start")
      { entries := [(.str "a start", tally "a start" "a one"), (.str "a one", .terminal (.str "1"))] }
      (.str "a start") :=
    .renamed (Function.Injective.injOn fun s t same => by simpa using same) rfl
  have reordered : Grammar.Reshapes id
      { entries := [(.str "a start", tally "a start" "a one"), (.str "a one", .terminal (.str "1"))] }
      (.str "a start")
      { entries := [(.str "a one", .terminal (.str "1")), (.str "a start", tally "a start" "a one")] }
      (.str "a start") :=
    .reordered (List.Perm.swap ..)
  have added : Grammar.Reshapes id
      { entries := [(.str "a one", .terminal (.str "1")), (.str "a start", tally "a start" "a one")] }
      (.str "a start") talliesRetold (.str "a start") := by
    refine .added (fun reached => ?_) (show _ = [] ++ _ from rfl) rfl
    have member := @Grammar.Reaches.mem _ _ [.str "a start", .str "a one"] _ reached (by simp)
      (by simp [tally])
    simp at member
  exact removed.trans (renamed.trans (reordered.trans added))

theorem tallies_retold :
    tallies.DeclaresStrings ∧ tallies.Reshapes ("a " ++ ·) (.str "start") talliesRetold (.str "a start") ∧
      let run := Matcher.run { grammar := talliesRetold, start := .str "a start" } (.text #['1', '+', '1'])
      run.1 = .done (some (.node [.leaf (.str "1"), .leaf (.str "+"), .leaf (.str "1")])) ∧
        run.2.position = 3 := by
  have strings : tallies.DeclaresStrings := by simp [Grammar.DeclaresStrings, tallies]
  have result : (Matcher.run { grammar := tallies, start := .str "start" } (.text #['1', '+', '1'])).1 =
      .done (some (.node [.leaf (.str "1"), .leaf (.str "+"), .leaf (.str "1")])) := by cbv
  have position : (Matcher.run { grammar := tallies, start := .str "start" }
      (.text #['1', '+', '1'])).2.position = 3 := by cbv
  obtain ⟨results, positions, _⟩ :=
    names_are_only_names strings tallies_reshapes {} (.text #['1', '+', '1'])
  exact ⟨strings, tallies_reshapes, results.trans (by rw [result]; rfl), positions.trans position⟩

end SeedPeg
