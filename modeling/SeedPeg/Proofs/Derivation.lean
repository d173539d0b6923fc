import Mathlib
import SeedPeg.Proofs.Results

/-!
# Derivation trees

`Derives` says which trees an expression has, by the shape of the expression alone. A tree that an
evaluation answers is one of those, and the symbols of the literals at its leaves spell the part of
the input from the cursor before the evaluation to the cursor after it (`Parses`). This is so of
every result in the memo table too, seeds included: what a rule finds there was parsed once.
-/

namespace SeedPeg

mutual

/-- The literals at the leaves of a tree, from the left to the right. -/
def Tree.leaves : Tree → List Value
  | .leaf literal => [literal]
  | .node children => Tree.leavesAll children
  | .lookahead => []

/-- The literals at the leaves of some trees. -/
def Tree.leavesAll : List Tree → List Value
  | [] => []
  | tree :: rest => tree.leaves ++ Tree.leavesAll rest

end

/-- The symbols of the literals at the leaves of a tree. -/
def Tree.symbols (tree : Tree) : List Value := tree.leaves.flatMap fun literal => literal.symbols?.getD []

/-- The trees of an expression. -/
inductive Derives (grammar : Grammar) : Expr → Tree → Prop where
  | terminal {literal} : Derives grammar (.terminal literal) (.leaf literal)
  | rule {name id body tree} :
      grammar.lookup name = .ok (id, body) → Derives grammar body tree → Derives grammar (.rule name) tree
  | nothing : Derives grammar (.sequence []) (.node [])
  | kept {item rest tree trees} :
      item.isKept = true → Derives grammar item tree → Derives grammar (.sequence rest) (.node trees) →
      Derives grammar (.sequence (item :: rest)) (.node (tree :: trees))
  | dropped {item rest trees} :
      item.isKept = false → Derives grammar (.sequence rest) (.node trees) →
      Derives grammar (.sequence (item :: rest)) (.node trees)
  | choice {alternatives alternative tree} :
      alternative ∈ alternatives → Derives grammar alternative tree →
      Derives grammar (.choice alternatives) tree
  | star {element trees} :
      (∀ tree ∈ trees, Derives grammar element tree) → Derives grammar (.star element) (.node trees)
  | plus {element trees} :
      trees ≠ [] → (∀ tree ∈ trees, Derives grammar element tree) →
      Derives grammar (.plus element) (.node trees)
  | absent {element} : Derives grammar (.optional element) (.node [])
  | present {element tree} :
      Derives grammar element tree → Derives grammar (.optional element) (.node [tree])
  | ahead {element} : Derives grammar (.ahead element) .lookahead
  | notAhead {element} : Derives grammar (.notAhead element) .lookahead

theorem Derives.node_of_sequence {grammar : Grammar} {items : List Expr} {tree : Tree}
    (derives : Derives grammar (.sequence items) tree) : ∃ trees, tree = .node trees := by
  cases derives <;> exact ⟨_, rfl⟩

theorem Derives.node_of_star {grammar : Grammar} {element : Expr} {tree : Tree}
    (derives : Derives grammar (.star element) tree) : ∃ trees, tree = .node trees := by
  cases derives; exact ⟨_, rfl⟩

/-- A tree is one of an expression, and spells the input from one cursor to another. -/
structure Parses (setting : Setting) (e : Expr) (tree : Tree) (start stop : Int) : Prop where
  derives : Derives setting.grammar e tree
  spells : setting.input.Spells tree.symbols start stop

section

variable {setting : Setting}

@[simp] theorem Tree.symbols_leaf (literal : Value) :
    (Tree.leaf literal).symbols = literal.symbols?.getD [] := by
  simp [symbols, leaves]

@[simp] theorem Tree.symbols_lookahead : Tree.lookahead.symbols = [] := by
  simp [symbols, leaves]

@[simp] theorem Tree.symbols_nil : (Tree.node []).symbols = [] := by
  simp [symbols, leaves, leavesAll]

@[simp] theorem Tree.symbols_cons (tree : Tree) (trees : List Tree) :
    (Tree.node (tree :: trees)).symbols = tree.symbols ++ (Tree.node trees).symbols := by
  simp [symbols, leaves, leavesAll]

namespace Parses

variable {element : Expr} {tree : Tree} {trees : List Tree} {start middle stop : Int}

theorem nothing (start : Int) : Parses setting (.sequence []) (.node []) start start :=
  ⟨.nothing, by simpa using setting.input.spells_nil start⟩

/-- The tree of a lookahead spells nothing. -/
theorem eq_of_dropped (inner : Parses setting element tree start stop) (dropped : element.isKept = false) :
    stop = start := by
  obtain ⟨derives, spells⟩ := inner
  have length := spells.length
  cases derives <;> simp_all [Expr.isKept] <;> omega

/-- The trees of a loop: one more before the others. -/
theorem cons (inner : Parses setting element tree start middle)
    (rest : Parses setting (.star element) (.node trees) middle stop) :
    (∀ each ∈ tree :: trees, Derives setting.grammar element each) ∧
      setting.input.Spells (Tree.node (tree :: trees)).symbols start stop := by
  obtain ⟨derives, spells⟩ := rest
  cases derives with
  | star each =>
    refine ⟨List.forall_mem_cons.mpr ⟨inner.derives, each⟩, ?_⟩
    rw [Tree.symbols_cons]
    exact inner.spells.append spells

end Parses

variable {e part : Expr} {result : Result} {idle back : Bool} {tree : Tree} {s s1 : State} {stop : Int}

/-- The tree with which an expression ends after a part. -/
theorem Parses.of_stop (first : e.first? = some part)
    (after : e.after result idle = .stop (.done (some tree)) back)
    (inner : ∀ tree, result = .done (some tree) → Parses setting part tree s.position s1.position) :
    Parses setting e tree s.position (s1.restored back s.position).position := by
  have empty := setting.input.spells_nil s.position
  obtain ⟨ended, rfl⟩ := Expr.done_of_after_stop after
  rcases e with _ | _ | ⟨_ | ⟨item, rest⟩⟩ | ⟨_ | ⟨alternative, rest⟩⟩ | element | element | element |
    element | element | _ | _ <;> cases first
  · cases ended <;> cases after
  · rcases ended with _ | tree <;> cases after
    obtain ⟨derives, spells⟩ := inner _ rfl
    exact ⟨.choice (by simp) derives, spells⟩
  · rcases ended with _ | tree
    · cases after; exact ⟨.star (by simp), by simpa using empty⟩
    · cases idle <;> cases after
      exact ⟨.star (by simp), by simpa using empty⟩
  · cases ended <;> cases after
  · rcases ended with _ | tree <;> cases after
    · exact ⟨.absent, by simpa using empty⟩
    · obtain ⟨derives, spells⟩ := inner _ rfl
      exact ⟨.present derives, by simpa using spells⟩
  · rcases ended with _ | tree <;> cases after
    exact ⟨.ahead, by simpa using empty⟩
  · rcases ended with _ | tree <;> cases after
    exact ⟨.notAhead, by simpa using empty⟩

/-- The tree with which an expression ends that goes on after a part. -/
theorem Parses.of_go {next : Expr} {trees : List Tree} {ended : Result} (first : e.first? = some part)
    (after : e.after result idle = .go next back trees)
    (inner : ∀ tree, result = .done (some tree) → Parses setting part tree s.position s1.position)
    (later : ∀ tree, ended = .done (some tree) →
      Parses setting next tree (s1.restored back s.position).position stop)
    (same : ended.prepend trees = .done (some tree)) : Parses setting e tree s.position stop := by
  obtain ⟨last, rfl⟩ : ∃ last, ended = .done (some last) := by
    rcases ended with (_ | last) | _ | _
    · cases same
    · exact ⟨last, rfl⟩
    · cases same
    · cases same
  have later := later last rfl
  obtain ⟨ended, rfl⟩ := Expr.done_of_after_go after
  rcases e with _ | _ | ⟨_ | ⟨item, rest⟩⟩ | ⟨_ | ⟨alternative, rest⟩⟩ | element | element | element |
    element | element | _ | _ <;> cases first
  · rcases ended with _ | ended <;> cases after
    have inner := inner _ rfl
    obtain ⟨derives, spells⟩ := later
    obtain ⟨others, rfl⟩ := derives.node_of_sequence
    cases kept : part.isKept with
    | true =>
      simp only [kept, if_true] at same
      cases same
      exact ⟨.kept kept inner.derives derives, by simpa using inner.spells.append spells⟩
    | false =>
      simp only [kept, Bool.false_eq_true, if_false, Outcome.prepend_nil] at same
      cases same
      rw [State.restored_false, inner.eq_of_dropped kept] at spells
      exact ⟨.dropped kept derives, spells⟩
  · rcases ended with _ | ended <;> cases after
    rw [Outcome.prepend_nil] at same
    cases same
    obtain ⟨derives, spells⟩ := later
    cases derives with
    | choice member derives => exact ⟨.choice (List.mem_cons_of_mem _ member) derives, spells⟩
  · rcases ended with _ | ended
    · cases after
    · cases idle <;> cases after
      obtain ⟨others, rfl⟩ := later.derives.node_of_star
      cases same
      obtain ⟨each, spells⟩ := (inner _ rfl).cons later
      exact ⟨.star each, spells⟩
  · rcases ended with _ | ended <;> cases after
    obtain ⟨others, rfl⟩ := later.derives.node_of_star
    cases same
    obtain ⟨each, spells⟩ := (inner _ rfl).cons later
    exact ⟨.plus (by simp) each, spells⟩
  · cases ended <;> cases after
  · cases ended <;> cases after
  · cases ended <;> cases after

end

/-! ## What is known is parsed -/

/-- Whether a result, if it is a match, was parsed by the definition of the rule. -/
def Setting.Parsed (setting : Setting) (site : Site) (tree : Option Tree) (next : Int) : Prop :=
  ∀ body found, setting.grammar.definitions[site.id]? = some body → tree = some found →
    Parses setting body found site.position next

section

variable {setting : Setting} {s s' : State}

theorem Setting.parsed_of_parses {site : Site} {tree : Option Tree} {stop : Int} {body : Expr}
    (defined : setting.grammar.definitions[site.id]? = some body)
    (parses : ∀ found, (.done tree : Result) = .done (some found) →
      Parses setting body found site.position stop) :
    setting.Parsed site tree (if tree.isSome then stop else site.position) := by
  rintro other found same rfl
  rw [defined] at same
  cases same
  exact parses found rfl

/-- Runs keep what is known parsed, and the tree that a run ends with is parsed too, from the place
    where the task began. -/
theorem Runs.parsed {task : Task} {result : Result} (runs : Runs setting task s result s')
    (ready : task.Ready setting s) (knows : s.Knows setting.Parsed) :
    s'.Knows setting.Parsed ∧ ∀ tree, result = .done (some tree) →
      Parses setting task.expression tree (task.start s) s'.position := by
  induction runs with
  | @terminal literal s result s' matched =>
    cases made : literal.symbols? with
    | none =>
      rw [literal_fault made] at matched
      cases matched
      exact ⟨knows, by simp⟩
    | some symbols =>
      rw [literal_apply ready made] at matched
      cases matched
      refine ⟨knows.moved _, ?_⟩
      intro tree same
      split at same <;> cases same
      rename_i all
      refine ⟨.terminal, ?_⟩
      rw [Task.start_expr]
      simpa [made, all] using (setting.input.spells_iff_agreement (State.Proper.low ready)).mpr all
  | bare | plain | never | unknown => exact ⟨knows, by simp⟩
  | @nothing s =>
    refine ⟨knows, ?_⟩
    rintro tree ⟨⟩
    exact .nothing s.position
  | @stop e part s result s1 ended back first _ after ih =>
    obtain ⟨kept, inner⟩ := ih ready knows
    refine ⟨kept.restored back s.position, ?_⟩
    rintro tree rfl
    exact .of_stop first after inner
  | @go e part s result s1 next back trees ended s2 first runs after _ ihPart ihNext =>
    obtain ⟨kept, inner⟩ := ihPart ready knows
    have ready1 := Task.Ready.next ready (runs.orderly ready) back next
    obtain ⟨kept1, later⟩ := ihNext ready1 (kept.restored back s.position)
    exact ⟨kept1, fun tree same => .of_go first after inner later same⟩
  | marked => exact ⟨knows.flagged ready _ _ _, by simp⟩
  | @remembered name id body tree next s found known =>
    refine ⟨knows.restored _ _, ?_⟩
    rintro tree ⟨⟩
    obtain ⟨derives, spells⟩ := knows.holds known _ _ (Grammar.definition_of_lookup found) rfl
    exact ⟨.rule found derives, spells⟩
  | applied found unknown _ ih =>
    obtain ⟨kept, inner⟩ := ih (Task.Ready.applied ready found unknown) knows
    refine ⟨kept, fun tree same => ?_⟩
    obtain ⟨derives, spells⟩ := inner tree same
    exact ⟨.rule found derives, spells⟩
  | refused => exact ⟨knows, by simp⟩
  | broken _ _ ih => exact ⟨(ih ready.opened (knows.opened ready.proper _ _)).1, by simp⟩
  | @settled name id body tree detected s s1 _ runs _ _ ih =>
    have orderly := runs.orderly ready.opened
    obtain ⟨kept, inner⟩ := ih ready.opened (knows.opened ready.proper name id)
    rw [Task.start_expr, State.position_opened] at inner
    have planted := kept.planted ready orderly (Setting.parsed_of_parses ready.2.1 inner)
    refine ⟨@State.Knows.closed _ _ _ planted ⟨id, s.position⟩ name tree ready.proper.low, ?_⟩
    rintro found ⟨⟩
    rw [State.position_closed]
    exact inner found rfl
  | @ripened name id body seed tree s s1 s2 _ runs _ _ ihBody ihGrowth =>
    have orderly := runs.orderly ready.opened
    obtain ⟨kept, inner⟩ := ihBody ready.opened (knows.opened ready.proper name id)
    rw [Task.start_expr, State.position_opened] at inner
    have planted := kept.planted ready orderly (Setting.parsed_of_parses ready.2.1 inner)
    obtain ⟨kept2, later⟩ := ihGrowth (ready.planted orderly) planted
    refine ⟨@State.Knows.closed _ _ _ kept2 ⟨id, s.position⟩ name tree ready.proper.low, ?_⟩
    rintro found ⟨⟩
    rw [State.position_closed]
    exact later found rfl
  | withered _ runs _ _ ihBody ihGrowth =>
    have orderly := runs.orderly ready.opened
    obtain ⟨kept, inner⟩ := ihBody ready.opened (knows.opened ready.proper _ _)
    rw [Task.start_expr, State.position_opened] at inner
    have planted := kept.planted ready orderly (Setting.parsed_of_parses ready.2.1 inner)
    exact ⟨(ihGrowth (ready.planted orderly) planted).1, by simp⟩
  | @grown name id body position seed reached tree s s1 known _ _ ih =>
    refine ⟨(ih ready.moved (knows.moved position)).1.moved reached, ?_⟩
    rintro found ⟨⟩
    exact knows.holds known _ _ ready.2.1 rfl
  | @growing name id body position seed reached tree s s1 ended s2 _ runs _ _ ihBody ihNext =>
    have orderly := runs.orderly ready.moved
    obtain ⟨kept, inner⟩ := ihBody ready.moved (knows.moved position)
    exact ihNext (ready.replanted orderly) (kept.replanted ready orderly
      (@Setting.parsed_of_parses _ ⟨id, position⟩ (some tree) _ _ ready.2.1 inner))
  | stunted _ _ ih => exact ⟨(ih ready.moved (knows.moved _)).1, by simp⟩

theorem Expr.evaluate_parsed {e : Expr} {result : Result} (proper : s.Proper setting)
    (knows : s.Knows setting.Parsed) (ran : e.evaluate setting s = (result, s')) :
    s'.Knows setting.Parsed ∧ ∀ tree, result = .done (some tree) →
      Parses setting e tree s.position s'.position :=
  ((runs_iff_evaluate proper).mpr ran).parsed proper knows

/-- Whatever begins, begins where all that is known is parsed. -/
theorem Begins.parsed {task inner : Task} {sites : List Site}
    (begins : Begins setting task s sites inner s') (ready : task.Ready setting s)
    (knows : s.Knows setting.Parsed) : s'.Knows setting.Parsed := by
  induction begins with
  | here => exact knows
  | first _ _ ih => exact ih ready knows
  | next _ ran _ _ ih =>
    have orderly := Expr.evaluate_orderly ready ran
    exact ih (Task.Ready.next ready orderly _ _) ((Expr.evaluate_parsed ready knows ran).1.restored _ _)
  | applied found unknown _ ih => exact ih (Task.Ready.applied ready found unknown) knows
  | opened _ _ ih => exact ih ready.opened (knows.opened ready.proper _ _)
  | seeded _ ran _ _ ih =>
    have orderly := Expr.evaluate_orderly ready.opened ran
    obtain ⟨kept, inner⟩ := Expr.evaluate_parsed ready.opened (knows.opened ready.proper _ _) ran
    rw [State.position_opened] at inner
    exact ih (ready.planted orderly)
      (kept.planted ready orderly (Setting.parsed_of_parses ready.2.1 inner))
  | round _ ih => exact ih ready.moved (knows.moved _)
  | @regrown name id body position _ _ tree s s1 _ _ _ _ ran _ _ ih =>
    have orderly := Expr.evaluate_orderly ready.moved ran
    obtain ⟨kept, inner⟩ := Expr.evaluate_parsed ready.moved (knows.moved position) ran
    exact ih (ready.replanted orderly) (kept.replanted ready orderly
      (@Setting.parsed_of_parses _ ⟨id, position⟩ (some tree) _ _ ready.2.1 inner))

end

theorem Visited.parsed {setting : Setting} {s : State} (visited : Visited setting s) :
    s.Knows setting.Parsed := by
  induction visited with
  | fresh => exact .fresh _
  | evaluated e reached ih => exact (Expr.evaluate_parsed reached.proper ih rfl).1
  | begun reached begins ih => exact begins.parsed reached.proper ih
  | consumed symbol reached ih =>
    obtain ⟨position, same, _⟩ := reached.proper.consumed symbol
    rw [same]
    exact ih.moved position
  | moved _ _ _ ih => exact ih.moved _

/-! ## Texts -/

mutual

/-- The literals in an expression. -/
def Expr.literals : Expr → List Value
  | .terminal literal => [literal]
  | .sequence items => Expr.literalsAll items
  | .choice alternatives => Expr.literalsAll alternatives
  | .star element | .plus element | .optional element | .ahead element | .notAhead element =>
    element.literals
  | .rule _ | .bare | .plain _ => []

/-- The literals in some expressions. -/
def Expr.literalsAll : List Expr → List Value
  | [] => []
  | e :: rest => e.literals ++ Expr.literalsAll rest

end

theorem Expr.mem_literalsAll {es : List Expr} {literal : Value} :
    literal ∈ Expr.literalsAll es ↔ ∃ e ∈ es, literal ∈ e.literals := by
  induction es with
  | nil => simp [literalsAll]
  | cons e rest ih => simp [literalsAll, ih]

theorem Tree.mem_leavesAll {trees : List Tree} {literal : Value} :
    literal ∈ Tree.leavesAll trees ↔ ∃ tree ∈ trees, literal ∈ tree.leaves := by
  induction trees with
  | nil => simp [leavesAll]
  | cons tree rest ih => simp [leavesAll, ih]

/-- The leaves of a tree are literals of the expression or of the grammar. -/
theorem Derives.mem_literals {grammar : Grammar} {e : Expr} {tree : Tree} {literal : Value}
    (derives : Derives grammar e tree) (leaf : literal ∈ tree.leaves) :
    literal ∈ e.literals ∨ ∃ body ∈ grammar.definitions, literal ∈ body.literals := by
  induction derives with
  | terminal => exact .inl (by simpa [Tree.leaves, Expr.literals] using leaf)
  | rule found _ ih =>
    have member := List.mem_of_getElem? (Grammar.definition_of_lookup found)
    rcases ih leaf with inside | elsewhere
    · exact .inr ⟨_, member, inside⟩
    · exact .inr elsewhere
  | nothing | absent | ahead | notAhead => simp [Tree.leaves, Tree.leavesAll] at leaf
  | kept _ _ _ ihItem ihRest =>
    simp only [Tree.leaves, Tree.leavesAll, List.mem_append] at leaf ihRest
    simp only [Expr.literals, Expr.literalsAll, List.mem_append] at ihRest ⊢
    grind
  | dropped _ _ ih =>
    simp only [Expr.literals, Expr.literalsAll, List.mem_append] at ih ⊢
    grind
  | choice member _ ih =>
    refine (ih leaf).imp_left fun inside => ?_
    exact Expr.mem_literalsAll.mpr ⟨_, member, inside⟩
  | star _ ih | plus _ _ ih =>
    obtain ⟨tree, member, inside⟩ := Tree.mem_leavesAll.mp leaf
    exact ih tree member inside
  | present _ ih => exact ih (by simpa [Tree.leaves, Tree.leavesAll] using leaf)

theorem Value.equals_ofChar (c d : Char) : (Value.ofChar c).equals (Value.ofChar d) = true ↔ c = d := by
  simp [ofChar, equals]

/-- What some texts spell in the whole of a text is their concatenation. -/
theorem Input.Spells.join {chars : Array Char} {texts : List String}
    (spells : (Input.text chars).Spells (texts.flatMap fun text => text.toList.map .ofChar) 0 chars.size) :
    String.join texts = String.ofList chars.toList := by
  have equal := spells.equal
  have whole : (Input.text chars).symbols.extract (Int.toNat 0) (Int.toNat chars.size) =
      chars.toList.map .ofChar := by
    simp [Input.symbols, List.extract_eq_take_drop]
  rw [whole, ← List.map_flatMap, List.forall₂_map_left_iff, List.forall₂_map_right_iff] at equal
  simp only [Value.equals_ofChar, List.forall₂_eq_eq_eq] at equal
  rw [← String.toList_inj, String.toList_join, ← equal, String.toList_ofList]

/-- Where all leaves are strings, the symbols are their characters. -/
theorem Tree.symbols_of_texts {tree : Tree} {texts : List String} (same : tree.leaves = texts.map .str) :
    tree.symbols = texts.flatMap fun text => text.toList.map .ofChar := by
  simp [symbols, same, List.flatMap_map, Value.symbols?]

/-! ## Trees -/

/-- A tree that an evaluation answers, in any state that can be visited, is one of the expression and
    spells what the evaluation consumed. So the tree of a match spells the whole input; if it is a
    text, and the literals of the grammar are strings, that is the concatenation of the leaves. -/
theorem trees_are_derivations (matcher : Matcher) (input : Input) :
    (∀ s e tree s', Visited (matcher.setting input) s →
      e.evaluate (matcher.setting input) s = (.done (some tree), s') →
      Parses (matcher.setting input) e tree s.position s'.position) ∧
    (∀ start tree, (matcher.run input start).1 = .done (some tree) →
      Parses (matcher.setting input) (matcher.entry start) tree 0 input.size) ∧
    (∀ chars start tree, input = .text chars →
      (∀ body ∈ matcher.grammar.definitions, ∀ literal ∈ body.literals, ∃ text, literal = .str text) →
      (matcher.run input start).1 = .done (some tree) →
      ∃ texts, tree.leaves = texts.map .str ∧ String.join texts = String.ofList chars.toList) := by
  have evaluated : ∀ s e tree s', Visited (matcher.setting input) s →
      e.evaluate (matcher.setting input) s = (.done (some tree), s') →
      Parses (matcher.setting input) e tree s.position s'.position :=
    fun s e tree s' visited ran => (Expr.evaluate_parsed visited.proper visited.parsed ran).2 tree rfl
  have matched : ∀ start tree, (matcher.run input start).1 = .done (some tree) →
      Parses (matcher.setting input) (matcher.entry start) tree 0 input.size := by
    intro start tree ended
    obtain ⟨s, ran, whole⟩ := Matcher.evaluate_of_run ended
    have parsed := evaluated _ _ _ _ .fresh ran
    rwa [whole] at parsed
  refine ⟨evaluated, matched, ?_⟩
  rintro chars start tree rfl textual ended
  obtain ⟨derives, spells⟩ := matched start tree ended
  have leaves : ∀ literal ∈ tree.leaves, ∃ text, Value.str text = literal := by
    intro literal leaf
    rcases derives.mem_literals leaf with inside | ⟨body, member, inside⟩
    · simp [Matcher.entry, Expr.literals] at inside
    · obtain ⟨text, rfl⟩ := textual body member literal inside
      exact ⟨text, rfl⟩
  obtain ⟨texts, same⟩ : tree.leaves ∈ Set.range (List.map Value.str) := by
    rw [Set.range_list_map]
    exact leaves
  rw [Tree.symbols_of_texts same.symm] at spells
  exact ⟨texts, same.symm, spells.join⟩

theorem sums_tree_is_derivation :
    (sums.run (.text #['1', '+', '1'])).1 =
      .done (some (.node [.leaf (.str "1"), .leaf (.str "+1")])) ∧
    Parses (sums.setting (.text #['1', '+', '1'])) (.rule sums.start)
      (.node [.leaf (.str "1"), .leaf (.str "+1")]) 0 3 ∧
    ∃ texts, Tree.leaves (.node [.leaf (.str "1"), .leaf (.str "+1")]) = texts.map .str ∧
      String.join texts = String.ofList ['1', '+', '1'] := by
  have ended : (sums.run (.text #['1', '+', '1'])).1 =
      .done (some (.node [.leaf (.str "1"), .leaf (.str "+1")])) := by cbv
  obtain ⟨_, matched, joined⟩ := trees_are_derivations sums (.text #['1', '+', '1'])
  refine ⟨ended, matched none _ ended, joined #['1', '+', '1'] none _ rfl ?_ ended⟩
  intro body member literal inside
  obtain rfl := List.mem_singleton.mp member
  simp only [leftSum, Expr.literals, Expr.literalsAll, List.nil_append, List.append_nil,
    List.mem_append, List.mem_singleton] at inside
  rcases inside with rfl | rfl
  · exact ⟨_, rfl⟩
  · exact ⟨_, rfl⟩

end SeedPeg
