import SeedPeg.Proofs.Derivation

/-!
# Lookaheads in results

A sequence leaves out what its lookaheads match, but only of those that are its items. A lookahead that an
item is built from shows in the list (`lookaheads_leave_traces`). What an expression may show
(`Expr.MayShow`) and what it shows whenever it matches (`Expr.MustShow`) is told by its shape and by the
grammar: by its derivations (`Derives.mayShow`, `Derives.shows`), so in every state and whether results
are kept or not. Where literals are strings, what shows are the values true (`Tree.shows_iff_within`).
-/

namespace SeedPeg

/-! ## What a tree shows -/

/-- Whether the mark of a lookahead is in a tree, at any depth. -/
inductive Tree.Shows : Tree → Prop where
  | here : Shows .lookahead
  | inside {tree children} : tree ∈ children → Shows tree → Shows (.node children)

/-- A value is within itself, and within a list if it is within one of its items. -/
inductive Value.Within (part : Value) : Value → Prop where
  | here : Within part part
  | inside {value items} : value ∈ items → Within part value → Within part (.list items)

theorem Tree.toValues_eq_map (trees : List Tree) : Tree.toValues trees = trees.map Tree.toValue := by
  induction trees with
  | nil => rfl
  | cons tree rest ih => rw [toValues, List.map_cons, ih]

theorem Tree.Shows.within {tree : Tree} (shows : tree.Shows) : Value.Within (.bool true) tree.toValue := by
  induction shows with
  | here => exact .here
  | inside member _ ih =>
    rw [Tree.toValue, Tree.toValues_eq_map]
    exact .inside (List.mem_map_of_mem member) ih

/-- Where all leaves are strings, true is in the value of a tree for a lookahead only. -/
theorem Tree.shows_of_within {tree : Tree} {value : Value} (within : Value.Within (.bool true) value)
    (same : tree.toValue = value) (texts : ∀ leaf ∈ tree.leaves, ∃ text, leaf = .str text) : tree.Shows := by
  induction within generalizing tree with
  | here =>
    cases tree with
    | leaf literal =>
      obtain ⟨text, rfl⟩ := texts literal (by simp [Tree.leaves])
      cases same
    | node => cases same
    | lookahead => exact .here
  | inside member _ ih =>
    cases tree with
    | leaf literal =>
      obtain ⟨text, rfl⟩ := texts literal (by simp [Tree.leaves])
      cases same
    | node children =>
      rw [Tree.toValue, Tree.toValues_eq_map] at same
      cases same
      obtain ⟨child, among, rfl⟩ := List.mem_map.mp member
      refine .inside among (ih rfl fun leaf inside => texts leaf ?_)
      exact Tree.mem_leavesAll.mpr ⟨child, among, inside⟩
    | lookahead => cases same

theorem Tree.shows_iff_within {tree : Tree} (texts : ∀ leaf ∈ tree.leaves, ∃ text, leaf = .str text) :
    tree.Shows ↔ Value.Within (.bool true) tree.toValue :=
  ⟨Shows.within, fun within => shows_of_within within rfl texts⟩

/-! ## What an expression shows -/

section

variable {grammar : Grammar} {e : Expr} {tree : Tree}

/-- Whether an expression is a lookahead, or one that shows a lookahead it is built from. -/
inductive Expr.MayShow (grammar : Grammar) : Expr → Prop where
  | ahead {element} : MayShow grammar (.ahead element)
  | notAhead {element} : MayShow grammar (.notAhead element)
  | rule {name id body} : grammar.lookup name = .ok (id, body) → MayShow grammar body →
      MayShow grammar (.rule name)
  | sequence {items item} : item ∈ items → item.isKept = true → MayShow grammar item →
      MayShow grammar (.sequence items)
  | choice {alternatives alternative} : alternative ∈ alternatives → MayShow grammar alternative →
      MayShow grammar (.choice alternatives)
  | star {element} : MayShow grammar element → MayShow grammar (.star element)
  | plus {element} : MayShow grammar element → MayShow grammar (.plus element)
  | optional {element} : MayShow grammar element → MayShow grammar (.optional element)

/-- Whether an expression cannot match without showing a lookahead. -/
inductive Expr.MustShow (grammar : Grammar) : Expr → Prop where
  | ahead {element} : MustShow grammar (.ahead element)
  | notAhead {element} : MustShow grammar (.notAhead element)
  | rule {name id body} : grammar.lookup name = .ok (id, body) → MustShow grammar body →
      MustShow grammar (.rule name)
  | sequence {items item} : item ∈ items → item.isKept = true → MustShow grammar item →
      MustShow grammar (.sequence items)
  | choice {alternatives} : (∀ alternative ∈ alternatives, MustShow grammar alternative) →
      MustShow grammar (.choice alternatives)
  | plus {element} : MustShow grammar element → MustShow grammar (.plus element)

theorem Tree.shows_cons {trees : List Tree} :
    (Tree.node (tree :: trees)).Shows ↔ tree.Shows ∨ (Tree.node trees).Shows := by
  constructor
  · rintro (_ | ⟨member, shows⟩)
    rcases List.mem_cons.mp member with rfl | later
    · exact .inl shows
    · exact .inr (.inside later shows)
  · rintro (first | (_ | ⟨member, shows⟩))
    · exact .inside List.mem_cons_self first
    · exact .inside (List.mem_cons_of_mem _ member) shows

theorem Expr.mayShow_sequence {items : List Expr} :
    (Expr.sequence items).MayShow grammar ↔ ∃ item ∈ items, item.isKept = true ∧ item.MayShow grammar := by
  constructor
  · rintro ⟨⟩
    exact ⟨_, ‹_›, ‹_›, ‹_›⟩
  · rintro ⟨item, member, kept, shows⟩
    exact .sequence member kept shows

/-- What a derivation shows is a lookahead that its expression may show. -/
theorem Derives.mayShow (derives : Derives grammar e tree) (shows : tree.Shows) : e.MayShow grammar := by
  induction derives with
  | terminal => cases shows
  | rule found _ ih => exact .rule found (ih shows)
  | nothing | absent => cases shows with | inside member _ => cases member
  | kept kept _ _ ihItem ihRest =>
    rcases Tree.shows_cons.mp shows with first | later
    · exact .sequence List.mem_cons_self kept (ihItem first)
    · obtain ⟨item, member, kept, inside⟩ := Expr.mayShow_sequence.mp (ihRest later)
      exact .sequence (List.mem_cons_of_mem _ member) kept inside
  | dropped _ _ ih =>
    obtain ⟨item, member, kept, inside⟩ := Expr.mayShow_sequence.mp (ih shows)
    exact .sequence (List.mem_cons_of_mem _ member) kept inside
  | choice member _ ih => exact .choice member (ih shows)
  | star _ ih => cases shows with | inside member shows => exact .star (ih _ member shows)
  | plus _ _ ih => cases shows with | inside member shows => exact .plus (ih _ member shows)
  | present _ ih =>
    cases shows with
    | inside member shows =>
      obtain rfl := List.mem_singleton.mp member
      exact .optional (ih shows)
  | ahead => exact .ahead
  | notAhead => exact .notAhead

/-- Every derivation of an expression that must show a lookahead shows one. -/
theorem Derives.shows (derives : Derives grammar e tree) (must : e.MustShow grammar) : tree.Shows := by
  induction derives with
  | terminal | absent | present => cases must
  | rule found _ ih =>
    cases must with
    | rule found' must =>
      rw [found] at found'
      cases found'
      exact ih must
  | nothing => cases must with | sequence member => cases member
  | kept _ _ _ ihItem ihRest =>
    rw [Tree.shows_cons]
    cases must with
    | sequence member kept must =>
      rcases List.mem_cons.mp member with rfl | later
      · exact .inl (ihItem must)
      · exact .inr (ihRest (.sequence later kept must))
  | dropped dropped _ ih =>
    cases must with
    | sequence member kept must =>
      rcases List.mem_cons.mp member with rfl | later
      · rw [dropped] at kept
        cases kept
      · exact ih (.sequence later kept must)
  | choice member _ ih => cases must with | choice all => exact ih (all _ member)
  | star => cases must
  | plus some _ ih =>
    cases must with
    | plus must =>
      obtain ⟨tree, member⟩ := List.exists_mem_of_ne_nil _ some
      exact .inside member (ih tree member must)
  | ahead | notAhead => exact .here

end

/-! ## Sequences -/

/-- In any state that can be visited, while other applications are open and seeds are grown too, and
    whether results are kept or not: where all literals are strings, a sequence that matches returns a list,
    which contains true, at any depth, only if an item that is no lookahead itself may show one that it is
    built from, and always if such an item must. -/
theorem only_wrapped_lookaheads_show (setting : Setting)
    (texts : ∀ body ∈ setting.grammar.definitions, ∀ literal ∈ body.literals, ∃ text, literal = .str text)
    {s s' : State} {items : List Expr} {tree : Tree} (visited : Visited setting s)
    (ownTexts : ∀ literal ∈ (Expr.sequence items).literals, ∃ text, literal = .str text)
    (ran : (Expr.sequence items).evaluate setting s = (.done (some tree), s')) :
    (∃ values, tree.toValue = .list values) ∧
    (Value.Within (.bool true) tree.toValue →
      ∃ item ∈ items, item.isKept = true ∧ item.MayShow setting.grammar) ∧
    ∀ item ∈ items, item.isKept = true → item.MustShow setting.grammar →
      Value.Within (.bool true) tree.toValue := by
  have parsed := (Expr.evaluate_parsed visited.proper visited.parsed ran).2 tree rfl
  have derives := parsed.derives
  have leaves : ∀ leaf ∈ tree.leaves, ∃ text, leaf = .str text := by
    intro leaf inside
    rcases derives.mem_literals inside with own | ⟨body, member, elsewhere⟩
    · exact ownTexts leaf own
    · exact texts body member leaf elsewhere
  refine ⟨?_, fun within => ?_, fun item member kept must => ?_⟩
  · obtain ⟨trees, rfl⟩ := derives.node_of_sequence
    exact ⟨Tree.toValues trees, rfl⟩
  · exact Expr.mayShow_sequence.mp (derives.mayShow ((Tree.shows_iff_within leaves).mpr within))
  · exact (Tree.shows_iff_within leaves).mp (derives.shows (.sequence member kept must))

/-- A grammar in which a rule is a lookahead. -/
def guarded : Grammar where
  entries := [(.str "guard", .notAhead (.terminal (.str "x")))]

/-- Lookaheads in a sequence: as an item, in a choice, optional, repeated, and as a rule. -/
def guards : List Expr :=
  [.notAhead (.terminal (.str "x")), .choice [.notAhead (.terminal (.str "x"))],
    .optional (.notAhead (.terminal (.str "x"))), .plus (.notAhead (.terminal (.str "x"))),
    .rule (.str "guard")]

theorem guards_show :
    ∃ s', (Expr.sequence guards).evaluate ⟨.text #[], guarded, {}⟩ (.fresh 0) =
      (.done (some (.node [.lookahead, .node [.lookahead], .node [.lookahead], .lookahead])), s') ∧
      Value.Within (.bool true)
        (Tree.node [.lookahead, .node [.lookahead], .node [.lookahead], .lookahead]).toValue := by
  have ended : ((Expr.sequence guards).evaluate ⟨.text #[], guarded, {}⟩ (.fresh 0)).1 =
      .done (some (.node [.lookahead, .node [.lookahead], .node [.lookahead], .lookahead])) := by cbv
  have ran := Expr.evaluate_eq_of_fst ended
  have texts : ∀ body ∈ guarded.definitions, ∀ literal ∈ body.literals, ∃ text, literal = .str text := by
    simp [guarded, Grammar.definitions, Expr.literals]
  have ownTexts : ∀ literal ∈ (Expr.sequence guards).literals, ∃ text, literal = .str text := by
    simp [guards, Expr.literals, Expr.literalsAll]
  have found : guarded.lookup (.str "guard") = .ok (0, .notAhead (.terminal (.str "x"))) := by rfl
  have shows := (only_wrapped_lookaheads_show ⟨.text #[], guarded, {}⟩ texts .fresh ownTexts ran).2.2
  exact ⟨_, ran, shows (.rule (.str "guard")) (by simp [guards]) rfl (.rule found .notAhead)⟩

/-- A lookahead that a choice is made of leaves true in the list of a sequence. -/
theorem lookaheads_leave_traces :
    ¬ ∀ (setting : Setting),
      (∀ body ∈ setting.grammar.definitions, ∀ literal ∈ body.literals, ∃ text, literal = .str text) →
      ∀ s items tree s', Visited setting s →
      (∀ literal ∈ (Expr.sequence items).literals, ∃ text, literal = .str text) →
      (Expr.sequence items).evaluate setting s = (.done (some tree), s') →
      ¬ Value.Within (.bool true) tree.toValue := by
  intro traceless
  let items : List Expr := [.choice [.notAhead (.terminal (.str "a"))], .terminal (.str "b")]
  let setting : Setting := ⟨.text #['b'], { entries := [(defaultStart, .sequence items)] }, {}⟩
  have ended : ((Expr.sequence items).evaluate setting (.fresh 1)).1 =
      .done (some (.node [.lookahead, .leaf (.str "b")])) := by cbv
  have shows : (Tree.node [.lookahead, .leaf (.str "b")]).Shows := .inside List.mem_cons_self .here
  refine traceless setting ?_ _ items _ _ .fresh ?_ (Expr.evaluate_eq_of_fst ended) shows.within
  · simp [setting, items, Grammar.definitions, Expr.literals, Expr.literalsAll]
  · simp [items, Expr.literals, Expr.literalsAll]

end SeedPeg
