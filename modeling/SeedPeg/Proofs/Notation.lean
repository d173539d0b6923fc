import SeedPeg.Grammar
import SeedPeg.Proofs.Equality
import SeedPeg.Proofs.Quotation
import SeedPeg.Proofs.Reading

/-!
# Notation

How expressions are written down as definitions (`Expr.written`): an operator as its keyword in front of
its operands, a rule as its name, and a literal in quotes, double ones only if it has single ones in it.
Expressions that can be written in this way (`Expr.Writable`) are read back as they are, and rules whose
definitions are written down are read back as the same grammar (`definitions_read_back`).
-/

namespace SeedPeg

/-! ## Writing -/

/-- A text in quotes: in single ones, unless it has one in it. -/
def Text.inQuotes (text : String) : String :=
  let quote := if singleQuote ∈ text.toList then doubleQuote else singleQuote
  .ofList (quote :: text.toList ++ [quote])

mutual

/-- The definition that is written for an expression. What has no form of its own stands there as it is. -/
def Expr.written : Expr → Value
  | .terminal (.str text) => .str (Text.inQuotes text)
  | .rule (.str name) => .str name
  | .sequence items => .tuple (.str "SEQUENCE" :: Expr.writtenAll items)
  | .choice alternatives => .tuple (.str "CHOICE" :: Expr.writtenAll alternatives)
  | .star element => .tuple [.str "ZERO_OR_MORE", element.written]
  | .plus element => .tuple [.str "ONE_OR_MORE", element.written]
  | .optional element => .tuple [.str "ZERO_OR_ONE", element.written]
  | .ahead element => .tuple [.str "AND", element.written]
  | .notAhead element => .tuple [.str "NOT", element.written]
  | e => e.toValue

def Expr.writtenAll : List Expr → List Value
  | [] => []
  | e :: rest => e.written :: Expr.writtenAll rest

end

/-- An expression that can be written down: its literals are texts in which only one kind of quotes
    occurs, and no name of a rule in it reads as a literal. -/
inductive Expr.Writable : Expr → Prop where
  | terminal {text : String} :
      ¬ (Text.singleQuote ∈ text.toList ∧ Text.doubleQuote ∈ text.toList) →
      Writable (.terminal (.str text))
  | rule {name} : (∀ text, ¬ Quotes name text) → Writable (.rule (.str name))
  | sequence {items} : (∀ item ∈ items, Writable item) → Writable (.sequence items)
  | choice {alternatives} : (∀ alternative ∈ alternatives, Writable alternative) →
      Writable (.choice alternatives)
  | star {element} : Writable element → Writable (.star element)
  | plus {element} : Writable element → Writable (.plus element)
  | optional {element} : Writable element → Writable (.optional element)
  | ahead {element} : Writable element → Writable (.ahead element)
  | notAhead {element} : Writable element → Writable (.notAhead element)

theorem Text.encloses_inQuotes {text : String}
    (one : ¬ (singleQuote ∈ text.toList ∧ doubleQuote ∈ text.toList)) :
    ∃ quote, Encloses (inQuotes text) quote text := by
  by_cases single : singleQuote ∈ text.toList
  · have double : doubleQuote ∉ text.toList := fun double => one ⟨single, double⟩
    exact ⟨doubleQuote, .inr rfl, double, by simp [inQuotes, single]⟩
  · exact ⟨singleQuote, .inl rfl, single, by simp [inQuotes, single]⟩

/-! ## Reading what is written -/

namespace Expr

variable {e : Expr} {es : List Expr}

/-- A keyword in front of operands that can be read makes the expression of its operator. -/
theorem ofDefinition_keyword (operator : Operator) {operands : List Value}
    (read : ofDefinitions operands = .ok es) (made : operator.combine? es = some e) :
    ofDefinition (.tuple (.str operator.keyword :: operands)) = .ok e := by
  rw [ofDefinition, if_pos (by rfl), Operator.ofValue?_keyword]
  simp only [read, bind, Except.bind, made]

theorem ofDefinitions_writtenAll (each : ∀ e ∈ es, ofDefinition e.written = .ok e) :
    ofDefinitions (writtenAll es) = .ok es := by
  induction es with
  | nil => rfl
  | cons first rest ih =>
    rw [writtenAll, ofDefinitions_cons, each first (by simp),
      ih fun e member => each e (List.mem_cons_of_mem _ member)]
    rfl

/-- What is written is read back. -/
theorem Writable.ofDefinition_written (writable : e.Writable) : ofDefinition e.written = .ok e := by
  have single {element : Expr} (read : ofDefinition element.written = .ok element) :
      ofDefinitions [element.written] = .ok [element] := by
    have each : ∀ e ∈ [element], ofDefinition e.written = .ok e := by simpa using read
    exact ofDefinitions_writtenAll each
  induction writable with
  | @terminal text one =>
    obtain ⟨quote, enclosed⟩ := Text.encloses_inQuotes one
    rw [written, ofDefinition, ofString_eq_terminal_iff.mpr (.closed enclosed)]
  | rule other => rw [written, ofDefinition, ofString_eq_rule_iff.mpr other]
  | sequence _ ih => exact ofDefinition_keyword .sequence (ofDefinitions_writtenAll ih) rfl
  | choice _ ih => exact ofDefinition_keyword .choice (ofDefinitions_writtenAll ih) rfl
  | star _ ih => exact ofDefinition_keyword .zeroOrMore (single ih) rfl
  | plus _ ih => exact ofDefinition_keyword .oneOrMore (single ih) rfl
  | optional _ ih => exact ofDefinition_keyword .zeroOrOne (single ih) rfl
  | ahead _ ih => exact ofDefinition_keyword .and (single ih) rfl
  | notAhead _ ih => exact ofDefinition_keyword .not (single ih) rfl

theorem Writable.textual (writable : e.Writable) : e.Textual := by
  induction writable with
  | terminal => exact .terminal
  | rule => exact .rule
  | sequence _ ih => exact .sequence ih
  | choice _ ih => exact .choice ih
  | star _ ih => exact .star ih
  | plus _ ih => exact .plus ih
  | optional _ ih => exact .optional ih
  | ahead _ ih => exact .ahead ih
  | notAhead _ ih => exact .notAhead ih

theorem Writable.isProper (writable : e.Writable) : e.isProper = true := by
  cases writable <;> rfl

end Expr

/-! ## Reading grammars -/

namespace Declarations

variable {α β : Type} (change : α → β)

/-- Entries with their items changed. -/
def changeItems (entries : List (Value × α)) : List (Value × β) :=
  entries.map fun entry => (entry.1, change entry.2)

/-- The declarations with their items changed. -/
def map (declarations : Declarations α) : Declarations β where
  entries := changeItems change declarations.entries
  distinct := List.pairwise_map.mpr declarations.distinct

theorem putName_changeItems (name : Value) (item : α) (entries : List (Value × α)) :
    putName name (change item) (changeItems change entries) =
      changeItems change (putName name item entries) := by
  induction entries with
  | nil => rfl
  | cons first rest ih =>
    simp only [changeItems, List.map_cons, putName] at ih ⊢
    split
    · rfl
    · rw [ih, List.map_cons]

theorem declare_map (declarations : Declarations α) (name : Value) (item : α) :
    (declarations.map change).declare name (change item) = (declarations.declare name item).map change := by
  simp only [declare, map, putName_changeItems]

/-- Declaring changed items is changing the items that are declared. -/
theorem ofEntries_changeItems (entries : List (Value × α)) :
    ofEntries (changeItems change entries) = (ofEntries entries).map (map change) := by
  have folded (start : Declarations α) :
      (changeItems change entries).foldl (fun made entry => made.declare entry.1 entry.2)
          (start.map change) =
        (entries.foldl (fun made entry => made.declare entry.1 entry.2) start).map change := by
    induction entries generalizing start with
    | nil => rfl
    | cons first rest ih => simpa [changeItems, declare_map] using ih (start.declare first.1 first.2)
  have keys : (changeItems change entries).all (·.1.isKey) = entries.all (·.1.isKey) := by
    simp [changeItems, Function.comp_def]
  simp only [ofEntries, keys]
  split
  · exact congrArg Except.ok (folded empty)
  · rfl

/-- What is declared is among the entries. -/
theorem item_of_mem_ofEntries {entries : List (Value × α)} {made : Declarations α}
    (done : ofEntries entries = .ok made) {entry : Value × α} (member : entry ∈ made.entries) :
    ∃ given ∈ entries, given.2 = entry.2 := by
  have folded (start : Declarations α)
      (member : entry ∈ (entries.foldl (fun made entry => made.declare entry.1 entry.2) start).entries) :
      entry ∈ start.entries ∨ ∃ given ∈ entries, given.2 = entry.2 := by
    clear done
    induction entries generalizing start with
    | nil => exact .inl member
    | cons first rest ih =>
      rcases ih _ member with before | ⟨given, inside, same⟩
      · rcases item_of_mem_putName before with same | old
        · exact .inr ⟨first, by simp, same.symm⟩
        · exact .inl old
      · exact .inr ⟨given, List.mem_cons_of_mem _ inside, same⟩
  simp only [ofEntries] at done
  split at done
  · cases done
    exact (folded empty member).resolve_left nofun
  · cases done

variable {change} {read : β → Except Fault α}

theorem readItems_changeItems {entries : List (Value × α)}
    (each : ∀ entry ∈ entries, read (change entry.2) = .ok entry.2) :
    readItems read (changeItems change entries) = .ok entries := by
  induction entries with
  | nil => rfl
  | cons first rest ih =>
    have others := ih fun entry member => each entry (List.mem_cons_of_mem _ member)
    rw [changeItems] at others ⊢
    rw [List.map_cons, readItems, each first (by simp), others]
    rfl

/-- Declarations are read as they were before their items were changed, if each item is. -/
theorem readWith_map {declarations : Declarations α}
    (each : ∀ entry ∈ declarations.entries, read (change entry.2) = .ok entry.2) :
    (declarations.map change).readWith read = .ok declarations := by
  have done : readItems read (declarations.map change).entries = .ok declarations.entries :=
    readItems_changeItems each
  simp only [readWith]
  split
  · rename_i failed
    rw [failed] at done
    cases done
  · rename_i items read
    rw [read] at done
    cases done
    rfl

end Declarations

theorem Grammar.ofDeclarations_eq_ok {rules : Declarations Expr}
    (proper : rules.entries.all (·.2.isProper) = true) : ofDeclarations rules = .ok ⟨rules, proper⟩ := by
  simp only [ofDeclarations]
  split
  · rename_i name e improper
    have inside := List.mem_of_find?_eq_some improper
    have outside := List.find?_some improper
    have held := List.all_eq_true.mp proper _ inside
    simp [held] at outside
  · rfl

/-- Expressions that can be written down are read back as they are and equal to themselves; and if the
    definitions of rules are written down, they are read back as the grammar of the rules: with the same
    names, the same ids and the same definitions, so that it matches every input as that one does. -/
theorem definitions_read_back {e : Expr} (writable : e.Writable) {rules : List (Value × Expr)}
    (ruled : ∀ rule ∈ rules, rule.1.isKey = true ∧ rule.2.Writable) :
    (Expr.ofDefinition e.written = .ok e ∧ e.equals e = true) ∧
      ∃ grammar, Grammar.ofRules rules = .ok grammar ∧
        Grammar.ofDefinitions (rules.map fun rule => (rule.1, rule.2.written)) = .ok grammar := by
  refine ⟨⟨writable.ofDefinition_written, writable.textual.equals_self⟩, ?_⟩
  have keys : rules.all (·.1.isKey) = true := List.all_eq_true.mpr fun rule member => (ruled rule member).1
  obtain ⟨declared, made⟩ : ∃ declared, Declarations.ofEntries rules = .ok declared := by
    simp [Declarations.ofEntries, keys]
  have each : ∀ entry ∈ declared.entries, entry.2.Writable := by
    intro entry member
    obtain ⟨rule, given, same⟩ := Declarations.item_of_mem_ofEntries made member
    exact same ▸ (ruled rule given).2
  have proper : declared.entries.all (·.2.isProper) = true :=
    List.all_eq_true.mpr fun entry member => (each entry member).isProper
  have read : (declared.map Expr.written).readWith Expr.ofDefinition = .ok declared :=
    Declarations.readWith_map fun entry member => (each entry member).ofDefinition_written
  refine ⟨⟨declared, proper⟩, ?_, ?_⟩
  · simp only [Grammar.ofRules, made, bind, Except.bind, Grammar.ofDeclarations_eq_ok proper]
  · have written := Declarations.ofEntries_changeItems Expr.written rules
    rw [Declarations.changeItems] at written
    simp only [Grammar.ofDefinitions, written, made, Except.map, bind, Except.bind, read,
      Grammar.ofDeclarations_eq_ok proper]

/-- Literals with a single quote and a line feed, with a double quote, and without characters; a rule that has
    a keyword for its name. -/
def quotations : Expr :=
  .choice [.sequence [.rule (.str "CHOICE"), .notAhead (.terminal (.str "it's\n"))],
    .plus (.ahead (.star (.optional (.terminal (.str "\""))))), .terminal (.str ""), .choice []]

theorem quotations_read_back :
    quotations.Writable ∧ Value.isKey (.int 1) = true ∧
      Expr.ofDefinition (.tuple [.str "CHOICE",
        .tuple [.str "SEQUENCE", .str "CHOICE", .tuple [.str "NOT", .str "\"it's\n\""]],
        .tuple [.str "ONE_OR_MORE", .tuple [.str "AND", .tuple [.str "ZERO_OR_MORE",
          .tuple [.str "ZERO_OR_ONE", .str "'\"'"]]]], .str "''", .tuple [.str "CHOICE"]]) = .ok quotations ∧
      ∃ grammar, Grammar.ofRules [(.str "start", quotations), (.int 1, .rule (.str "start"))] = .ok grammar ∧
        Grammar.ofDefinitions [(.str "start", quotations.written), (.int 1, .str "start")] = .ok grammar := by
  have name {word : String} (other : isQuoted word.toList = false) : ∀ text, ¬ Quotes word text :=
    fun text quotes => by simp [isQuoted_iff.mpr ⟨text, quotes⟩] at other
  have start : (Expr.rule (.str "start")).Writable := .rule (name (by decide))
  have writable : quotations.Writable := by
    have item : (Expr.sequence [.rule (.str "CHOICE"), .notAhead (.terminal (.str "it's\n"))]).Writable := by
      refine .sequence (List.forall_mem_cons.mpr ⟨.rule (name (by decide)), ?_⟩)
      exact List.forall_mem_singleton.mpr (.notAhead (.terminal (by decide)))
    refine .choice (List.forall_mem_cons.mpr ⟨item, List.forall_mem_cons.mpr ⟨?_, ?_⟩⟩)
    · exact .plus (.ahead (.star (.optional (.terminal (by decide)))))
    · exact List.forall_mem_cons.mpr ⟨.terminal (by decide), List.forall_mem_singleton.mpr (.choice nofun)⟩
  have key : Value.isKey (.int 1) = true := by decide
  have ruled : ∀ rule ∈ [(Value.str "start", quotations), (.int 1, .rule (.str "start"))],
      rule.1.isKey = true ∧ rule.2.Writable :=
    List.forall_mem_cons.mpr ⟨⟨by decide, writable⟩, List.forall_mem_singleton.mpr ⟨key, start⟩⟩
  obtain ⟨⟨read, _⟩, made⟩ := definitions_read_back writable ruled
  exact ⟨writable, key, read, made⟩

end SeedPeg
