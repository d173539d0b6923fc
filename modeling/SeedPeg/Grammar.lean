import SeedPeg.Declarations
import SeedPeg.Definition

/-!
# Grammars

A grammar declares expressions as rules, and nothing but expressions; the place of a rule is its
id. Rules that are only declared can be anything: they become a grammar when all of them are
expressions (`Grammar.ofDeclarations`).
-/

namespace SeedPeg

/-- Rules in order of declaration, with different names, all of them expressions. -/
structure Grammar extends Declarations Expr where
  proper : entries.all (·.2.isProper) = true := by decide

namespace Grammar

def empty : Grammar := ⟨.empty, rfl⟩

/-- The first rule that is not declared as an expression. -/
def firstImproper? (rules : List (Value × Expr)) : Option (Value × Expr) :=
  rules.find? fun rule => !rule.2.isProper

theorem proper_of_firstImproper? {rules : List (Value × Expr)}
    (absent : firstImproper? rules = none) : rules.all (·.2.isProper) = true := by
  simpa [firstImproper?] using absent

/-- The grammar of some declared rules, all of which must be expressions. -/
def ofDeclarations (rules : Declarations Expr) : Except Fault Grammar :=
  match improper : firstImproper? rules.entries with
  | some (name, e) => .error (.illDefined name e.toValue)
  | none => .ok ⟨rules, proper_of_firstImproper? improper⟩

/-- The grammar of some rules, declared one after the other. -/
def ofRules (rules : List (Value × Expr)) : Except Fault Grammar := do
  ofDeclarations (← Declarations.ofEntries rules)

/-- The grammar of some definitions; only the last definition of a name is read. -/
def ofDefinitions (definitions : List (Value × Value)) : Except Fault Grammar := do
  let declared ← Declarations.ofEntries definitions
  ofDeclarations (← declared.readWith Expr.ofDefinition)

variable (grammar : Grammar)

/-- The id and the definition of a rule to be applied. -/
def lookup (name : Value) : Except Fault (Nat × Expr) :=
  if name.isKey then
    match grammar.find? name with
    | some found => .ok found
    | none => .error (.unknownRule name)
  else .error .listAsKey

/-- The names of the rules in order of declaration, with their ids. -/
def ids : List (Value × Nat) := grammar.entries.zipIdx.map fun entry => (entry.1.1, entry.2)

/-- The definitions of the rules in order of declaration. -/
def definitions : List Expr := grammar.entries.map (·.2)

/-- The names that are applied in some definition and not declared. -/
def undefinedReferences : Except Fault (List Value) := do
  let names ← Expr.referencesAll grammar.definitions
  return names.filter fun name => (grammar.find? name).isNone

end Grammar

/-- What a match is given to go by. -/
inductive Rules where
  /-- Rules that are a grammar. -/
  | checked (grammar : Grammar)
  /-- Rules that are only declared so far. -/
  | declared (rules : Declarations Expr)

namespace Rules

/-- Rules as they are declared. -/
def declarations : Rules → Declarations Expr
  | .checked grammar => grammar.toDeclarations
  | .declared rules => rules

/-- The grammar that rules are, or that they become. -/
def toGrammar : Rules → Except Fault Grammar
  | .checked grammar => .ok grammar
  | .declared rules => Grammar.ofDeclarations rules

/-- The grammar that rules are, to answer a request that only a grammar can. -/
def answering (request : Request) : Rules → Except Fault Grammar
  | .checked grammar => .ok grammar
  | .declared _ => .error (.noGrammar request)

end Rules

end SeedPeg
