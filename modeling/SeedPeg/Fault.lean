import SeedPeg.Cursor
import SeedPeg.Operator

/-!
# Faults

What can go wrong in building expressions and grammars, in looking up rules, and in matching.
Each fault names its cause; `Fault.message` words it.
-/

namespace SeedPeg

/-- A sequence that a cursor can point outside of. -/
inductive Container where
  | text
  | list
  | tuple
  | bytes
  deriving DecidableEq

/-- What is asked of a value that only an expression can answer, or of declared rules that only a
    grammar can. -/
inductive Request where
  | evaluate
  | children
  | references
  | lookup
  | undefinedReferences
  | ids
  | definitions
  deriving DecidableEq

/-- The cause of a failure that is not just a mismatch. -/
inductive Fault where
  /-- A rule is applied that the grammar does not declare. -/
  | unknownRule (name : Value)
  /-- A definition is neither an expression nor a string nor headed by an operator. -/
  | unknownOperator (definition : Value)
  /-- An operator that takes one operand has another number of them. -/
  | operandCount (operator : Operator) (count : Nat)
  /-- A rule is declared as something that is not an expression. -/
  | illDefined (name definition : Value)
  /-- A list occurs in a key. -/
  | listAsKey
  /-- A value that is not made of symbols is read as symbols. -/
  | notIterable (kind : String)
  /-- A value that has no length is taken for an input. -/
  | unmeasured (kind : String)
  /-- A limit is neither absent nor a number. -/
  | incomparable (kind : String)
  /-- A rule application would exceed the limit of open ones. -/
  | tooDeep (limit name : Value) (position : Int)
  /-- A grammar is indexed with a name that it does not declare. -/
  | noSuchRule (name : Value)
  /-- A cursor points outside of a sequence. -/
  | outOfRange (container : Container)
  /-- A cursor that points outside does not fit into a machine word. -/
  | cursorTooWide
  /-- A value stands where an expression is needed. -/
  | noExpression (kind : String) (request : Request)
  /-- Rules that are only declared stand where a grammar is needed. -/
  | noGrammar (request : Request)
  /-- Two names that have no order are to be sorted. -/
  | unordered (kind other : String)
  /-- A remark is not text. -/
  | notText (kind : String)
  /-- The expression of no kind is evaluated. -/
  | abstract
  /-- An open rule application does not find its marker again. -/
  | markerLost
  /-- A growing rule application does not find its seed again. -/
  | seedLost
  deriving Inhabited

/-- What kind of fault a caller takes a fault for. -/
inductive Fault.Kind where
  | name
  | type
  | recursion
  | key
  | index
  | attribute
  | implementation
  deriving DecidableEq

def Fault.kind : Fault → Fault.Kind
  | .unknownRule _ | .unknownOperator _ => .name
  | .operandCount .. | .illDefined .. | .listAsKey | .notIterable _ | .unmeasured _
  | .incomparable _ | .unordered .. | .notText _ => .type
  | .tooDeep .. => .recursion
  | .noSuchRule _ => .key
  | .outOfRange _ | .cursorTooWide => .index
  | .noExpression .. | .noGrammar _ | .markerLost | .seedLost => .attribute
  | .abstract => .implementation

def Container.outside : Container → String
  | .text => "string index out of range"
  | .list => "list index out of range"
  | .tuple => "tuple index out of range"
  | .bytes => "index out of range"

def Fault.outside (container : Container) (cursor : Int) : Fault :=
  if Cursor.isWord cursor then .outOfRange container else .cursorTooWide

def Request.attribute : Request → String
  | .evaluate => "eval"
  | .children => "children"
  | .references => "rule_references"
  | .lookup => "lookup"
  | .undefinedReferences => "undefined_references"
  | .ids => "rule_ids"
  | .definitions => "definitions"

def Request.refusal (kind : String) (request : Request) : String :=
  "'" ++ kind ++ "' object has no attribute '" ++ request.attribute ++ "'"

def Fault.message : Fault → String
  | .unknownRule name => "Unknown rule " ++ name.text
  | .unknownOperator definition => "Unknown meta-terminal " ++ definition.text
  | .operandCount operator count =>
    operator.keyword ++ " takes exactly one operand, got " ++ toString count
  | .illDefined name definition =>
    "definition of " ++ name.text ++ " is not an Expression: " ++ definition.display
  | .listAsKey => "unhashable type: 'list'"
  | .notIterable kind => "'" ++ kind ++ "' object is not iterable"
  | .unmeasured kind => "object of type '" ++ kind ++ "' has no len()"
  | .incomparable kind => "'>=' not supported between instances of 'int' and '" ++ kind ++ "'"
  | .tooDeep limit name position =>
    "exceeded maximum rule depth of " ++ limit.text ++ " applying " ++ name.text ++
      " at position " ++ toString position
  | .noSuchRule name => name.display
  | .outOfRange container => container.outside
  | .cursorTooWide => "cannot fit 'int' into an index-sized integer"
  | .noExpression kind request => request.refusal kind
  | .noGrammar request => request.refusal "dict"
  | .unordered kind other =>
    "'<' not supported between instances of '" ++ kind ++ "' and '" ++ other ++ "'"
  | .notText kind => "can only concatenate str (not \"" ++ kind ++ "\") to str"
  | .abstract => ""
  | .markerLost => "the marker of an open rule application is gone"
  | .seedLost => "the seed of a growing rule application is gone"

end SeedPeg
