import SeedPeg.Value.Basic
import SeedPeg.Number.Text
import SeedPeg.Text.Quoted

/-!
# The display of values and expressions

`display` is the form in which a value stands inside other values, where strings are quoted;
`text` is its form in a message, where a string stands for itself. An expression is displayed as
the name of its kind and, in brackets, what it is built from.
-/

namespace SeedPeg

/-- The name of the kind of an expression; `none` for a value in an expression's place. -/
def Expr.kindName? : Expr → Option String
  | .terminal _ => some "Terminal"
  | .rule _ => some "RuleApplication"
  | .sequence _ => some "Sequence"
  | .choice _ => some "Choice"
  | .star _ => some "Repetition"
  | .plus _ => some "OneOrMore"
  | .optional _ => some "ZeroOrOne"
  | .ahead _ => some "And"
  | .notAhead _ => some "Not"
  | .bare => some "Expression"
  | .plain _ => none

mutual

/-- The name of the kind of a value. -/
def Value.kindName : Value → String
  | .none => "NoneType"
  | .bool _ => "bool"
  | .int _ => "int"
  | .float _ => "float"
  | .str _ => "str"
  | .bytes _ => "bytes"
  | .list _ => "list"
  | .tuple _ => "tuple"
  | .expr e => e.kindName

/-- The name of the kind of an expression or of the value in its place. -/
def Expr.kindName : Expr → String
  | .plain value => value.kindName
  | e => e.kindName?.getD ""

end

/-- Some displays with a comma and a blank between them. -/
def commaSeparated (parts : List String) : String := String.intercalate ", " parts

/-- Parts in round brackets, a single one with a comma behind it. -/
def inBrackets : List String → String
  | [part] => "(" ++ part ++ ",)"
  | parts => "(" ++ commaSeparated parts ++ ")"

mutual

/-- A value as it stands inside other values. -/
def Value.display : Value → String
  | .none => "None"
  | .bool b => if b then "True" else "False"
  | .int n => toString n
  | .float x => x.text
  | .str s => Text.quotedString s
  | .bytes bs => Text.quotedBytes bs
  | .list items => "[" ++ commaSeparated (Value.displayAll items) ++ "]"
  | .tuple items => inBrackets (Value.displayAll items)
  | .expr e => e.display

def Value.displayAll : List Value → List String
  | [] => []
  | value :: rest => value.display :: Value.displayAll rest

/-- An expression as the name of its kind and what it is built from. -/
def Expr.display : Expr → String
  | .terminal literal => "Terminal(" ++ literal.display ++ ")"
  | .rule name => "RuleApplication(" ++ name.display ++ ")"
  | .sequence items => "Sequence(" ++ commaSeparated (Expr.displayAll items) ++ ")"
  | .choice alternatives => "Choice(" ++ commaSeparated (Expr.displayAll alternatives) ++ ")"
  | .star element => "Repetition(" ++ element.display ++ ")"
  | .plus element => "OneOrMore(" ++ element.display ++ ")"
  | .optional element => "ZeroOrOne(" ++ element.display ++ ")"
  | .ahead element => "And(" ++ element.display ++ ")"
  | .notAhead element => "Not(" ++ element.display ++ ")"
  | .bare => "Expression()"
  | .plain value => value.display

def Expr.displayAll : List Expr → List String
  | [] => []
  | e :: rest => e.display :: Expr.displayAll rest

end

/-- A value as it stands in a message. -/
def Value.text : Value → String
  | .str s => s
  | value => value.display

/-- A value on one line: a string without its later lines, anything else as it is displayed. -/
def Value.oneLine : Value → String
  | .str s => Text.oneLine s
  | value => value.display

end SeedPeg
