import SeedPeg.Expr.Basic

/-!
# Definitions

The notation in which a grammar can be written down with strings and tuples only. A string in
quotes is a literal and any other string the name of a rule; a tuple starts with the keyword of an
operator, which its operands follow. Expressions may stand in a definition as they are.
-/

namespace SeedPeg

/-- Text between two of the given quotes, without a quote in it; behind the second quote one line
    feed may follow. -/
def isQuotedWith (quote : Char) (cs : List Char) : Bool :=
  match cs with
  | [] => false
  | c :: rest =>
    let tail := rest.dropWhile (· ≠ quote)
    c == quote && (tail == [quote] || tail == [quote, '\n'])

/-- Text in single or in double quotes. -/
def isQuoted (cs : List Char) : Bool :=
  isQuotedWith Text.singleQuote cs || isQuotedWith Text.doubleQuote cs

/-- The expression for a string: a literal, which is quoted text without its first and its last
    character, or the rule that the string names. -/
def Expr.ofString (s : String) : Expr :=
  if isQuoted s.toList then .terminal (.str (String.ofList (s.toList.drop 1).dropLast))
  else .rule (.str s)

mutual

/-- The expression that a definition stands for. The head of a tuple is read before its operands
    and their number is checked after all of them are read. -/
def Expr.ofDefinition : Value → Except Fault Expr
  | .expr e => .ok e
  | .str s => .ok (.ofString s)
  | .tuple (head :: operands) =>
    if head.isKey then
      match Operator.ofValue? head with
      | some operator => do
        let operands ← Expr.ofDefinitions operands
        match operator.combine? operands with
        | some e => .ok e
        | none => .error (.operandCount operator operands.length)
      | none => .error (.unknownOperator (.tuple (head :: operands)))
    else .error .listAsKey
  | definition => .error (.unknownOperator definition)

/-- The expressions that some definitions stand for, up to the first that stands for none. -/
def Expr.ofDefinitions : List Value → Except Fault (List Expr)
  | [] => .ok []
  | definition :: rest => do
    let e ← Expr.ofDefinition definition
    let others ← Expr.ofDefinitions rest
    return e :: others

end

end SeedPeg
