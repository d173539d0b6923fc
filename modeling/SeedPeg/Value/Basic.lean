import SeedPeg.Number.Basic

/-!
# Values and parsing expressions

A value is a symbol of an input, a literal, the name of a rule or the definition of one. A parsing
expression is built from literals and rule names by the operators of parsing expression grammars.
The two types refer to each other: literals and names are values, and an expression can stand in
a value, such as a definition that is built already.
-/

namespace SeedPeg

mutual

/-- A symbol, literal, name or definition. -/
inductive Value where
  | none
  | bool (b : Bool)
  | int (n : Int)
  | float (x : Number)
  | str (s : String)
  | bytes (bs : List UInt8)
  | list (items : List Value)
  | tuple (items : List Value)
  | expr (e : Expr)

/-- A parsing expression. -/
inductive Expr where
  /-- Matches the symbols of a literal one by one. -/
  | terminal (literal : Value)
  /-- Applies the rule of a name. -/
  | rule (name : Value)
  /-- Matches its items one after the other. -/
  | sequence (items : List Expr)
  /-- Matches the first alternative that matches. -/
  | choice (alternatives : List Expr)
  /-- Matches the element as often as it matches and consumes. -/
  | star (element : Expr)
  /-- Matches the element once and then as often as it matches and consumes. -/
  | plus (element : Expr)
  /-- Matches the element or nothing. -/
  | optional (element : Expr)
  /-- Succeeds without moving if the element matches. -/
  | ahead (element : Expr)
  /-- Succeeds without moving if the element fails. -/
  | notAhead (element : Expr)
  /-- The expression of no kind, which cannot be evaluated. -/
  | bare
  /-- A value that stands where an expression should. -/
  | plain (value : Value)

end

instance : Inhabited Value := ⟨.none⟩

instance : Inhabited Expr := ⟨.bare⟩

/-- The expression that a value holds, or the value in an expression's place. -/
def Expr.ofValue : Value → Expr
  | .expr e => e
  | value => .plain value

/-- The value that holds an expression; a value in an expression's place is that value. -/
def Expr.toValue : Expr → Value
  | .plain value => value
  | e => .expr e

/-- The string of one character. -/
def Value.ofChar (c : Char) : Value := .str (String.ofList [c])

/-- The symbols that a value is made of: the characters of a string, the bytes as integers, or
    the items; `none` for a value that is not made of symbols. -/
def Value.symbols? : Value → Option (List Value)
  | .str s => some (s.toList.map .ofChar)
  | .bytes bs => some (bs.map fun b => .int b.toNat)
  | .list items => some items
  | .tuple items => some items
  | _ => Option.none

/-- Whether a value turns a switch on: the absent value, zero and what is empty do not, anything
    else does. -/
def Value.isOn : Value → Bool
  | .none => false
  | .bool b => b
  | .int n => n ≠ 0
  | .float x => !x.isZero
  | .str s => !s.isEmpty
  | .bytes bs => !bs.isEmpty
  | .list items => !items.isEmpty
  | .tuple items => !items.isEmpty
  | .expr _ => true

mutual

/-- Whether a value can be a key: no list occurs in it. -/
def Value.isKey : Value → Bool
  | .list _ => false
  | .tuple items => Value.areKeys items
  | .expr e => e.isKey
  | _ => true

def Value.areKeys : List Value → Bool
  | [] => true
  | value :: rest => value.isKey && Value.areKeys rest

/-- Whether an expression can be a key: no list occurs in its literals and names. -/
def Expr.isKey : Expr → Bool
  | .terminal literal => literal.isKey
  | .rule name => name.isKey
  | .sequence items => Expr.areKeys items
  | .choice alternatives => Expr.areKeys alternatives
  | .star element => element.isKey
  | .plus element => element.isKey
  | .optional element => element.isKey
  | .ahead element => element.isKey
  | .notAhead element => element.isKey
  | .bare => true
  | .plain value => value.isKey

def Expr.areKeys : List Expr → Bool
  | [] => true
  | e :: rest => e.isKey && Expr.areKeys rest

end

end SeedPeg
