import SeedPeg.Value.Basic

/-!
# Syntax trees

What an expression returns when it matches: a literal as it was written, a list of trees, or the
mark of a lookahead. `toValue` is the form in which a tree is handed out.
-/

namespace SeedPeg

/-- A concrete syntax tree. -/
inductive Tree where
  /-- The literal that was matched, whole. -/
  | leaf (literal : Value)
  /-- The trees of the parts. -/
  | node (children : List Tree)
  /-- The mark of a lookahead that succeeded. -/
  | lookahead

namespace Tree

mutual

/-- A tree as a value: nested lists of literals, with true for a lookahead. -/
def toValue : Tree → Value
  | .leaf literal => literal
  | .node children => .list (toValues children)
  | .lookahead => .bool true

def toValues : List Tree → List Value
  | [] => []
  | tree :: rest => tree.toValue :: toValues rest

end

end Tree

/-- The value of a result: of its tree, or the absent value for a mismatch. -/
def resultValue : Option Tree → Value
  | some tree => tree.toValue
  | none => .none

end SeedPeg
