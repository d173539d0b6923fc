import SeedPeg.Expr.Basic

/-!
# Distinct expressions

Comparing the expressions of a list with each other, and keeping one of those that are equal.
-/

namespace SeedPeg

/-- Whether a thing is equal to itself; only what is not a number is not. Its parts are not
    compared, since they are the same. -/
def Expr.equalsItself : Expr → Bool
  | .plain (.float .nan) => false
  | _ => true

/-- Which expressions of a list are equal, in rows. -/
def Expr.equalities (es : List Expr) : List (List Bool) :=
  es.zipIdx.map fun (e, i) => es.zipIdx.map fun (f, j) =>
    if i = j then e.equalsItself else e.equals f

/-- Some expressions and a further one, unless an equal one is among them. -/
def Expr.insertDistinct (es : List Expr) (e : Expr) : List Expr :=
  if es.any (·.equals e) then es else es ++ [e]

/-- The first of each expressions that are equal, in order; all must be keys. -/
def Expr.distinct (es : List Expr) : Except Fault (List Expr) :=
  if Expr.areKeys es then .ok (es.foldl Expr.insertDistinct []) else .error .listAsKey

end SeedPeg
