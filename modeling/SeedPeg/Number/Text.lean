import SeedPeg.Number.Basic

/-!
# The text of a number

A binary fraction is written with the fewest decimal digits that read back to it, and of those
the nearest to it. `Decimal.readsBack` is the test, `shortest` the search on ever finer decimal
grids, and `Number.text` the layout: positional from a ten-thousandth up to ten to the sixteenth,
otherwise with an exponent of at least two digits.
-/

namespace SeedPeg

/-- `digits * 10 ^ exponent`. -/
structure Decimal where
  digits : Nat
  exponent : Int
  deriving DecidableEq

namespace Decimal

/-- How `digits * 10 ^ exponent` compares with `m * 2 ^ q`. -/
def compareBinary (d : Decimal) (m : Nat) (q : Int) : Ordering :=
  compare (d.digits * Nat.pow 10 d.exponent.toNat * Nat.pow 2 (-q).toNat)
    (m * Nat.pow 2 q.toNat * Nat.pow 10 (-d.exponent).toNat)

/-- Whether a decimal rounds to `m * 2 ^ q`: it lies within half the gap to either neighbour,
    and on the edge only if `m` is even. The gap below a power of two is half as wide. -/
def readsBack (d : Decimal) (m : Nat) (q : Int) : Bool :=
  let narrow := m == 0x10000000000000 && q > -1074
  let above := d.compareBinary (if narrow then 4 * m - 1 else 4 * m - 2) (q - 2)
  let below := d.compareBinary (4 * m + 2) (q - 2)
  let edges := m % 2 == 0
  (above == .gt || edges && above == .eq) && (below == .lt || edges && below == .eq)

/-- The least power of ten above `m * 2 ^ q`, near the estimate that its binary length gives. -/
def scale (m : Nat) (q : Int) : Int :=
  let estimate := (m.log2 + q) * 30103 / 100000
  let powers := [estimate - 1, estimate, estimate + 1]
  (powers.find? fun k => compareBinary ⟨1, k⟩ m q == .gt).getD (estimate + 2)

/-- The multiple of `10 ^ exponent` that reads back to `m * 2 ^ q`, of the two around it: the
    nearer if both do, and the even one if both are equally near. -/
def onGrid? (m : Nat) (q : Int) (exponent : Int) : Option Decimal :=
  let count := m * Nat.pow 2 q.toNat * Nat.pow 10 (-exponent).toNat /
    (Nat.pow 2 (-q).toNat * Nat.pow 10 exponent.toNat)
  let lower : Decimal := ⟨count, exponent⟩
  let upper : Decimal := ⟨count + 1, exponent⟩
  match lower.readsBack m q, upper.readsBack m q with
  | false, false => none
  | true, false => some lower
  | false, true => some upper
  | true, true =>
    match compareBinary ⟨2 * count + 1, exponent⟩ (2 * m) q with
    | .lt => some upper
    | .gt => some lower
    | .eq => some (if count % 2 = 0 then lower else upper)

/-- The same decimal without the zeros that its digits end in, of which `bound` are taken. -/
def strip : Nat → Decimal → Decimal
  | 0, d => d
  | bound + 1, d =>
    if d.digits % 10 = 0 then strip bound ⟨d.digits / 10, d.exponent + 1⟩ else d

/-- The exact value of `m * 2 ^ q`. -/
def exact (m : Nat) (q : Int) : Decimal :=
  ⟨m * Nat.pow 2 q.toNat * Nat.pow 5 (-q).toNat, if q < 0 then q else 0⟩

/-- The decimal of fewest digits that reads back to `m * 2 ^ q`, for `m` above zero. -/
def shortest (m : Nat) (q : Int) : Decimal :=
  let top := scale m q
  let found := (List.range 17).findSome? fun (n : Nat) => onGrid? m q (top - (n + 1))
  strip 18 (found.getD (exact m q))

/-- The digits laid out: positionally if the first one stands for a power of ten from -4 to 15,
    otherwise as one digit, the rest of them, and an exponent. -/
def text (d : Decimal) : String :=
  let digits := Nat.toDigits 10 d.digits
  let lead := digits.length + d.exponent - 1
  let zeros (n : Int) : List Char := List.replicate n.toNat '0'
  String.ofList <|
    if lead < -4 ∨ 16 ≤ lead then
      let fraction := if digits.length = 1 then [] else '.' :: digits.drop 1
      let power := Nat.toDigits 10 lead.natAbs
      let mark := if lead < 0 then ['e', '-'] else ['e', '+']
      digits.take 1 ++ fraction ++ mark ++ zeros (2 - power.length) ++ power
    else if lead < 0 then
      '0' :: '.' :: zeros (-lead - 1) ++ digits
    else
      let whole := digits ++ zeros (lead + 1 - digits.length)
      let fraction := digits.drop (lead + 1).toNat
      whole.take (lead + 1).toNat ++ '.' :: (if fraction.isEmpty then ['0'] else fraction)

end Decimal

/-- A number as it is displayed; a whole one keeps a point and a zero. -/
def Number.text : Number → String
  | .nan => "nan"
  | .infinite negative => if negative then "-inf" else "inf"
  | .finite negative m q =>
    let size := if m = 0 then "0.0" else (Decimal.shortest m q).text
    if negative then "-" ++ size else size

end SeedPeg
