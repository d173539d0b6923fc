/-!
# Numbers

The numbers that symbols and limits can be: an integer times a power of two, an infinity, or no
number at all. Integers and binary fractions are compared here by exact value, without rounding
either of them to the other's form.
-/

namespace SeedPeg

/-- `mantissa * 2 ^ exponent` with a sign (so there are two zeros), an infinity, or not a
    number. -/
inductive Number where
  | nan
  | infinite (negative : Bool)
  | finite (negative : Bool) (mantissa : Nat) (exponent : Int)
  deriving DecidableEq

namespace Number

/-- The integer with its own sign and no scaling. -/
def ofInt (n : Int) : Number := .finite (n < 0) n.natAbs 0

/-- The number that 64 bits stand for in the binary double format: a sign, eleven bits of biased
    exponent and 52 bits of fraction. -/
def ofBits (bits : UInt64) : Number :=
  let negative := bits >>> 63 == 1
  let biased := ((bits >>> 52) &&& 0x7ff).toNat
  let fraction := (bits &&& 0xfffffffffffff).toNat
  if biased = 0x7ff then if fraction = 0 then .infinite negative else .nan
  else if biased = 0 then .finite negative fraction (-1074)
  else .finite negative (0x10000000000000 + fraction) (biased - 1075)

/-- The integer that a sign and a size make. -/
def signed (negative : Bool) (size : Nat) : Int := if negative then -(size : Int) else size

/-- How `m * 2 ^ i` compares with `n * 2 ^ j`: the one with the greater exponent is brought to
    the smaller one. -/
def compareFinite (m : Int) (i : Int) (n : Int) (j : Int) : Ordering :=
  compare (m * (Nat.pow 2 (i - j).toNat : Nat)) (n * (Nat.pow 2 (j - i).toNat : Nat))

/-- How two numbers compare by value; nothing compares with what is not a number. -/
def compare? : Number → Number → Option Ordering
  | .nan, _ => none
  | _, .nan => none
  | .infinite a, .infinite b => some (compare b.toNat a.toNat)
  | .infinite a, .finite .. => some (if a then .lt else .gt)
  | .finite .., .infinite b => some (if b then .gt else .lt)
  | .finite a m i, .finite b n j => some (compareFinite (signed a m) i (signed b n) j)

/-- Whether two numbers have the same value; the two zeros do. -/
def agrees (x y : Number) : Bool := x.compare? y == some .eq

/-- Whether a number is at most another. -/
def atMost (x y : Number) : Bool := x.compare? y == some .lt || x.compare? y == some .eq

def isBelow (x y : Number) : Bool := x.compare? y == some .lt

def isZero : Number → Bool
  | .finite _ 0 _ => true
  | _ => false

theorem signed_natAbs (n : Int) : signed (decide (n < 0)) n.natAbs = n := by
  simp only [signed, decide_eq_true_eq]
  split <;> omega

theorem agrees_ofInt (m n : Int) : (ofInt m).agrees (ofInt n) = decide (m = n) := by
  rw [Bool.eq_iff_iff]
  simp [agrees, compare?, ofInt, compareFinite, signed_natAbs]

theorem atMost_ofInt (m n : Int) : (ofInt m).atMost (ofInt n) = decide (m ≤ n) := by
  rw [Bool.eq_iff_iff]
  simp [atMost, compare?, ofInt, compareFinite, signed_natAbs, Int.compare_eq_lt, Int.le_iff_lt_or_eq]

end Number

end SeedPeg
