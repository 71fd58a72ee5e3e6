/-!
# Shortest decimals

A finite positive float is `m * 2 ^ q`. The reals that round to it form an interval, whose
ends belong to it when `m` is even. `shortest` is the point of that interval with the fewest
digits: the multiple of the largest power of ten that falls inside, and of several such
multiples the one nearest to the float. Everything is decided in exact natural numbers.
-/

namespace MiniLisp.Decimal

/-- The value `digits * 10 ^ exponent`. -/
structure Scientific where
  digits : Nat
  exponent : Int
  deriving DecidableEq

/-- A positive float `significand * 2 ^ exponent`; `tight` says that the float below it is only
half as far away as the one above, which happens at a power of two. -/
structure Binary where
  significand : Nat
  exponent : Int
  tight : Bool
  deriving DecidableEq

/-- Whether a float has its sign bit set, as `-0.0` has. -/
def isNegative (x : Float) : Bool := 0x8000000000000000 ≤ x.toBits.toNat

/-- Splits a finite float, whatever its sign, into its significand and exponent. -/
def Binary.ofFloat (x : Float) : Binary :=
  let bits := x.toBits.toNat
  let field : Nat := bits / 0x10000000000000 % 0x800
  let fraction := bits % 0x10000000000000
  if field = 0 then ⟨fraction, -1074, false⟩
  else ⟨0x10000000000000 + fraction, (field : Int) - 1075, fraction == 0 && 1 < field⟩

/-- `n * 2 ^ twos * 10 ^ (-tens)` as a numerator over a denominator, both natural. -/
def scaled (n : Nat) (twos tens : Int) : Nat × Nat :=
  ((n <<< twos.toNat) * Nat.pow 10 (-tens).toNat, Nat.pow 10 tens.toNat <<< (-twos).toNat)

/-- Whether the multiple `c * 10 ^ k` rounds to the float `b`. -/
def Binary.holds (b : Binary) (k : Int) (c : Nat) : Bool :=
  let (low, den) := scaled (4 * b.significand - if b.tight then 1 else 2) (b.exponent - 2) k
  let (high, _) := scaled (4 * b.significand + 2) (b.exponent - 2) k
  if b.significand % 2 = 0 then low ≤ c * den && c * den ≤ high
  else low < c * den && c * den < high

/-- The multiple of `10 ^ k` that rounds to the float and lies nearest to it, of two equally near
ones the larger. Only the two neighbours of the float on that grid can be it. -/
def Binary.onGrid (b : Binary) (k : Int) : Option Nat :=
  let (num, den) := scaled b.significand b.exponent k
  let below := num / den
  match b.holds k below, b.holds k (below + 1) with
  | true, true => some (if 2 * (num % den) < den then below else below + 1)
  | true, false => some below
  | false, true => some (below + 1)
  | false, false => none

/-- A power of ten above the float: `log₁₀ 2` lies below `30103 / 100000`. -/
def Binary.magnitude (b : Binary) : Int :=
  (b.significand.log2 + 1 + b.exponent) * 30103 / 100000 + 1

/-- The shortest decimal that rounds to the float: grids are tried from coarse to fine, and 17
digits always suffice. -/
def Binary.shortest (b : Binary) : Scientific :=
  let grids := (List.range 21).map fun i : Nat => b.magnitude - i
  (grids.findSome? fun k => (b.onGrid k).map fun c => ⟨c, k⟩).getD ⟨0, 0⟩

end MiniLisp.Decimal
