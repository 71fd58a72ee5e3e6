import MiniLisp.Decimal.Shortest
import MiniLisp.Error

/-!
# Float functions

Rounding to whole numbers and to decimal places, remainders and hypotenuses. Each is built from
the correctly rounded operations and from exact natural numbers, so that its results are the same
everywhere; only the elementary functions of `Number.Elementary` are left to the platform.
-/

namespace MiniLisp

namespace Real

def nan : Float := 0.0 / 0.0

def infinity : Float := 1.0 / 0.0

/-- The magnitude of `x` with the sign of `y`. As the single NaN has no sign, it counts as
positive, also where it was written `-nan`. -/
def copySign (x y : Float) : Float := if Decimal.isNegative y then -x.abs else x.abs

/-- `2 ^ 52`, from which on all floats are whole. -/
def wholeFrom : Float := 4503599627370496

/-- Rounds toward zero. -/
def trunc (x : Float) : Float :=
  if x.abs < wholeFrom then copySign x.abs.toUInt64.toFloat x else x

def floor (x : Float) : Float :=
  let t := trunc x
  if x < t then t - 1 else t

def ceil (x : Float) : Float :=
  let t := trunc x
  if t < x then t + 1 else t

/-- Rounds to the nearest whole number, half to even. Adding `2 ^ 52` leaves no place for a
fraction, so that the sum is rounded in exactly this way. -/
def roundHalfEven (x : Float) : Float :=
  if x.abs < wholeFrom then copySign (x.abs + wholeFrom - wholeFrom) x else x

/-- The integer that a whole float is. -/
def toInteger (name : String) (x : Float) : Except Error Int64 :=
  if x.isNaN then .error (.arithmetic (.nanToInteger name))
  else if -9223372036854775808 ≤ x ∧ x < 9223372036854775808 then
    let n : Int := x.abs.toUInt64.toNat
    .ok (Int64.ofInt (if x < 0 then -n else n))
  else .error (.arithmetic (.outOfIntegerRange name x))

/-- `r * a ^ n` by squaring, rounding after each multiplication. -/
def powerFrom (r a : Float) (n : Nat) : Float :=
  let r := if n % 2 = 1 then r * a else r
  if n / 2 = 0 then r else powerFrom r (a * a) (n / 2)
termination_by n
decreasing_by omega

/-- `10 ^ n`, as close as repeated squaring comes. -/
def tenTo (n : Nat) : Float := powerFrom 1 10 n

/-- Rounds to `digits` decimal places, which may be negative, half to even. The scale stays finite,
and where scaling up leaves the finite range there are no places to round. -/
def roundTo (x : Float) (digits : Int64) : Float :=
  if x.isFinite then
    let places := max (-308) (min 308 digits.toInt)
    let scale := tenTo places.natAbs
    if 0 ≤ places then
      let rounded := roundHalfEven (x * scale) / scale
      if rounded.isFinite then rounded else x
    else roundHalfEven (x / scale) * scale
  else x

/-- `2 ^ e`, for exponents from the smallest subnormal to the largest finite power. -/
def twoTo (e : Int) : Float :=
  if e < -1022 then Float.ofBits (1 <<< (e + 1074).toNat.toUInt64)
  else Float.ofBits ((e + 1023).toNat.toUInt64 <<< 52)

/-- `n * 2 ^ e` for an `n` of at most 53 bits. -/
def scale (n : Nat) (e : Int) : Float := n.toUInt64.toFloat * twoTo e

/-- The remainder of a division rounded toward zero; it is exact and has the sign of `x`. -/
def remainder (x y : Float) : Float :=
  if x.isNaN || y.isNaN || x.isInf || y == 0 then nan
  else if y.isInf then x
  else
    let a := Decimal.Binary.ofFloat x
    let b := Decimal.Binary.ofFloat y
    let e := min a.exponent b.exponent
    let r := (a.significand <<< (a.exponent - e).toNat) %
      (b.significand <<< (b.exponent - e).toNat)
    copySign (scale r e) x

/-- The largest natural number whose square is at most `n`, found two bits of `n` at a time. -/
def sqrtFrom : Nat → Nat → Nat
  | 0, _ => 0
  | pairs + 1, n =>
    let r := 2 * sqrtFrom pairs (n / 4)
    if (r + 1) * (r + 1) ≤ n then r + 1 else r

def natSqrt (n : Nat) : Nat := sqrtFrom (n.log2 / 2 + 1) n

/-- The float nearest to the square root of `n * 4 ^ e`. The unit `2 ^ u` of the result is the
finest that 53 bits allow. -/
def rootOf (n : Nat) (e : Int) : Float :=
  let u := max (-1074) (e + (natSqrt n).log2 - 52)
  let num := n <<< (2 * (e - u).toNat)
  let den := 1 <<< (2 * (u - e).toNat)
  let r := natSqrt (num / den)
  let half := (2 * r + 1) * (2 * r + 1) * den
  let up := half < 4 * num || (half == 4 * num && r % 2 == 1)
  scale (if up then r + 1 else r) u

/-- The length of the hypotenuse, correctly rounded. -/
def hypotenuse (x y : Float) : Float :=
  if x.isInf || y.isInf then infinity
  else if x.isNaN || y.isNaN then nan
  else
    let a := Decimal.Binary.ofFloat x
    let b := Decimal.Binary.ofFloat y
    let e := min a.exponent b.exponent
    let p := a.significand <<< (a.exponent - e).toNat
    let q := b.significand <<< (b.exponent - e).toNat
    rootOf (p * p + q * q) e

end Real

end MiniLisp
