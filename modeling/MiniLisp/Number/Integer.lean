import MiniLisp.Number

/-!
# Integer functions

Rounding, greatest common divisors and factorials of signed 64-bit words, computed in words
throughout. A result that no word holds is an arithmetic error; an intermediate one that no word
holds would be a defect, and does not occur.
-/

namespace MiniLisp

/-- An intermediate result, which is expected to fit a word. -/
def inWord (n : Int) : Except Error Int64 :=
  match int64? n with
  | some w => .ok w
  | none => .error (.internal .wordOverflow)

/-- Euclidean quotient and remainder. -/
def divMod (n d : Int64) : Except Error (Int64 × Int64) :=
  if d = 0 then .error (.internal .zeroDivisor)
  else do
    let quotient ← inWord (n.toInt / d.toInt)
    let remainder ← inWord (n.toInt % d.toInt)
    return (quotient, remainder)

/-- The powers of ten that fit a word. -/
def wordTenTo? (n : Nat) : Option Int64 :=
  if n ≤ 18 then some (Int64.ofNat (Nat.pow 10 n)) else none

/-- Rounds to the nearest multiple of `10 ^ (-digits)`, half to even. Where no word holds that power
of ten, everything rounds to zero. -/
def roundWord (n digits : Int64) : Except Error Int64 :=
  if 0 ≤ digits then .ok n
  else
    match wordTenTo? digits.toInt.natAbs with
    | none => .ok 0
    | some scale => do
      let (quotient, remainder) ← divMod n scale
      let twice ← inWord (remainder.toInt * 2)
      let up := scale < twice || (twice == scale && quotient.toInt % 2 != 0)
      let rounded ← if up then inWord (quotient.toInt + 1) else .ok quotient
      wordOr "round" (rounded.toInt * scale.toInt)

/-- The absolute value as an unsigned word, which every word has. -/
def magnitude (n : Int64) : UInt64 := n.toInt.natAbs.toUInt64

/-- The remainder of a division of unsigned words. -/
def modulo (x y : UInt64) : Except Error UInt64 :=
  if y = 0 then .error (.internal .zeroDivisor) else .ok (x % y)

/-- Remainders are smaller than what they are divided by. -/
theorem modulo_lt {x y r : UInt64} (h : modulo x y = .ok r) : r.toNat < y.toNat := by
  unfold modulo at h
  split at h
  · cases h
  · rename_i hy
    cases h
    rw [UInt64.toNat_mod]
    exact Nat.mod_lt _ (Nat.pos_of_ne_zero fun h0 => hy (UInt64.toNat_inj.1 (by simpa using h0)))

/-- Euclid's algorithm. -/
def euclid (x y : UInt64) : Except Error UInt64 :=
  if y = 0 then .ok x
  else
    match _h : modulo x y with
    | .error e => .error e
    | .ok r => euclid y r
termination_by y.toNat
decreasing_by exact modulo_lt _h

def gcd (a b : Int64) : Except Error Int64 := do
  let divisor ← euclid (magnitude a) (magnitude b)
  wordOr "gcd" divisor.toNat

/-- `acc * i * (i + 1) * ⋯ * n`, given up at the first product that does not fit. -/
def productTo (n : Nat) (acc : Int64) (i : Nat) : Except Error Int64 :=
  if i ≤ n then do
    let product ← wordOr "factorial" (acc.toInt * i)
    productTo n product (i + 1)
  else .ok acc
termination_by n + 1 - i

def factorial (n : Int64) : Except Error Int64 :=
  if n < 0 then .error (.arithmetic .negativeFactorial) else productTo n.toInt.toNat 1 2

end MiniLisp
