import MiniLisp.Decimal.Literal
import MiniLisp.Error

/-!
# Numbers

Integers are signed 64-bit words and floats are binary64. Arithmetic on two integers is exact or
fails, it never wraps; as soon as a float is involved, everything is a float.
-/

namespace MiniLisp

/-- The float nearest to an integer. -/
def realOf (n : Int64) : Float :=
  let magnitude := n.toInt.natAbs.toUInt64.toFloat
  if n < 0 then -magnitude else magnitude

/-- The order of two floats; NaN is ordered with nothing. -/
def orderReal (x y : Float) : Option Ordering :=
  if x < y then some .lt else if x == y then some .eq else if y < x then some .gt else none

/-- A final result, which may fail to fit a word. -/
def wordOr (operation : String) (n : Int) : Except Error Int64 :=
  match int64? n with
  | some w => .ok w
  | none => .error (.arithmetic (.overflow operation))

inductive Number where
  | int (n : Int64)
  | float (x : Float)
  deriving DecidableEq

namespace Number

def toReal : Number → Float
  | int n => realOf n
  | float x => x

/-- Two integers compare exactly, all other pairs as floats. -/
def order : Number → Number → Option Ordering
  | int m, int n => some (compare m.toInt n.toInt)
  | a, b => orderReal a.toReal b.toReal

/-- Whether `a` stands in one of the given orders to `b`; an unordered pair stands in none. -/
def stands (wanted : List Ordering) (a b : Number) : Bool :=
  match a.order b with
  | some o => wanted.contains o
  | none => false

/-- An exact integer operation where both operands are integers, a float operation elsewhere. -/
def combine (name : String) (exact : Int → Int → Int) (rounded : Float → Float → Float) :
    Number → Number → Except Error Number
  | int m, int n => (wordOr name (exact m.toInt n.toInt)).map int
  | a, b => .ok (float (rounded a.toReal b.toReal))

def add : Number → Number → Except Error Number := combine "addition" (· + ·) (· + ·)

def sub : Number → Number → Except Error Number := combine "subtraction" (· - ·) (· - ·)

def mul : Number → Number → Except Error Number := combine "multiplication" (· * ·) (· * ·)

/-- The quotient is a float whatever the operands; a divisor equal to zero is an error. -/
def div (a b : Number) : Except Error Float :=
  if b.toReal == 0 then .error (.arithmetic .divisionByZero) else .ok (a.toReal / b.toReal)

def abs : Number → Except Error Number
  | int n => (wordOr "abs" n.toInt.natAbs).map int
  | float x => .ok (float x.abs)

@[simp] theorem abs_int (n : Int64) : abs (int n) = (wordOr "abs" n.toInt.natAbs).map int := rfl

end Number

end MiniLisp
