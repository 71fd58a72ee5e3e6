/-!
# Primitive procedures

The names of the procedures that the language provides and that never call another procedure.
What they do is said in `Builtin`; values refer to them by these names.
-/

namespace MiniLisp

inductive Comparison where
  | above | below | notBelow | notAbove
  deriving DecidableEq, Repr

/-- Which end of the order `min` and `max` look for. -/
inductive Extremum where
  | least | greatest
  deriving DecidableEq, Repr

/-- Questions about one value of any type. -/
inductive Test where
  | number | symbol | list | procedure | null | not
  deriving DecidableEq, Repr

/-- Functions of one float whose result is checked. -/
inductive Elementary where
  | sqrt | exp | log10 | log2 | log1p | expm1
  | sin | cos | tan | asin | acos | atan
  | sinh | cosh | tanh | asinh | acosh | atanh
  | degrees | radians | fabs
  deriving DecidableEq, Repr

/-- Functions of two floats whose result is checked. -/
inductive Dyadic where
  | atan2 | hypot | pow | fmod
  deriving DecidableEq, Repr

/-- Ways to turn a float into an integer. -/
inductive Rounding where
  | floor | ceil | trunc
  deriving DecidableEq, Repr

/-- Questions about one float. -/
inductive FloatClass where
  | nan | infinite | finite
  deriving DecidableEq, Repr

inductive Primitive where
  | add | sub | mul | div | abs | expt
  | extremum (e : Extremum)
  | round
  | compare (c : Comparison)
  | numericEqual | equal | identical
  | car | cdr | cons | list | length
  | test (t : Test)
  | sequence | print
  | elementary (f : Elementary)
  | log
  | toInteger (r : Rounding)
  | dyadic (f : Dyadic)
  | copysign | factorial | gcd
  | classify (c : FloatClass)
  deriving DecidableEq, Repr

/-- Procedures that call the procedures they are given. -/
inductive Higher where
  | apply | map
  deriving DecidableEq, Repr

namespace Comparison

def all : List Comparison := [above, below, notBelow, notAbove]

def name : Comparison → String
  | above => ">"
  | below => "<"
  | notBelow => ">="
  | notAbove => "<="

/-- The orders in which the first operand may stand to the second. -/
def orders : Comparison → List Ordering
  | above => [.gt]
  | below => [.lt]
  | notBelow => [.gt, .eq]
  | notAbove => [.lt, .eq]

end Comparison

namespace Extremum

def all : List Extremum := [least, greatest]

def name : Extremum → String
  | least => "min"
  | greatest => "max"

/-- How a candidate must stand to the best one so far in order to replace it. -/
def better : Extremum → Ordering
  | least => .lt
  | greatest => .gt

end Extremum

namespace Test

def all : List Test := [number, symbol, list, procedure, null, not]

def name : Test → String
  | number => "number?"
  | symbol => "symbol?"
  | list => "list?"
  | procedure => "procedure?"
  | null => "null?"
  | not => "not"

end Test

namespace Elementary

def all : List Elementary :=
  [sqrt, exp, log10, log2, log1p, expm1, sin, cos, tan, asin, acos, atan, sinh, cosh, tanh, asinh,
    acosh, atanh, degrees, radians, fabs]

def name : Elementary → String
  | sqrt => "sqrt"
  | exp => "exp"
  | log10 => "log10"
  | log2 => "log2"
  | log1p => "log1p"
  | expm1 => "expm1"
  | sin => "sin"
  | cos => "cos"
  | tan => "tan"
  | asin => "asin"
  | acos => "acos"
  | atan => "atan"
  | sinh => "sinh"
  | cosh => "cosh"
  | tanh => "tanh"
  | asinh => "asinh"
  | acosh => "acosh"
  | atanh => "atanh"
  | degrees => "degrees"
  | radians => "radians"
  | fabs => "fabs"

end Elementary

namespace Dyadic

def all : List Dyadic := [atan2, hypot, pow, fmod]

def name : Dyadic → String
  | atan2 => "atan2"
  | hypot => "hypot"
  | pow => "pow"
  | fmod => "fmod"

end Dyadic

namespace Rounding

def all : List Rounding := [floor, ceil, trunc]

def name : Rounding → String
  | floor => "floor"
  | ceil => "ceil"
  | trunc => "trunc"

end Rounding

namespace FloatClass

def all : List FloatClass := [nan, infinite, finite]

def name : FloatClass → String
  | nan => "isnan"
  | infinite => "isinf"
  | finite => "isfinite"

end FloatClass

namespace Primitive

def all : List Primitive :=
  [add, sub, mul, div, abs, expt, round, numericEqual, equal, identical, car, cdr, cons, list,
    length, sequence, print, log, copysign, factorial, gcd] ++
  Extremum.all.map extremum ++ Comparison.all.map compare ++ Test.all.map test ++
  Elementary.all.map elementary ++ Rounding.all.map toInteger ++ Dyadic.all.map dyadic ++
  FloatClass.all.map classify

theorem mem_all (p : Primitive) : p ∈ all := by
  cases p
  case extremum e => cases e <;> decide
  case compare c => cases c <;> decide
  case test t => cases t <;> decide
  case elementary f => cases f <;> decide
  case toInteger r => cases r <;> decide
  case dyadic f => cases f <;> decide
  case classify c => cases c <;> decide
  all_goals decide

/-- The name that a primitive is bound to in a standard frame. -/
def name : Primitive → String
  | add => "+"
  | sub => "-"
  | mul => "*"
  | div => "/"
  | abs => "abs"
  | expt => "expt"
  | extremum e => e.name
  | round => "round"
  | compare c => c.name
  | numericEqual => "="
  | equal => "equal?"
  | identical => "eq?"
  | car => "car"
  | cdr => "cdr"
  | cons => "cons"
  | list => "list"
  | length => "length"
  | test t => t.name
  | sequence => "begin"
  | print => "print"
  | elementary f => f.name
  | log => "log"
  | toInteger r => r.name
  | dyadic f => f.name
  | copysign => "copysign"
  | factorial => "factorial"
  | gcd => "gcd"
  | classify c => c.name

end Primitive

namespace Higher

def all : List Higher := [apply, map]

def name : Higher → String
  | apply => "apply"
  | map => "map"

end Higher

end MiniLisp
