import MiniLisp.Number
import MiniLisp.Number.Real
import MiniLisp.Primitive

/-!
# Elementary functions

Roots, powers, logarithms and the trigonometric and hyperbolic functions. No NaN and no infinity
leaves them unless one went in: a NaN from other arguments is a domain error, an infinity from
finite arguments a range error.
-/

namespace MiniLisp

/-- Lets a raw result through unless it is a NaN or an infinity that the inputs do not explain. -/
def checked (name : String) (inputs : List Float) (result : Float) : Except Error Float :=
  if result.isNaN && !inputs.any Float.isNaN then .error (.arithmetic (.domain name))
  else if result.isInf && inputs.all Float.isFinite then .error (.arithmetic (.range name))
  else .ok result

namespace Real

def pi : Float := Float.ofBits 0x400921FB54442D18

def e : Float := Float.ofBits 0x4005BF0A8B145769

def tau : Float := Float.ofBits 0x401921FB54442D18

/-- `log (1 + x)`, corrected by what was lost when `1 + x` was rounded. -/
def log1p (x : Float) : Float :=
  let u := 1 + x
  if u == 1 then x
  else if u == 0 || u.isInf then u.log
  else u.log - (u - 1 - x) / u

/-- `exp x - 1`. Near zero the difference keeps few digits, but the logarithm of the rounded
exponential tells what to correct them by. -/
def expm1 (x : Float) : Float :=
  let u := x.exp
  if u == 1 then x
  else if u.isInf then u
  else if u - 1 == -1 then -1
  else (u - 1) * (x / u.log)

def atanh (x : Float) : Float := 0.5 * log1p (2 * x / (1 - x))

end Real

/-- The raw result of a function of one float. `asinh` and `acosh` are functions of the platform that
are accurate everywhere: they neither square nor double their argument, as the formulas with a
logarithm do, and are finite up to the largest float (`asinh 1e308` is about 709.89). The arguments
of `atanh` lie between `-1` and `1`, and for them the formula will do. -/
def Elementary.raw : Elementary → Float → Float
  | sqrt, x => x.sqrt
  | exp, x => x.exp
  | log10, x => x.log10
  | log2, x => x.log2
  | log1p, x => Real.log1p x
  | expm1, x => Real.expm1 x
  | sin, x => x.sin
  | cos, x => x.cos
  | tan, x => x.tan
  | asin, x => x.asin
  | acos, x => x.acos
  | atan, x => x.atan
  | sinh, x => x.sinh
  | cosh, x => x.cosh
  | tanh, x => x.tanh
  | asinh, x => x.asinh
  | acosh, x => x.acosh
  | atanh, x => Real.atanh x
  | degrees, x => x * (180 / Real.pi)
  | radians, x => x * (Real.pi / 180)
  | fabs, x => x.abs

def Elementary.run (f : Elementary) (x : Float) : Except Error Float :=
  checked f.name [x] (f.raw x)

/-- The raw result of a function of two floats. -/
def Dyadic.raw : Dyadic → Float → Float → Float
  | atan2, y, x => y.atan2 x
  | hypot, x, y => Real.hypotenuse x y
  | pow, x, y => x.pow y
  | fmod, x, y => Real.remainder x y

def Dyadic.run (f : Dyadic) (x y : Float) : Except Error Float :=
  checked f.name [x, y] (f.raw x y)

/-- The natural logarithm, or the logarithm to the first of the given bases. -/
def logarithm (x : Float) : List Number → Except Error Float
  | [] => checked "log" [x] x.log
  | base :: _ => checked "log" [x, base.toReal] (x.log / base.toReal.log)

def FloatClass.holds : FloatClass → Float → Bool
  | nan, x => x.isNaN
  | infinite, x => x.isInf
  | finite, x => x.isFinite

/-- The integer next to a number in the given direction; integers are their own. -/
def Rounding.run (r : Rounding) : Number → Except Error Int64
  | .int n => .ok n
  | .float x =>
    Real.toInteger r.name <|
      match r with
      | floor => Real.floor x
      | ceil => Real.ceil x
      | trunc => Real.trunc x

end MiniLisp
