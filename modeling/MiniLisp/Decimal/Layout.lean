import MiniLisp.Decimal.Shortest

/-!
# Text of floats

A float is written with its shortest digits. What is left to decide, where positional notation
ends and whether whole numbers keep a point, is a `Layout`; the program uses three of them.
-/

namespace MiniLisp.Decimal

/-- How a float is written around its digits. -/
structure Layout where
  nan : String
  /-- The decimal points, counted from the first digit, that are written positionally. -/
  positional : Option (Int × Int)
  /-- Whether a whole number written positionally ends in `.0`. -/
  pointZero : Bool

/-- Texts of values: positional from `0.0001` up to below `10 ^ 16`, and always with a point, so
that a float never reads as an integer. -/
def Layout.value : Layout := ⟨"nan", some (-3, 16), true⟩

/-- Diagnostic texts of values differ from their texts only in the spelling of NaN. -/
def Layout.debug : Layout := ⟨"NaN", some (-3, 16), true⟩

/-- Numbers inside error messages: never an exponent, and no point on whole numbers. -/
def Layout.prose : Layout := ⟨"NaN", none, false⟩

/-- Places the decimal point `point` digits after the start of `digits`. -/
def place (pointZero : Bool) (digits : List Char) (point : Int) : List Char :=
  let whole := if pointZero then ".0".toList else []
  if point ≤ 0 then '0' :: '.' :: (List.replicate (-point).toNat '0' ++ digits)
  else if digits.length ≤ point then
    digits ++ List.replicate (point.toNat - digits.length) '0' ++ whole
  else digits.take point.toNat ++ '.' :: digits.drop point.toNat

/-- One digit before the point, and the power of ten after an `e`. -/
def placeExponent (digits : List Char) (point : Int) : List Char :=
  let fraction := if digits.length ≤ 1 then [] else '.' :: digits.drop 1
  digits.take 1 ++ fraction ++ 'e' :: (toString (point - 1)).toList

def Layout.magnitude (style : Layout) (x : Float) : List Char :=
  let b := Binary.ofFloat x
  if b.significand = 0 then '0' :: (if style.pointZero then ".0".toList else [])
  else
    let s := b.shortest
    let digits := Nat.toDigits 10 s.digits
    let point := digits.length + s.exponent
    match style.positional with
    | some (low, high) =>
      if low ≤ point ∧ point ≤ high then place style.pointZero digits point
      else placeExponent digits point
    | none => place style.pointZero digits point

/-- The text of a float; the sign of zero is kept, NaN has none. -/
def Layout.text (style : Layout) (x : Float) : String :=
  if x.isNaN then style.nan
  else
    let sign := if isNegative x then ['-'] else []
    String.ofList (sign ++ if x.isInf then "inf".toList else style.magnitude x)

end MiniLisp.Decimal
