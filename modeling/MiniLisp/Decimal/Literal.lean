/-!
# Number literals

Which words are numbers. A word that is an integer in the signed 64-bit range is that integer;
any other word in the grammar of floats, so also an integer outside the range, is the float
nearest to it.
-/

namespace MiniLisp

/-- The signed 64-bit word with value `n`, if there is one. -/
def int64? (n : Int) : Option Int64 :=
  if -9223372036854775808 ≤ n ∧ n < 9223372036854775808 then some (Int64.ofInt n) else none

theorem int64?_eq_some_iff {n : Int} {w : Int64} : int64? n = some w ↔ w.toInt = n := by
  unfold int64?
  constructor
  · intro h
    split at h
    · rename_i hn
      obtain rfl := Option.some.inj h
      rw [Int64.toInt_ofInt]
      simp only [Int64.size, Int.bmod]
      omega
    · cases h
  · rintro rfl
    rw [if_pos ⟨Int64.le_toInt w, Int64.toInt_lt w⟩, Int64.ofInt_toInt]

theorem int64?_eq_none_iff {n : Int} : int64? n = none ↔
    n < -9223372036854775808 ∨ 9223372036854775808 ≤ n := by
  unfold int64?
  split <;> simp <;> omega

namespace Decimal

/-- The value of a run of ASCII digits, most significant first. -/
def digitsValue (digits : List Char) : Nat :=
  digits.foldl (fun n c => 10 * n + (c.toNat - '0'.toNat)) 0

/-- A sign, if there is one, and the characters after it. -/
def splitSign : List Char → Bool × List Char
  | '-' :: rest => (true, rest)
  | '+' :: rest => (false, rest)
  | rest => (false, rest)

/-- The integer that a word denotes: an optional sign and at least one ASCII digit, within the
signed 64-bit range. -/
def int? (word : List Char) : Option Int64 :=
  let (negative, digits) := splitSign word
  if digits.isEmpty || !digits.all Char.isDigit then none
  else int64? (if negative then -digitsValue digits else digitsValue digits)

/-- The value of an exponent part: nothing, or `e` with an optional sign and at least one digit. -/
def exponent? : List Char → Option Int
  | [] => some 0
  | c :: rest =>
    let (negative, digits) := splitSign rest
    if (c != 'e' && c != 'E') || digits.isEmpty || !digits.all Char.isDigit then none
    else some (if negative then -digitsValue digits else digitsValue digits)

/-- The magnitude of a float literal: digits with at most one point among or around them, at least
one digit in all, and an exponent part; or the name of infinity or NaN in any case. -/
def magnitude? (word : List Char) : Option Float :=
  let name := word.map Char.toLower
  if name = "inf".toList ∨ name = "infinity".toList then some (1.0 / 0.0)
  else if name = "nan".toList then some (0.0 / 0.0)
  else
    let whole := word.takeWhile Char.isDigit
    let rest := word.dropWhile Char.isDigit
    let (fraction, rest) := match rest with
      | '.' :: rest => (rest.takeWhile Char.isDigit, rest.dropWhile Char.isDigit)
      | rest => ([], rest)
    if whole.isEmpty && fraction.isEmpty then none
    else do
      let power := (← exponent? rest) - fraction.length
      return Float.ofScientific (digitsValue (whole ++ fraction)) (power < 0) power.natAbs

/-- The float that a word denotes, correctly rounded; a magnitude too large for a finite float is
infinite. -/
def float? (word : List Char) : Option Float :=
  let (negative, rest) := splitSign word
  (magnitude? rest).map fun x => if negative then -x else x

end Decimal

end MiniLisp
