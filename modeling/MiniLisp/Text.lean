/-!
# Characters and texts

Sets of characters, the characters that separate words, and texts inside texts.
-/

namespace MiniLisp

/-- Properties of characters hold on runs of consecutive code points. So a set of characters is
given by the code points at which membership changes, in ascending order; the first of them is the
first member. -/
structure CharSet where
  changes : Array Nat

namespace CharSet

/-- A character is a member if membership changed an odd number of times up to it. -/
def contains (s : CharSet) (c : Char) : Bool := s.changes.countP (· ≤ c.toNat) % 2 == 1

end CharSet

/-- The 25 code points of the Unicode property `White_Space`. -/
def isBlank (c : Char) : Bool :=
  let n := c.toNat
  (9 ≤ n && n ≤ 13) || n == 0x20 || n == 0x85 || n == 0xA0 || n == 0x1680 ||
    (0x2000 ≤ n && n ≤ 0x200A) || n == 0x2028 || n == 0x2029 || n == 0x202F ||
    n == 0x205F || n == 0x3000

theorem isBlank_of_isWhitespace {c : Char} (h : c.isWhitespace = true) : isBlank c = true := by
  simp only [Char.isWhitespace, Bool.or_eq_true, decide_eq_true_eq] at h
  rcases h with ((h | h) | h) | h <;> subst h <;> decide

@[simp] theorem isBlank_space : isBlank ' ' = true := by decide
@[simp] theorem isBlank_opening : isBlank '(' = false := by decide
@[simp] theorem isBlank_closing : isBlank ')' = false := by decide

/-- A text without its blank characters at either end. -/
def trimBlank (s : String) : String :=
  let body := s.toList.dropWhile isBlank
  String.ofList (body.reverse.dropWhile isBlank).reverse

/-- Whether `part` occurs in `whole` as a run of consecutive characters. -/
def occursIn (part : List Char) : List Char → Bool
  | [] => part.isEmpty
  | c :: rest => part.isPrefixOf (c :: rest) || occursIn part rest

end MiniLisp
