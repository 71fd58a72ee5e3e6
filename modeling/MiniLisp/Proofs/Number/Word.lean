import MiniLisp.Number.Elementary
import MiniLisp.Number.Integer
import Mathlib.Algebra.Group.Int.Defs

/-!
# Results that fit a word

Functions of numbers fail in one way only, by an arithmetic error (`Numeric`). For the functions
computed in words this says that no intermediate result is too large for a word and that nothing is
divided by zero.
-/

namespace MiniLisp

variable {α β : Type}

/-- The integers that a word holds. -/
def FitsWord (n : Int) : Prop := -9223372036854775808 ≤ n ∧ n < 9223372036854775808

instance (n : Int) : Decidable (FitsWord n) := inferInstanceAs (Decidable (_ ∧ _))

theorem fitsWord_toInt (w : Int64) : FitsWord w.toInt := ⟨w.le_toInt, w.toInt_lt⟩

theorem int64?_of_fits {n : Int} (h : FitsWord n) :
    ∃ w : Int64, w.toInt = n ∧ int64? n = some w := by
  cases hw : int64? n with
  | some w => exact ⟨w, int64?_eq_some_iff.mp hw, rfl⟩
  | none =>
    have := int64?_eq_none_iff.mp hw
    unfold FitsWord at h
    omega

theorem inWord_of_fits {n : Int} (h : FitsWord n) :
    ∃ w : Int64, w.toInt = n ∧ inWord n = .ok w := by
  obtain ⟨w, hw, hword⟩ := int64?_of_fits h
  exact ⟨w, hw, by rw [inWord, hword]⟩

/-- A final result is the word that holds it, or an overflow where there is none. -/
theorem wordOr_cases (operation : String) (n : Int) :
    (∃ w : Int64, w.toInt = n ∧ wordOr operation n = .ok w) ∨
      ¬ FitsWord n ∧ wordOr operation n = .error (.arithmetic (.overflow operation)) := by
  by_cases h : FitsWord n
  · obtain ⟨w, hw, hword⟩ := int64?_of_fits h
    exact .inl ⟨w, hw, by rw [wordOr, hword]⟩
  · have hnone : int64? n = none := by
      rw [int64?_eq_none_iff]
      unfold FitsWord at h
      omega
    exact .inr ⟨h, by rw [wordOr, hnone]⟩

/-- A result whose error, if it is one, is about the arithmetic. -/
inductive Numeric : Except Error α → Prop where
  | ok (a : α) : Numeric (.ok a)
  | error (cause : ArithmeticCause) : Numeric (.error (.arithmetic cause))

namespace Numeric

theorem bind {r : Except Error α} (h : Numeric r) {k : α → Except Error β}
    (hk : ∀ a, Numeric (k a)) : Numeric (r >>= k) := by
  cases h with
  | ok a => exact hk a
  | error cause => exact .error cause

theorem map {r : Except Error α} (h : Numeric r) (g : α → β) : Numeric (r.map g) := by
  cases h with
  | ok a => exact .ok (g a)
  | error cause => exact .error cause

theorem ite {c : Prop} [Decidable c] {r r' : Except Error α} (h : Numeric r) (h' : Numeric r') :
    Numeric (if c then r else r') := by
  split
  · exact h
  · exact h'

end Numeric

theorem numeric_wordOr (operation : String) (n : Int) : Numeric (wordOr operation n) := by
  rcases wordOr_cases operation n with ⟨w, -, h⟩ | ⟨-, h⟩
  · exact h ▸ .ok w
  · exact h ▸ .error _

theorem numeric_combine (name : String) (exact : Int → Int → Int)
    (rounded : Float → Float → Float) (a b : Number) :
    Numeric (Number.combine name exact rounded a b) := by
  unfold Number.combine
  split
  · exact (numeric_wordOr _ _).map _
  · exact .ok _

theorem numeric_div (a b : Number) : Numeric (a.div b) := Numeric.ite (.error _) (.ok _)

theorem numeric_abs (a : Number) : Numeric a.abs := by
  cases a with
  | int n =>
    rw [Number.abs_int]
    exact (numeric_wordOr _ _).map _
  | float x => exact .ok _

theorem numeric_checked (name : String) (inputs : List Float) (result : Float) :
    Numeric (checked name inputs result) :=
  Numeric.ite (.error _) (Numeric.ite (.error _) (.ok _))

theorem numeric_logarithm (x : Float) (bases : List Number) : Numeric (logarithm x bases) := by
  cases bases <;> exact numeric_checked _ _ _

theorem numeric_toInteger (name : String) (x : Float) : Numeric (Real.toInteger name x) :=
  Numeric.ite (.error _) (Numeric.ite (.ok _) (.error _))

theorem numeric_rounding (r : Rounding) (a : Number) : Numeric (r.run a) := by
  cases a with
  | int n => exact .ok n
  | float x => exact numeric_toInteger _ _

/-- Quotient and remainder of a division by a positive word fit words. -/
theorem divMod_of_pos (n : Int64) {d : Int64} (hd : 0 < d.toInt) :
    ∃ q r : Int64, q.toInt = n.toInt / d.toInt ∧ r.toInt = n.toInt % d.toInt ∧
      divMod n d = .ok (q, r) := by
  have hn := fitsWord_toInt n
  have hquotient : FitsWord (n.toInt / d.toInt) := by
    unfold FitsWord at hn ⊢
    rw [Int.le_ediv_iff_mul_le hd, Int.ediv_lt_iff_lt_mul hd]
    omega
  have hremainder : FitsWord (n.toInt % d.toInt) := by
    have := Int.emod_nonneg n.toInt (Int.ne_of_gt hd)
    have := Int.emod_lt_of_pos n.toInt hd
    have := d.toInt_lt
    unfold FitsWord
    omega
  obtain ⟨q, hq, hqword⟩ := inWord_of_fits hquotient
  obtain ⟨r, hr, hrword⟩ := inWord_of_fits hremainder
  have hzero : d ≠ 0 := by
    rintro rfl
    exact absurd hd (by decide)
  refine ⟨q, r, hq, hr, ?_⟩
  rw [divMod, if_neg hzero, hqword, hrword]
  rfl

theorem toInt_of_wordTenTo? {n : Nat} {w : Int64} (h : wordTenTo? n = some w) :
    n ≤ 18 ∧ w.toInt = 10 ^ n := by
  unfold wordTenTo? at h
  split at h
  · rename_i hn
    cases h
    refine ⟨hn, ?_⟩
    have hle : Nat.pow 10 n ≤ 10 ^ 18 := Nat.pow_le_pow_right (by decide) hn
    rw [Int64.toInt_ofNat_of_lt (Nat.lt_of_le_of_lt hle (by decide))]
    exact Int.natCast_pow 10 n
  · cases h

theorem numeric_productTo (n : Nat) (acc : Int64) (i : Nat) : Numeric (productTo n acc i) := by
  fun_induction productTo n acc i with
  | case1 acc i h ih => exact (numeric_wordOr _ _).bind ih
  | case2 acc i h => exact .ok acc

theorem numeric_factorial (n : Int64) : Numeric (factorial n) :=
  Numeric.ite (.error _) (numeric_productTo _ _ _)

/-- The algorithm stops before it would divide by zero. -/
theorem euclid_ok (x y : UInt64) : ∃ d, euclid x y = .ok d := by
  fun_induction euclid x y with
  | case1 x => exact ⟨x, rfl⟩
  | case2 x y hy e h =>
    rw [modulo, if_neg hy] at h
    cases h
  | case3 x y hy r h ih => exact ih

theorem numeric_gcd (a b : Int64) : Numeric (gcd a b) := by
  obtain ⟨d, hd⟩ := euclid_ok (magnitude a) (magnitude b)
  rw [gcd, hd]
  exact (Numeric.ok d).bind fun _ => numeric_wordOr _ _

end MiniLisp
