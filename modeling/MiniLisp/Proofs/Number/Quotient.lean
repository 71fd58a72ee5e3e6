import Mathlib
import MiniLisp.Number

/-!
# Quotients, rounded half to even

Floats are rounded by halving significands until few enough bits are left. What has fallen away
comes down to two bits, which tell how the rest compares with one half (`Real.Cut`), and that is
enough to round the quotient to the nearest integer (`Real.nearest`, `Real.Cut.roundedMantissa`).
-/

namespace MiniLisp

namespace Real

open Float.Model.UnpackedFloat

/-- `a / b`, rounded half to even. -/
def nearest (a b : Nat) : Nat :=
  if 2 * (a % b) < b then a / b
  else if 2 * (a % b) = b then a / b + a / b % 2
  else a / b + 1

section Nearest

variable {a a' b b' : Nat}

theorem nearest_le : nearest a b ≤ a / b + 1 := by
  unfold nearest
  split
  · omega
  · split <;> omega

theorem le_nearest : a / b ≤ nearest a b := by
  unfold nearest
  split
  · omega
  · split <;> omega

theorem nearest_mono (h : a ≤ a') : nearest a b ≤ nearest a' b := by
  rcases Nat.lt_or_ge (a / b) (a' / b) with hlt | hge
  · exact Nat.le_trans (Nat.le_trans nearest_le hlt) le_nearest
  · have hq : a / b = a' / b := Nat.le_antisymm (Nat.div_le_div_right h) hge
    have hr : a % b ≤ a' % b := by
      have ha := Nat.div_add_mod a b
      have ha' := Nat.div_add_mod a' b
      rw [hq] at ha
      omega
    unfold nearest
    rw [hq]
    (repeat' split) <;> omega

/-- Where there is no remainder nothing is rounded. -/
theorem nearest_mul (q : Nat) (hb : 0 < b) : nearest (q * b) b = q := by
  rw [nearest, Nat.mul_mod_left, if_pos hb, Nat.mul_div_cancel _ hb]

/-- Whole numbers that are added stay apart from the rounding, if they are even. -/
theorem nearest_add_mul (a : Nat) {c : Nat} (hb : 0 < b) (hc : c % 2 = 0) :
    nearest (a + c * b) b = nearest a b + c := by
  unfold nearest
  rw [Nat.add_mul_mod_self_right, Nat.add_mul_div_right _ _ hb]
  (repeat' split) <;> omega

theorem nearest_mul_mul (a b : Nat) {c : Nat} (hc : 0 < c) :
    nearest (a * c) (b * c) = nearest a b := by
  unfold nearest
  rw [Nat.mul_div_mul_right _ _ hc, Nat.mul_mod_mul_right, ← Nat.mul_assoc]
  simp only [Nat.mul_lt_mul_right hc, Nat.mul_left_inj (Nat.ne_of_gt hc)]

/-- A quotient of 53 bits stays one, or becomes the power of two above. -/
theorem nearest_bounds (hb : 0 < b) (hlow : 2 ^ 52 * b ≤ a) (hhigh : a < 2 ^ 53 * b) :
    2 ^ 52 ≤ nearest a b ∧ nearest a b ≤ 2 ^ 53 := by
  have hquot : 2 ^ 52 ≤ a / b := (Nat.le_div_iff_mul_le hb).mpr hlow
  have hquot' : a / b < 2 ^ 53 := (Nat.div_lt_iff_lt_mul hb).mpr hhigh
  exact ⟨Nat.le_trans hquot le_nearest, Nat.le_trans nearest_le hquot'⟩

end Nearest

theorem exact_eq (a : Nat) : Accuracy.exact = accuracyOfFraction (a % 1) 1 := by
  rw [Nat.mod_one]
  rfl

/-- What is left of a quotient when its fraction is dropped: the integer part, and whether the
fraction is at least one half and anything but exactly that half or nothing. -/
structure Cut (a b : Nat) (em : ExtendedMantissa) : Prop where
  mantissa : em.mantissa = a / b
  roundBit : em.roundBit = true ↔ b ≤ 2 * (a % b)
  stickyBit : em.stickyBit = true ↔ 2 * (a % b) % b ≠ 0

namespace Cut

variable {a b : Nat} {em : ExtendedMantissa}

theorem ofFraction (a : Nat) (hb : 0 < b) :
    Cut a b (.ofMantissaAndAccuracy (a / b) (accuracyOfFraction (a % b) b)) := by
  have hlt : a % b < b := Nat.mod_lt _ hb
  unfold accuracyOfFraction
  split
  · rename_i hzero
    exact ⟨rfl, iff_of_false nofun (by omega), iff_of_false nofun (by simp [hzero])⟩
  · rename_i hpos
    rcases Nat.lt_trichotomy (2 * (a % b)) b with hhalf | hhalf | hhalf
    · rw [Nat.compare_eq_lt.mpr hhalf]
      refine ⟨rfl, iff_of_false nofun (by omega), iff_of_true rfl ?_⟩
      rw [Nat.mod_eq_of_lt hhalf]
      omega
    · rw [Nat.compare_eq_eq.mpr hhalf]
      exact ⟨rfl, iff_of_true rfl (by omega), iff_of_false nofun (by simp [hhalf])⟩
    · rw [Nat.compare_eq_gt.mpr hhalf]
      refine ⟨rfl, iff_of_true rfl (by omega), iff_of_true rfl ?_⟩
      rw [Nat.mod_eq_sub_mod (by omega), Nat.mod_eq_of_lt (by omega)]
      omega

theorem shiftRightOne (hb : 0 < b) (h : Cut a b em) : Cut a (2 * b) em.shiftRightOne := by
  have hlt : a % b < b := Nat.mod_lt _ hb
  have hmod : a % (2 * b) = a % b + b * (a / b % 2) := by rw [Nat.mul_comm, Nat.mod_mul]
  have hdouble : 2 * (a % (2 * b)) % (2 * b) = 2 * (a % b) := by
    rw [Nat.mul_mod_mul_left, Nat.mod_mul_left_mod]
  refine ⟨?_, ?_, ?_⟩
  · rw [ExtendedMantissa.shiftRightOne, h.mantissa, Nat.div_div_eq_div_mul, Nat.mul_comm b]
  · simp only [ExtendedMantissa.shiftRightOne, h.mantissa, bne_iff_ne]
    rw [hmod]
    rcases Nat.mod_two_eq_zero_or_one (a / b) with hq | hq <;> rw [hq] <;> omega
  · simp only [ExtendedMantissa.shiftRightOne, Bool.or_eq_true, h.roundBit, h.stickyBit, hdouble]
    by_cases hhalf : b ≤ 2 * (a % b)
    · omega
    · rw [Nat.mod_eq_of_lt (Nat.lt_of_not_le hhalf)]
      omega

theorem shiftRight (hb : 0 < b) (h : Cut a b em) (k : Nat) : Cut a (b * 2 ^ k) (em >>> k) := by
  change Cut a (b * 2 ^ k) (Nat.repeat ExtendedMantissa.shiftRightOne k em)
  induction k with
  | zero => rwa [Nat.pow_zero, Nat.mul_one]
  | succ k ih =>
    rw [Nat.pow_succ', Nat.mul_left_comm]
    exact ih.shiftRightOne (Nat.mul_pos hb (Nat.two_pow_pos k))

theorem roundedMantissa (hb : 0 < b) (h : Cut a b em) : em.roundedMantissa = nearest a b := by
  obtain ⟨hm, hround, hsticky⟩ := h
  obtain ⟨m, round, sticky⟩ := em
  dsimp only at hm hround hsticky
  subst hm
  have hlt : a % b < b := Nat.mod_lt _ hb
  unfold nearest
  by_cases hhalf : b ≤ 2 * (a % b)
  · have hmod : 2 * (a % b) % b = 2 * (a % b) - b := by
      rw [Nat.mod_eq_sub_mod hhalf, Nat.mod_eq_of_lt (by omega)]
    rw [hround.mpr hhalf, if_neg (by omega)]
    by_cases heq : 2 * (a % b) = b
    · rw [if_pos heq]
      cases sticky
      · rfl
      · have := hsticky.mp rfl
        omega
    · rw [if_neg heq, hsticky.mpr (by omega)]
      rfl
  · rw [if_pos (by omega)]
    cases round
    · cases sticky <;> rfl
    · exact absurd (hround.mp rfl) hhalf

end Cut

end Real

end MiniLisp
