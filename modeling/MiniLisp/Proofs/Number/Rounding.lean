import MiniLisp.Proofs.Eval.Primitive
import MiniLisp.Proofs.Number.Word

/-!
# Rounding of integers

Rounding to a negative number of decimal places is a matter of the multiples of a power of ten:
the nearest one is the answer, of two equally near ones the even one (`RoundsTo`). The answer is
computed from a quotient and a remainder (`nearestMultiple`), in words that hold everything that
comes up on the way (`roundWord_of_scale`). Powers of ten that no word holds are answered with zero,
which is the nearest multiple except for the first of them, `10 ^ 19`, half of which a word can
exceed (`rounded_apply_iff`).
-/

namespace MiniLisp

/-- Rounding `n` to a multiple of `step` gives `m`: no multiple is nearer, and if another one is as
near, then `m` is an even multiple. -/
structure RoundsTo (step n m : Int) : Prop where
  multiple : step ∣ m
  nearest : ∀ k, step ∣ k → (n - m).natAbs ≤ (n - k).natAbs
  even : ∀ k, step ∣ k → k ≠ m → (n - k).natAbs = (n - m).natAbs → 2 * step ∣ m

/-- Different multiples are at least one step apart. -/
theorem step_le_of_dvd {step a b : Int} (ha : step ∣ a) (hb : step ∣ b) (hne : a ≠ b) :
    step ≤ (a - b).natAbs := by
  have hpos : 0 < (a - b).natAbs := by omega
  refine Int.le_of_dvd (by exact_mod_cast hpos) ?_
  exact Int.dvd_natAbs.mpr (Int.dvd_sub ha hb)

namespace RoundsTo

variable {step n m m' : Int}

/-- What is at most half a step away is the nearest multiple, and the only one if it is less than
half a step away. -/
theorem of_half (hm : step ∣ m) (hle : 2 * (n - m).natAbs ≤ step)
    (heven : 2 * (n - m).natAbs = step → 2 * step ∣ m) : RoundsTo step n m where
  multiple := hm
  nearest k hk := by
    by_cases hkm : k = m
    · rw [hkm]
    · have := step_le_of_dvd hk hm hkm
      omega
  even k hk hkm heq := by
    have := step_le_of_dvd hk hm hkm
    exact heven (by omega)

/-- Rounding has one answer. -/
theorem unique (hstep : 0 < step) (h : RoundsTo step n m) (h' : RoundsTo step n m') : m = m' := by
  by_contra hne
  have hdist : (n - m).natAbs = (n - m').natAbs :=
    Nat.le_antisymm (h.nearest m' h'.multiple) (h'.nearest m h.multiple)
  -- Two even multiples have a multiple between them, which is nearer to what they have as middle.
  have hapart := step_le_of_dvd (h.even m' h'.multiple (Ne.symm hne) hdist.symm)
    (h'.even m h.multiple hne hdist) hne
  have hup := h.nearest (m + step) (Int.dvd_add h.multiple (Int.dvd_refl step))
  have hdown := h.nearest (m - step) (Int.dvd_sub h.multiple (Int.dvd_refl step))
  omega

end RoundsTo

/-- The multiple of `step` nearest to `n`, from the quotient and the remainder of the division. -/
def nearestMultiple (step n : Int) : Int :=
  if step < 2 * (n % step) ∨ 2 * (n % step) = step ∧ n / step % 2 ≠ 0 then (n / step + 1) * step
  else n / step * step

theorem roundsTo_nearestMultiple {step : Int} (hstep : 0 < step) (n : Int) :
    RoundsTo step n (nearestMultiple step n) := by
  have hdivision : n / step * step + n % step = n := Int.ediv_mul_add_emod n step
  have hnonneg := Int.emod_nonneg n (Int.ne_of_gt hstep)
  have hlt := Int.emod_lt_of_pos n hstep
  have hdvd (q : Int) : step ∣ q * step := ⟨q, Int.mul_comm q step⟩
  have hdvdTwice {q : Int} (hq : q % 2 = 0) : 2 * step ∣ q * step :=
    Int.mul_dvd_mul_right step (Int.dvd_of_emod_eq_zero hq)
  unfold nearestMultiple
  split
  · rename_i hup
    have hnext : (n / step + 1) * step = n / step * step + step := by
      rw [Int.add_mul, Int.one_mul]
    refine .of_half (hdvd _) ?_ fun hhalf => hdvdTwice ?_
    · rw [hnext]
      omega
    · rw [hnext] at hhalf
      omega
  · rename_i hdown
    refine .of_half (hdvd _) ?_ fun hhalf => hdvdTwice ?_
    · omega
    · omega

/-- A power of ten that fits a word fits it twice over, and what is rounded up by it has a remainder
and leaves room for that, so that nothing but the answer itself can fail to fit a word. -/
theorem roundWord_of_scale {n digits scale : Int64} (hneg : ¬ 0 ≤ digits)
    (hscale : wordTenTo? digits.toInt.natAbs = some scale) :
    roundWord n digits = wordOr "round" (nearestMultiple scale.toInt n.toInt) := by
  obtain ⟨hdigits, hpower⟩ := toInt_of_wordTenTo? hscale
  have hpos : 0 < scale.toInt := by
    rw [hpower]
    exact Int.pow_pos (by decide)
  have hle : scale.toInt ≤ 10 ^ 18 := by
    rw [hpower]
    exact_mod_cast Nat.pow_le_pow_right (by decide : 0 < 10) hdigits
  obtain ⟨q, r, hq, hr, hdivMod⟩ := divMod_of_pos n hpos
  have hr0 : 0 ≤ r.toInt := hr ▸ Int.emod_nonneg _ (Int.ne_of_gt hpos)
  have hrlt : r.toInt < scale.toInt := hr ▸ Int.emod_lt_of_pos _ hpos
  have htwiceFits : FitsWord (r.toInt * 2) := by
    unfold FitsWord
    omega
  obtain ⟨twice, htwice, htwiceWord⟩ := inWord_of_fits htwiceFits
  have hup : (scale < twice || (twice == scale && q.toInt % 2 != 0)) = true ↔
      scale.toInt < 2 * r.toInt ∨ 2 * r.toInt = scale.toInt ∧ q.toInt % 2 ≠ 0 := by
    simp only [Bool.or_eq_true, Bool.and_eq_true, decide_eq_true_eq, beq_iff_eq, bne_iff_ne,
      Int64.lt_iff_toInt_lt, ← Int64.toInt_inj, htwice, Int.mul_comm]
  simp only [roundWord, if_neg hneg, hscale, hdivMod, htwiceWord, bind, Except.bind,
    nearestMultiple, ← hq, ← hr, hup]
  split
  · rename_i hround
    have hnextFits : FitsWord (q.toInt + 1) := by
      have hn := fitsWord_toInt n
      have hlow := (fitsWord_toInt q).1
      have hhigh : q.toInt < 9223372036854775807 := by
        unfold FitsWord at hn
        rw [hq, Int.ediv_lt_iff_lt_mul hpos]
        omega
      unfold FitsWord
      omega
    obtain ⟨next, hnext, hnextWord⟩ := inWord_of_fits hnextFits
    simp only [hnextWord, hnext]
  · rfl

theorem numeric_roundWord (n digits : Int64) : Numeric (roundWord n digits) := by
  by_cases hneg : 0 ≤ digits
  · rw [roundWord, if_pos hneg]
    exact .ok n
  · cases hscale : wordTenTo? digits.toInt.natAbs with
    | none =>
      rw [roundWord, if_neg hneg, hscale]
      exact .ok 0
    | some scale =>
      rw [roundWord_of_scale hneg hscale]
      exact numeric_wordOr _ _

/-- The answer that rounding `n` to `digits` decimal places should have. -/
def Rounded (n digits : Int64) (answer : Except Error Value) : Prop :=
  if 0 ≤ digits then answer = .ok (.int n)
  else ∃ m, RoundsTo (10 ^ digits.toInt.natAbs) n.toInt m ∧
    if FitsWord m then ∃ w : Int64, w.toInt = m ∧ answer = .ok (.int w)
    else answer = .error (.arithmetic (.overflow "round"))

theorem rounded_of_scale {n digits scale : Int64} (hneg : ¬ 0 ≤ digits)
    (hscale : wordTenTo? digits.toInt.natAbs = some scale) :
    Rounded n digits ((roundWord n digits).map .int) := by
  obtain ⟨-, hpower⟩ := toInt_of_wordTenTo? hscale
  rw [Rounded, if_neg hneg, ← hpower, roundWord_of_scale hneg hscale]
  have hpos : 0 < scale.toInt := by
    rw [hpower]
    exact Int.pow_pos (by decide)
  refine ⟨_, roundsTo_nearestMultiple hpos n.toInt, ?_⟩
  obtain ⟨w, hw, hword⟩ | ⟨hbig, hword⟩ :=
    wordOr_cases "round" (nearestMultiple scale.toInt n.toInt)
  · rw [if_pos (hw ▸ fitsWord_toInt w), hword]
    exact ⟨w, hw, rfl⟩
  · rw [if_neg hbig, hword]
    rfl

/-- Zero is the answer if it is at most half a step away, and a wrong one otherwise. -/
theorem rounded_zero_iff {n digits : Int64} (hneg : ¬ 0 ≤ digits) :
    Rounded n digits (.ok (.int 0)) ↔ 2 * n.toInt.natAbs ≤ 10 ^ digits.toInt.natAbs := by
  have hpos : (0 : Int) < 10 ^ digits.toInt.natAbs := Int.pow_pos (by decide)
  have hcast : ((10 ^ digits.toInt.natAbs : Nat) : Int) = 10 ^ digits.toInt.natAbs :=
    Int.natCast_pow 10 _
  rw [Rounded, if_neg hneg, ← hcast]
  rw [← hcast] at hpos
  generalize 10 ^ digits.toInt.natAbs = step at hpos ⊢
  constructor
  · rintro ⟨m, hm, hanswer⟩
    split at hanswer
    · obtain ⟨w, rfl, hw⟩ := hanswer
      cases hw
      have hup := hm.nearest step (Int.dvd_refl _)
      have hdown := hm.nearest (-step) (Int.dvd_neg.mpr (Int.dvd_refl _))
      simp only [Int64.toInt_zero] at hup hdown
      omega
    · cases hanswer
  · intro hhalf
    refine ⟨0, .of_half (Int.dvd_zero _) (by omega) fun _ => Int.dvd_zero _, ?_⟩
    exact ⟨0, rfl, rfl⟩

theorem wordTenTo?_eq_none_iff {n : Nat} : wordTenTo? n = none ↔ 18 < n := by
  unfold wordTenTo?
  split <;> simp <;> omega

/-- Twice a word exceeds the first power of ten that no word holds if at all, and no further one. -/
theorem half_step_iff {n digits : Int64} (hneg : ¬ 0 ≤ digits) (hbig : 18 < digits.toInt.natAbs) :
    2 * n.toInt.natAbs ≤ 10 ^ digits.toInt.natAbs ↔
      ¬ (digits = -19 ∧ 5 * 10 ^ 18 < n.toInt.natAbs) := by
  have hsign : digits.toInt < 0 := by
    rw [Int64.le_iff_toInt_le] at hneg
    exact Int.not_le.mp hneg
  have hword : digits = -19 ↔ digits.toInt.natAbs = 19 := by
    rw [← Int64.toInt_inj]
    change digits.toInt = -19 ↔ _
    omega
  rw [hword]
  by_cases hfirst : digits.toInt.natAbs = 19
  · rw [hfirst]
    omega
  · have hpower : 10 ^ 20 ≤ 10 ^ digits.toInt.natAbs :=
      Nat.pow_le_pow_right (by decide) (by omega)
    have hn := fitsWord_toInt n
    unfold FitsWord at hn
    omega

theorem outcome_round (s : State) (n digits : Int64) (depth : Nat) :
    (Call.apply (.builtin Primitive.round.builtin) [.int n, .int digits] depth).outcome s =
      ((roundWord n digits).map .int, s) := by
  refine Call.outcome_of_run rfl ?_ s depth
  change Answer.reply ((roundWord n digits).map Number.int) = _
  cases roundWord n digits <;> rfl

/-- Integers are rounded as they should be, except by a word above half of `10 ^ 19` to multiples of
`10 ^ 19`: the nearest one fits no word, but the answer is zero. -/
theorem rounded_apply_iff (s : State) (n digits : Int64) (depth : Nat) :
    ∃ answer : Except Error Value,
      (Call.apply (.builtin Primitive.round.builtin) [.int n, .int digits] depth).outcome s =
        (answer, s) ∧
      (∀ defect, answer ≠ .error (.internal defect)) ∧
      (Rounded n digits answer ↔ ¬ (digits = -19 ∧ 5 * 10 ^ 18 < n.toInt.natAbs)) ∧
      (digits = -19 ∧ 5 * 10 ^ 18 < n.toInt.natAbs → answer = .ok (.int 0)) := by
  refine ⟨_, outcome_round s n digits depth, fun defect hdefect => ?_, ?_⟩
  · have hnumeric := (numeric_roundWord n digits).map Value.int
    rw [hdefect] at hnumeric
    cases hnumeric
  by_cases hneg : 0 ≤ digits
  · have hother : ¬ (digits = -19 ∧ 5 * 10 ^ 18 < n.toInt.natAbs) := by
      rintro ⟨rfl, -⟩
      exact absurd hneg (by decide)
    have hanswer : Rounded n digits ((roundWord n digits).map .int) := by
      rw [Rounded, if_pos hneg, roundWord, if_pos hneg]
      rfl
    exact ⟨iff_of_true hanswer hother, fun h => absurd h hother⟩
  · cases hscale : wordTenTo? digits.toInt.natAbs with
    | some scale =>
      have hother : ¬ (digits = -19 ∧ 5 * 10 ^ 18 < n.toInt.natAbs) := by
        rintro ⟨rfl, -⟩
        cases hscale
      exact ⟨iff_of_true (rounded_of_scale hneg hscale) hother, fun h => absurd h hother⟩
    | none =>
      have hzero : (roundWord n digits).map Value.int = .ok (.int 0) := by
        rw [roundWord, if_neg hneg, hscale]
        rfl
      rw [hzero]
      have hhalf := half_step_iff (n := n) hneg (wordTenTo?_eq_none_iff.mp hscale)
      exact ⟨(rounded_zero_iff hneg).trans hhalf, fun _ => rfl⟩

/-- The multiple of `10 ^ 19` nearest to `9 * 10 ^ 18` is `10 ^ 19`, which fits no word, but the
answer is zero. -/
theorem not_rounded_apply :
    (Call.apply (.builtin Primitive.round.builtin) [.int 9000000000000000000, .int (-19)] 0).outcome
        .standard = (.ok (.int 0), .standard) ∧
      RoundsTo (10 ^ 19) 9000000000000000000 (10 ^ 19) ∧ ¬ FitsWord (10 ^ 19) ∧
      ¬ Rounded 9000000000000000000 (-19) (.ok (.int 0)) := by
  refine ⟨outcome_round _ _ _ _, ?_, by decide, ?_⟩
  · exact roundsTo_nearestMultiple (by decide) 9000000000000000000
  · rw [rounded_zero_iff (by decide)]
    decide

end MiniLisp
