import MiniLisp.Proofs.Eval.Primitive
import MiniLisp.Proofs.Number.Word
import Mathlib.Logic.Relation

/-!
# Greatest common divisors

Euclid's algorithm goes from a pair of unsigned words to the divisor and the remainder, until the
divisor is zero (`Euclid.Step`). Every step keeps the greatest common divisor and makes the divisor
smaller, so that the algorithm ends with the greatest common divisor of the words that it began with
(`euclid_eq_gcd`). There are no larger intermediate results. Absolute values of words reach
`2 ^ 63`, which is the only greatest common divisor of two words that is too large for a word
(`gcd_is_greatest`).
-/

namespace MiniLisp

namespace Euclid

/-- One round of the algorithm: the remainder takes the place of the divisor. -/
inductive Step : UInt64 × UInt64 → UInt64 × UInt64 → Prop where
  | divide {x y r : UInt64} (hy : y ≠ 0) (hr : modulo x y = .ok r) : Step (x, y) (y, r)

/-- Any number of rounds. -/
abbrev Run : UInt64 × UInt64 → UInt64 × UInt64 → Prop := Relation.ReflTransGen Step

variable {p q : UInt64 × UInt64} {x y r : UInt64}

theorem toNat_modulo (hr : modulo x y = .ok r) : r.toNat = x.toNat % y.toNat := by
  unfold modulo at hr
  split at hr
  · cases hr
  · cases hr
    exact UInt64.toNat_mod x y

theorem Step.gcd_eq (h : Step p q) :
    Nat.gcd q.1.toNat q.2.toNat = Nat.gcd p.1.toNat p.2.toNat := by
  cases h with
  | @divide x y r hy hr =>
    rw [toNat_modulo hr, Nat.gcd_comm y.toNat, ← Nat.gcd_rec, Nat.gcd_comm]

/-- The divisor gets smaller, so there are finitely many rounds. -/
theorem Step.lt (h : Step p q) : q.2.toNat < p.2.toNat := by
  cases h with
  | divide hy hr => exact modulo_lt hr

/-- No round fails: the algorithm goes on wherever the divisor is not zero. -/
theorem exists_step (hy : y ≠ 0) (x : UInt64) : Step (x, y) (y, x % y) :=
  .divide hy (by rw [modulo, if_neg hy])

theorem Run.gcd_eq (h : Run p q) :
    Nat.gcd q.1.toNat q.2.toNat = Nat.gcd p.1.toNat p.2.toNat := by
  induction h with
  | refl => rfl
  | tail _ hstep ih => rw [hstep.gcd_eq, ih]

/-- The algorithm runs to its end, and what stands before the zero divisor is its answer. -/
theorem exists_run (x y : UInt64) : ∃ d, euclid x y = .ok d ∧ Run (x, y) (d, 0) := by
  fun_induction euclid x y with
  | case1 x => exact ⟨x, rfl, .refl⟩
  | case2 x y hy e he =>
    rw [modulo, if_neg hy] at he
    cases he
  | case3 x y hy r hr ih =>
    obtain ⟨d, hd, hrun⟩ := ih
    exact ⟨d, hd, .head (.divide hy hr) hrun⟩

end Euclid

open Euclid

theorem toNat_magnitude (n : Int64) : (magnitude n).toNat = n.toInt.natAbs := by
  have hlow := n.le_toInt
  have hhigh := n.toInt_lt
  exact UInt64.toNat_ofNat_of_lt' (show n.toInt.natAbs < 2 ^ 64 by omega)

theorem euclid_eq_gcd (a b : Int64) : ∃ d, euclid (magnitude a) (magnitude b) = .ok d ∧
    Run (magnitude a, magnitude b) (d, 0) ∧ d.toNat = Int.gcd a.toInt b.toInt := by
  obtain ⟨d, hd, hrun⟩ := exists_run (magnitude a) (magnitude b)
  have hgcd := hrun.gcd_eq
  rw [UInt64.toNat_zero, Nat.gcd_zero_right, toNat_magnitude, toNat_magnitude] at hgcd
  exact ⟨d, hd, hrun, hgcd⟩

/-- A common divisor is at most as large as one of the two words, or both of them are zero. -/
theorem gcd_le (a b : Int64) : Int.gcd a.toInt b.toInt ≤ 2 ^ 63 := by
  have hdivides {n : Int64} (hn : n.toInt ≠ 0) (h : Int.gcd a.toInt b.toInt ∣ n.toInt.natAbs) :
      Int.gcd a.toInt b.toInt ≤ 2 ^ 63 := by
    have hle := Nat.le_of_dvd (by omega) h
    have := n.le_toInt
    have := n.toInt_lt
    omega
  by_cases ha : a.toInt = 0
  · by_cases hb : b.toInt = 0
    · rw [ha, hb]
      decide
    · exact hdivides hb (Nat.gcd_dvd_right _ _)
  · exact hdivides ha (Nat.gcd_dvd_left _ _)

theorem outcome_gcd (s : State) (a b : Int64) (depth : Nat) :
    (Call.apply (.builtin Primitive.gcd.builtin) [.int a, .int b] depth).outcome s =
      ((gcd a b).map .int, s) := by
  refine Call.outcome_of_run rfl ?_ s depth
  change Answer.reply (gcd a b) = _
  cases gcd a b <;> rfl

/-- Applied to any two words, in any state, the procedure comes to the end of Euclid's algorithm
without a division that fails, and the greatest common divisor is its answer, which is zero for two
zeros. Just the divisor `2 ^ 63` fits no word and is an overflow. -/
theorem gcd_is_greatest (s : State) (a b : Int64) (depth : Nat) :
    ∃ answer : Except Error Value,
      (Call.apply (.builtin Primitive.gcd.builtin) [.int a, .int b] depth).outcome s =
        (answer, s) ∧
      (∃ d, Run (magnitude a, magnitude b) (d, 0) ∧ d.toNat = Int.gcd a.toInt b.toInt) ∧
      (∀ p, Run (magnitude a, magnitude b) p → p.2 ≠ 0 →
        Step p (p.2, p.1 % p.2) ∧ (p.1 % p.2).toNat < p.2.toNat) ∧
      (FitsWord (Int.gcd a.toInt b.toInt) →
        ∃ w : Int64, w.toInt = Int.gcd a.toInt b.toInt ∧ answer = .ok (.int w)) ∧
      (¬ FitsWord (Int.gcd a.toInt b.toInt) ↔
        answer = .error (.arithmetic (.overflow "gcd"))) ∧
      (¬ FitsWord (Int.gcd a.toInt b.toInt) ↔ Int.gcd a.toInt b.toInt = 2 ^ 63) := by
  obtain ⟨d, hd, hrun, hgcd⟩ := euclid_eq_gcd a b
  have hanswer : gcd a b = wordOr "gcd" (Int.gcd a.toInt b.toInt) := by
    simp only [gcd, hd, hgcd, bind, Except.bind]
  have hround {p : UInt64 × UInt64} (hp : p.2 ≠ 0) : Step p (p.2, p.1 % p.2) :=
    exists_step hp p.1
  have hle := gcd_le a b
  refine ⟨_, outcome_gcd s a b depth, ⟨d, hrun, hgcd⟩,
    fun p _ hp => ⟨hround hp, (hround hp).lt⟩, ?_⟩
  rw [hanswer]
  obtain ⟨w, hw, hword⟩ | ⟨hbig, hword⟩ := wordOr_cases "gcd" (Int.gcd a.toInt b.toInt)
  · have hfits : FitsWord (Int.gcd a.toInt b.toInt) := hw ▸ fitsWord_toInt w
    rw [hword]
    refine ⟨fun _ => ⟨w, hw, rfl⟩, iff_of_false (not_not_intro hfits) (fun heq => by cases heq),
      iff_of_false (not_not_intro hfits) ?_⟩
    unfold FitsWord at hfits
    omega
  · rw [hword]
    refine ⟨fun hfits => absurd hfits hbig, iff_of_true hbig rfl, iff_of_true hbig ?_⟩
    unfold FitsWord at hbig
    omega

example : gcd Int64.minValue 0 = .error (.arithmetic (.overflow "gcd")) := by decide +kernel

end MiniLisp
