import MiniLisp.Proofs.Number.Finite
import MiniLisp.Proofs.Number.Quotient

/-!
# Correctly rounded operations

Finite floats are whole numbers of units `2 ^ -1074` (`Real.units`). A product, a quotient, a sum or
a difference of two of them is at the place nearest to the exact result (`Real.nearestPlace`), or at
infinity if that place is beyond it. So the operations keep the order of the places
(`Real.nearestPlace_mono`).
-/

namespace MiniLisp

namespace Real

open Float.Model (UnpackedFloat Format totalExponent)
open Float.Model.UnpackedFloat

/-- How many units the float at the place `p` is. -/
def units (p : Nat) : Nat :=
  if p < 2 ^ 52 then p else (2 ^ 52 + p % 2 ^ 52) * 2 ^ (p / 2 ^ 52 - 1)

/-- How many units make 1. -/
def unity : Nat := 2 ^ 1074

theorem unity_pos : 0 < unity := by
  unfold unity
  positivity

theorem two_pow_unity (n : Nat) : 2 ^ (n + 1074) = 2 ^ n * unity := by
  rw [unity, pow_add]

-- Unifiers should not calculate with so large a number.
attribute [irreducible] unity

/-- The place nearest to `a / b` units. -/
def nearestPlace (a b : Nat) : Nat :=
  let k := Nat.log 2 (a / b) - 52
  k * 2 ^ 52 + nearest a (b * 2 ^ k)

section Places

variable {a a' b b' k k' : Nat}

/-- The quotient has 53 bits and `k` more, or fewer bits for `k = 0`. -/
structure Excess (a b k : Nat) : Prop where
  below : a < b * 2 ^ (k + 53)
  full : k = 0 ∨ b * 2 ^ (k + 52) ≤ a

theorem excess_log (a : Nat) (hb : 0 < b) : Excess a b (Nat.log 2 (a / b) - 52) := by
  rw [← Nat.log2_eq_log_two]
  have hlog : a / b < 2 ^ ((a / b).log2 + 1) := Nat.lt_log2_self
  refine ⟨?_, ?_⟩
  · rw [Nat.div_lt_iff_lt_mul hb, Nat.mul_comm] at hlog
    calc a < b * 2 ^ ((a / b).log2 + 1) := hlog
      _ ≤ b * 2 ^ ((a / b).log2 - 52 + 53) :=
        Nat.mul_le_mul_left b (Nat.pow_le_pow_right (by decide) (by omega))
  · by_cases hk : (a / b).log2 ≤ 52
    · exact .inl (by omega)
    · have hne : a / b ≠ 0 := by
        intro hzero
        rw [hzero] at hk
        exact hk (by decide)
      have hself := (Nat.le_div_iff_mul_le hb).mp (Nat.log2_self_le hne)
      refine .inr ?_
      rwa [Nat.sub_add_cancel (by omega), Nat.mul_comm]

namespace Excess

theorem mono (h : Excess a b k) (h' : Excess a' b k') (ha : a ≤ a') : k ≤ k' := by
  rcases h.full with rfl | hfull
  · exact Nat.zero_le _
  · have hlt : b * 2 ^ (k + 52) < b * 2 ^ (k' + 53) :=
      Nat.lt_of_le_of_lt (hfull.trans ha) h'.below
    have hpow := Nat.lt_of_mul_lt_mul_left hlt
    have := (Nat.pow_lt_pow_iff_right (by decide)).mp hpow
    omega

theorem unique (h : Excess a b k) (h' : Excess a b k') : k = k' :=
  Nat.le_antisymm (h.mono h' le_rfl) (h'.mono h le_rfl)

theorem mul {c : Nat} (hc : 0 < c) (h : Excess a b k) : Excess (a * c) (b * c) k where
  below := by
    rw [Nat.mul_right_comm]
    exact Nat.mul_lt_mul_of_pos_right h.below hc
  full := by
    rw [Nat.mul_right_comm]
    exact h.full.imp_right (Nat.mul_le_mul_right c)

/-- The quotient comes down to 53 bits, or to the power of two above them. -/
theorem bounds (hb : 0 < b) (h : Excess a b k) :
    (k = 0 ∨ 2 ^ 52 ≤ nearest a (b * 2 ^ k)) ∧ nearest a (b * 2 ^ k) ≤ 2 ^ 53 := by
  have hpos : 0 < b * 2 ^ k := Nat.mul_pos hb (Nat.two_pow_pos k)
  have hbelow := h.below
  rw [Nat.pow_add, ← Nat.mul_assoc, Nat.mul_comm _ (2 ^ 53)] at hbelow
  refine ⟨h.full.imp_right fun hfull => ?_, ?_⟩
  · rw [Nat.pow_add, ← Nat.mul_assoc, Nat.mul_comm _ (2 ^ 52)] at hfull
    exact (nearest_bounds hpos hfull hbelow).1
  · exact Nat.le_trans nearest_le ((Nat.div_lt_iff_lt_mul hpos).mpr hbelow)

end Excess

theorem nearestPlace_eq (hb : 0 < b) (h : Excess a b k) :
    nearestPlace a b = k * 2 ^ 52 + nearest a (b * 2 ^ k) := by
  rw [nearestPlace, (excess_log a hb).unique h]

/-- Rounding keeps the order. -/
theorem nearestPlace_mono (hb : 0 < b) (h : a ≤ a') : nearestPlace a b ≤ nearestPlace a' b := by
  have hk := excess_log a hb
  have hk' := excess_log a' hb
  rw [nearestPlace_eq hb hk, nearestPlace_eq hb hk']
  generalize Nat.log 2 (a / b) - 52 = k at hk ⊢
  generalize Nat.log 2 (a' / b) - 52 = k' at hk' ⊢
  rcases Nat.lt_or_eq_of_le (hk.mono hk' h) with hlt | rfl
  · have hhigh := (hk.bounds hb).2
    have hlow := (hk'.bounds hb).1.resolve_left (by omega)
    omega
  · exact Nat.add_le_add_left (nearest_mono h) _

theorem nearestPlace_mul_mul (a : Nat) (hb : 0 < b) {c : Nat} (hc : 0 < c) :
    nearestPlace (a * c) (b * c) = nearestPlace a b := by
  have hk := excess_log a hb
  rw [nearestPlace_eq (Nat.mul_pos hb hc) (hk.mul hc), nearestPlace_eq hb hk, Nat.mul_right_comm,
    nearest_mul_mul a _ hc]

/-- Equal quotients are nearest to the same place. -/
theorem nearestPlace_congr (hb : 0 < b) (hb' : 0 < b') (h : a * b' = a' * b) :
    nearestPlace a b = nearestPlace a' b' := by
  rw [← nearestPlace_mul_mul a hb hb', h, Nat.mul_comm b, nearestPlace_mul_mul a' hb' hb]

@[simp] theorem nearestPlace_zero (b : Nat) : nearestPlace 0 b = 0 := by
  rcases Nat.eq_zero_or_pos b with rfl | hb
  · rfl
  · simp [nearestPlace, nearest, hb]

theorem units_pos {p : Nat} (hp : 0 < p) : 0 < units p := by
  unfold units
  split
  · exact hp
  · exact Nat.mul_pos (by omega) (Nat.two_pow_pos _)

/-- The next power of two may be written with a bit more. -/
theorem units_eq {m : Nat} (hbits : m ≤ 2 ^ 53) (hfull : k = 0 ∨ 2 ^ 52 ≤ m) :
    units (k * 2 ^ 52 + m) = m * 2 ^ k := by
  unfold units
  rcases Nat.lt_or_ge m (2 ^ 52) with hshort | hlong
  · obtain rfl : k = 0 := by omega
    rw [if_pos (by omega)]
    omega
  · rw [if_neg (by omega)]
    rcases Nat.lt_or_eq_of_le hbits with hlt | rfl
    · rw [show (k * 2 ^ 52 + m) / 2 ^ 52 - 1 = k by omega,
        show 2 ^ 52 + (k * 2 ^ 52 + m) % 2 ^ 52 = m by omega]
    · rw [show (k * 2 ^ 52 + 2 ^ 53) / 2 ^ 52 - 1 = k + 1 by omega,
        show 2 ^ 52 + (k * 2 ^ 52 + 2 ^ 53) % 2 ^ 52 = 2 ^ 52 by omega, Nat.pow_succ']
      ring

/-- Floats are nearest to themselves. -/
theorem nearestPlace_units (p : Nat) : nearestPlace (units p) 1 = p := by
  obtain ⟨k, m, rfl, hbits, hfull⟩ : ∃ k m, p = k * 2 ^ 52 + m ∧ m < 2 ^ 53 ∧
      (k = 0 ∨ 2 ^ 52 ≤ m) :=
    ⟨p / 2 ^ 52 - 1, p - (p / 2 ^ 52 - 1) * 2 ^ 52, by omega, by omega, by omega⟩
  have hexcess : Excess (m * 2 ^ k) 1 k := by
    refine ⟨?_, hfull.imp_right fun hlong => ?_⟩
    · rw [Nat.one_mul, Nat.pow_add, Nat.mul_comm (2 ^ k)]
      exact Nat.mul_lt_mul_of_pos_right hbits (Nat.two_pow_pos k)
    · rw [Nat.one_mul, Nat.pow_add, Nat.mul_comm (2 ^ k)]
      exact Nat.mul_le_mul_right _ hlong
  rw [units_eq (Nat.le_of_lt hbits) hfull, nearestPlace_eq Nat.one_pos hexcess, Nat.one_mul,
    nearest_mul _ (Nat.two_pow_pos k)]

theorem units_mono {p q : Nat} (h : p ≤ q) : units p ≤ units q := by
  unfold units
  split
  · split
    · exact h
    · have hpow := Nat.two_pow_pos (q / 2 ^ 52 - 1)
      calc p ≤ 2 ^ 52 + q % 2 ^ 52 := by omega
        _ ≤ (2 ^ 52 + q % 2 ^ 52) * 2 ^ (q / 2 ^ 52 - 1) := Nat.le_mul_of_pos_right _ hpow
  · rw [if_neg (by omega)]
    rcases Nat.lt_or_eq_of_le (Nat.div_le_div_right (c := 2 ^ 52) h) with hlt | heq
    · calc (2 ^ 52 + p % 2 ^ 52) * 2 ^ (p / 2 ^ 52 - 1)
          ≤ 2 ^ 53 * 2 ^ (p / 2 ^ 52 - 1) := Nat.mul_le_mul_right _ (by omega)
        _ = 2 ^ 52 * 2 ^ (p / 2 ^ 52 - 1 + 1) := by rw [Nat.pow_succ' (n := p / 2 ^ 52 - 1)]; ring
        _ ≤ 2 ^ 52 * 2 ^ (q / 2 ^ 52 - 1) :=
          Nat.mul_le_mul_left _ (Nat.pow_le_pow_right (by decide) (by omega))
        _ ≤ (2 ^ 52 + q % 2 ^ 52) * 2 ^ (q / 2 ^ 52 - 1) := Nat.mul_le_mul_right _ (by omega)
    · rw [heq]
      exact Nat.mul_le_mul_right _ (by omega)

theorem units_lt {p q : Nat} (h : p < q) : units p < units q := by
  refine Nat.lt_of_le_of_ne (units_mono (Nat.le_of_lt h)) fun heq => Nat.ne_of_lt h ?_
  rw [← nearestPlace_units p, heq, nearestPlace_units]

/-- What has 53 bits is a float. -/
theorem units_nearestPlace {m : Nat} (hm : m < 2 ^ 53) (k : Nat) :
    units (nearestPlace (m * 2 ^ k) 1) = m * 2 ^ k := by
  have hexcess := excess_log (m * 2 ^ k) Nat.one_pos
  rw [nearestPlace_eq Nat.one_pos hexcess, Nat.one_mul]
  generalize Nat.log 2 (m * 2 ^ k / 1) - 52 = j at hexcess
  have hjk : j ≤ k := by
    rcases hexcess.full with rfl | hfull
    · exact Nat.zero_le k
    · have hlt : 2 ^ (j + 52) < 2 ^ (53 + k) := by
        rw [Nat.one_mul] at hfull
        refine Nat.lt_of_le_of_lt hfull ?_
        rw [Nat.pow_add]
        exact Nat.mul_lt_mul_of_pos_right hm (Nat.two_pow_pos k)
      have := (Nat.pow_lt_pow_iff_right (by decide)).mp hlt
      omega
  obtain ⟨d, rfl⟩ : ∃ d, k = d + j := ⟨k - j, by omega⟩
  rw [Nat.pow_add, ← Nat.mul_assoc] at hexcess ⊢
  have hbounds := hexcess.bounds Nat.one_pos
  rw [Nat.one_mul, nearest_mul _ (Nat.two_pow_pos j)] at hbounds
  rw [nearest_mul _ (Nat.two_pow_pos j)]
  exact units_eq hbounds.2 hbounds.1

end Places

section Packing

variable {m : Nat} {e : Int}

/-- The significand and the exponent of a number that is rounded to 53 bits, which may be too large
for a float. -/
structure Regular (m : Nat) (e : Int) : Prop where
  least : -1074 ≤ e
  bits : m < 2 ^ 53
  full : 2 ^ 52 ≤ m ∨ e = -1074

/-- Numbers that are too large become infinite. -/
theorem place?_pack_finite (s : Sign) (hm : 0 < m) (h : Regular m e) :
    place? (.ofModel (.pack (.finite s m e hm))) =
      some (s.apply (min endPlace (magnitude m e))) := by
  obtain ⟨hleast, hbits, hfull⟩ := h
  by_cases hgreatest : e ≤ 971
  · have hnormal : Normal m e := ⟨hleast, hgreatest, hbits, hfull⟩
    rw [place?_ofModel_pack (u := .finite s m e hm) hnormal, placeOf, Int.min_eq_right]
    exact Int.le_of_lt hnormal.magnitude_lt
  · have hbiased : 2 ^ Format.binary64.exponentBits ≤ (e + Format.binary64.exponentBias +
        (Format.binary64.mantissaBitsWithoutImplicit : Nat)).toNat + 1 := by
      change 2 ^ 11 ≤ (e + 1023 + 52).toNat + 1
      omega
    have hpack : pack .binary64 (.finite s m e hm) = pack .binary64 (.infinity s) := if_pos hbiased
    have hlarge : (endPlace : Int) ≤ magnitude m e := by
      unfold endPlace magnitude
      omega
    rw [Int.min_eq_left hlarge]
    change placeOf (unpack .binary64 (pack .binary64 (.finite s m e hm))) = _
    rw [hpack, unpack_pack (u := .infinity s) trivial]
    rfl

/-- Rounding once more changes nothing but the form: a significand that has come to `2 ^ 53` is
halved. -/
theorem place?_round_again (s : Sign) {r : Nat} (he : -1074 ≤ e) (hr : r ≤ 2 ^ 53)
    (hfull : 2 ^ 52 ≤ r ∨ e = -1074) :
    place? (.ofModel (.pack (if h : r / 2 ^ (r.log2 - 52) = 0 then .zero s
      else .finite s (r / 2 ^ (r.log2 - 52)) (e + (r.log2 - 52 : Nat)) (Nat.pos_of_ne_zero h)))) =
      some (s.apply (min endPlace ((e + 1074) * 2 ^ 52 + r))) := by
  generalize hj : r.log2 - 52 = j
  have hcarry : r / 2 ^ j < 2 ^ 53 ∧ j * 2 ^ 52 + r / 2 ^ j = r ∧
      (2 ^ 52 ≤ r / 2 ^ j ∨ e + j = -1074) := by
    rcases Nat.lt_or_ge r (2 ^ 52) with hshort | hlong
    · have hlog : j = 0 := by
        have : r.log2 ≤ 52 := by
          rcases Nat.eq_zero_or_pos r with rfl | hpos
          · decide
          · exact Nat.le_of_lt ((Nat.log2_lt (by omega)).mpr hshort)
        omega
      subst hlog
      rw [Nat.pow_zero, Nat.div_one]
      omega
    · have := carried hlong hr hj.symm
      omega
  split
  · rename_i hzero
    have hmin : min (endPlace : Int) ((e + 1074) * 2 ^ 52 + r) = 0 := by
      unfold endPlace
      omega
    rw [hmin]
    cases s <;> rfl
  · have hplace : (e + j + 1074) * 2 ^ 52 + (r / 2 ^ j : Nat) = (e + 1074) * 2 ^ 52 + r := by omega
    rw [place?_pack_finite s _ ⟨by omega, hcarry.1, hcarry.2.2⟩, magnitude, hplace]

theorem shiftToTargetExponent_of_full {r : Nat} (he : -1074 ≤ e)
    (hfull : 2 ^ 52 ≤ r ∨ e = -1074) :
    shiftToTargetExponent .binary64 r e .exact =
      (ExtendedMantissa.ofMantissaAndAccuracy r .exact >>> (r.log2 - 52),
        e + (r.log2 - 52 : Nat)) := by
  have htarget : Format.binary64.targetExponent (totalExponent r e) =
      max ((r.log2 : Int) + 1 + e - 53) (-1074) := rfl
  have hamount : (max ((r.log2 : Int) + 1 + e - 53) (-1074) - e).toNat = r.log2 - 52 := by
    rcases hfull with hlong | rfl
    · have : 52 ≤ r.log2 := (Nat.le_log2 (by omega)).mpr hlong
      omega
    · omega
  rw [shiftToTargetExponent, htarget, shiftToExponent, hamount]

section Quotients

variable {s : Sign} {A B i j k t : Nat} {T : Int}

/-- The exponent that a quotient `A / B * 2 ^ e` is brought to. -/
theorem excess_of_target (hB : 0 < B) (hT : T = max ((A / B).log2 + 1 + e - 53) (-1074))
    (hlow : e ≤ T) (he : e + 1074 = i - j) (hk : (k : Int) = T + 1074) :
    Excess (A * 2 ^ i) (B * 2 ^ j) k := by
  have hlog : A < B * 2 ^ ((A / B).log2 + 1) := by
    rw [Nat.mul_comm, ← Nat.div_lt_iff_lt_mul hB]
    exact Nat.lt_log2_self
  refine ⟨?_, ?_⟩
  · calc A * 2 ^ i < B * 2 ^ ((A / B).log2 + 1) * 2 ^ i :=
          Nat.mul_lt_mul_of_pos_right hlog (Nat.two_pow_pos i)
      _ = B * 2 ^ ((A / B).log2 + 1 + i) := by rw [Nat.mul_assoc, ← Nat.pow_add]
      _ ≤ B * 2 ^ (j + (k + 53)) :=
          Nat.mul_le_mul_left _ (Nat.pow_le_pow_right (by decide) (by omega))
      _ = B * 2 ^ j * 2 ^ (k + 53) := by rw [Nat.pow_add, Nat.mul_assoc]
  · by_cases hzero : k = 0
    · exact .inl hzero
    · have hne : A / B ≠ 0 := by
        intro hnone
        rw [hnone, Nat.log2_zero] at hT
        omega
      have hself := (Nat.le_div_iff_mul_le hB).mp (Nat.log2_self_le hne)
      refine .inr ?_
      calc B * 2 ^ j * 2 ^ (k + 52) = B * 2 ^ (j + (k + 52)) := by rw [Nat.mul_assoc, ← Nat.pow_add]
        _ = B * 2 ^ ((A / B).log2 + i) := by rw [show j + (k + 52) = (A / B).log2 + i by omega]
        _ = 2 ^ (A / B).log2 * B * 2 ^ i := by rw [Nat.pow_add, ← Nat.mul_assoc, Nat.mul_comm B]
        _ ≤ A * 2 ^ i := Nat.mul_le_mul_right _ hself

theorem roundWithAccuracy_eq (hB : 0 < B) (hT : T = max ((A / B).log2 + 1 + e - 53) (-1074))
    (ht : (t : Int) = T - e) (hfull : 2 ^ 52 ≤ nearest A (B * 2 ^ t) ∨ T = -1074) :
    roundWithAccuracy .binary64 s (A / B) e (accuracyOfFraction (A % B) B) =
      if h : nearest A (B * 2 ^ t) / 2 ^ ((nearest A (B * 2 ^ t)).log2 - 52) = 0 then .zero s
      else .finite s (nearest A (B * 2 ^ t) / 2 ^ ((nearest A (B * 2 ^ t)).log2 - 52))
        (T + ((nearest A (B * 2 ^ t)).log2 - 52 : Nat)) (Nat.pos_of_ne_zero h) := by
  have htarget : Format.binary64.targetExponent (totalExponent (A / B) e) = T := hT.symm
  have hamount : (T - e).toNat = t := by omega
  have hexponent : e + (t : Int) = T := by omega
  have hcut := (Cut.ofFraction A hB).shiftRight hB t
  rw [roundWithAccuracy, shiftToTargetExponent, htarget, shiftToExponent, hamount]
  simp only [hcut.roundedMantissa (Nat.mul_pos hB (Nat.two_pow_pos t)), hexponent,
    shiftToTargetExponent_of_full (by omega) hfull, (shifted (nearest A _) _).mantissa]

/-- A quotient `A / B * 2 ^ e`, of which the integer part and the fraction of `A / B` are known, is
rounded to the nearest place, unless the integer part is so short that the fraction hides bits that
a float has. -/
theorem place?_roundWithAccuracy (s : Sign) (hB : 0 < B) (hshort : 2 ^ 52 ≤ A / B ∨ e ≤ -1074)
    (he : e + 1074 = i - j) :
    place? (.ofModel (.pack
      (roundWithAccuracy .binary64 s (A / B) e (accuracyOfFraction (A % B) B)))) =
      some (s.apply (min endPlace (nearestPlace (A * 2 ^ i) (B * 2 ^ j)) : Nat)) := by
  obtain ⟨T, hT⟩ : ∃ T : Int, T = max ((A / B).log2 + 1 + e - 53) (-1074) := ⟨_, rfl⟩
  have hlow : e ≤ T := by
    rcases hshort with hlong | hleast
    · have : 52 ≤ (A / B).log2 := (Nat.le_log2 (by omega)).mpr hlong
      omega
    · omega
  -- So many bits fall away, and the float is so many powers of two above the least ones.
  obtain ⟨t, ht⟩ : ∃ t : Nat, (t : Int) = T - e := ⟨(T - e).toNat, by omega⟩
  obtain ⟨k, hk⟩ : ∃ k : Nat, (k : Int) = T + 1074 := ⟨(T + 1074).toNat, by omega⟩
  have hpos : 0 < B * 2 ^ j := Nat.mul_pos hB (Nat.two_pow_pos j)
  have hexcess := excess_of_target hB hT hlow he hk
  have hnearest : nearest (A * 2 ^ i) (B * 2 ^ j * 2 ^ k) = nearest A (B * 2 ^ t) := by
    have hscale : B * 2 ^ j * 2 ^ k = B * 2 ^ t * 2 ^ i := by
      rw [Nat.mul_assoc, Nat.mul_assoc, ← Nat.pow_add, ← Nat.pow_add, show j + k = t + i by omega]
    rw [hscale, nearest_mul_mul A _ (Nat.two_pow_pos i)]
  have hbounds := hexcess.bounds hpos
  rw [nearestPlace_eq hpos hexcess]
  rw [hnearest] at hbounds ⊢
  have hfull : 2 ^ 52 ≤ nearest A (B * 2 ^ t) ∨ T = -1074 := hbounds.1.symm.imp_right (by omega)
  rw [roundWithAccuracy_eq hB hT ht hfull, place?_round_again s (by omega) hbounds.2 hfull]
  have hplace : (T + 1074) * 2 ^ 52 + (nearest A (B * 2 ^ t) : Int) =
      (k * 2 ^ 52 + nearest A (B * 2 ^ t) : Nat) := by omega
  rw [hplace, Nat.cast_min]

end Quotients

end Packing

section Operations

variable {m : Nat} {e : Int} {u v : UnpackedFloat} {p q : Nat} {x y : Float}

theorem place?_roundWithAccuracy_exact (s : Sign) {A i j : Nat} (hshort : 2 ^ 52 ≤ A ∨ e ≤ -1074)
    (he : e + 1074 = i - j) :
    place? (.ofModel (.pack (roundWithAccuracy .binary64 s A e .exact))) =
      some (s.apply (min endPlace (nearestPlace (A * 2 ^ i) (2 ^ j)) : Nat)) := by
  have hround := place?_roundWithAccuracy s (A := A) Nat.one_pos (by rwa [Nat.div_one]) he
  rwa [Nat.div_one, Nat.one_mul, ← exact_eq] at hround

theorem place?_round (s : Sign) (hm : 0 < m) {i j : Nat} (he : e + 1074 = i - j) :
    place? (.ofModel (.pack (UnpackedFloat.round .binary64 s m e))) =
      some (s.apply (min endPlace (nearestPlace (m * 2 ^ i) (2 ^ j)) : Nat)) := by
  obtain ⟨T, hT⟩ : ∃ T : Int, T = max (m.log2 + 1 + e - 53) (-1074) := ⟨_, rfl⟩
  have htarget : Format.binary64.targetExponent (totalExponent m e) = T := hT.symm
  rw [UnpackedFloat.round, htarget]
  simp only [decreaseExponent, Nat.shiftLeft_eq]
  obtain ⟨d, hd⟩ : ∃ d : Nat, d = (e - T).toNat := ⟨_, rfl⟩
  rw [← hd]
  have hshort : 2 ^ 52 ≤ m * 2 ^ d ∨ e - (d : Int) ≤ -1074 := by
    by_cases hleast : e - (d : Int) ≤ -1074
    · exact .inr hleast
    · refine .inl ((Nat.le_log2 ?_).mp ?_)
      · exact Nat.ne_of_gt (Nat.mul_pos hm (Nat.two_pow_pos d))
      · rw [log2_mul_two_pow hm]
        omega
  rw [place?_roundWithAccuracy_exact (i := i) (j := j + d) s hshort (by omega)]
  rw [nearestPlace_congr (Nat.two_pow_pos _) (Nat.two_pow_pos j)]
  rw [Nat.pow_add]
  ring

/-- The finite float is at the place `p`, or at the opposite one. -/
inductive Sized : UnpackedFloat → Nat → Prop where
  | zero (s : Sign) : Sized (.zero s) 0
  | finite (s : Sign) {m n : Nat} {e : Int} (hm : 0 < m) (h : Normal m e)
      (hn : (n : Int) = e + 1074) : Sized (.finite s m e hm) (n * 2 ^ 52 + m)

theorem units_of_normal {n : Nat} (h : Normal m e) (hn : (n : Int) = e + 1074) :
    units (n * 2 ^ 52 + m) = m * 2 ^ n := by
  obtain ⟨-, -, hbits, hfull⟩ := h
  exact units_eq (Nat.le_of_lt hbits) (hfull.symm.imp_left fun hleast => by omega)

/-- How far out a float stands, on either side of zero. -/
def size? (x : Float) : Option Nat := (place? x).map Int.natAbs

theorem sized_of_size? (hx : size? x = some p) (hp : p < endPlace) :
    Sized x.toModel.unpack p := by
  obtain ⟨i, hi, rfl⟩ := Option.map_eq_some_iff.mp hx
  have hcanonical := canonical_unpack x.toModel
  unfold place? at hi
  generalize x.toModel.unpack = u at hi hcanonical
  cases u with
  | notANumber => cases hi
  | infinity s =>
    cases hi
    rw [natAbs_apply] at hp
    exact absurd hp (Nat.lt_irrefl _)
  | zero s =>
    cases hi
    exact .zero s
  | finite s m e hm =>
    cases hi
    have hleast := hcanonical.least
    obtain ⟨n, hn⟩ : ∃ n : Nat, (n : Int) = e + 1074 := ⟨(e + 1074).toNat, by omega⟩
    have hsize : (s.apply (magnitude m e)).natAbs = n * 2 ^ 52 + m := by
      rw [natAbs_apply]
      unfold magnitude
      omega
    rw [hsize]
    exact .finite s hm hcanonical hn

theorem size?_of_place? {s : Sign} (h : place? x = some (s.apply (p : Int))) :
    size? x = some p := by
  rw [size?, h, Option.map_some, natAbs_apply, Int.natAbs_natCast]

theorem place?_pack_zero (s : Sign) : place? (.ofModel (.pack (.zero s))) = some 0 :=
  place?_ofModel_pack (u := .zero s) trivial

/-- Products are rounded correctly. -/
theorem size?_mul (hx : size? x = some p) (hy : size? y = some q) (hp : p < endPlace)
    (hq : q < endPlace) :
    size? (x * y) = some (min endPlace (nearestPlace (units p * units q) unity)) := by
  have hu := sized_of_size? hx hp
  have hv := sized_of_size? hy hq
  have hmul : place? (x * y) = place? (.ofModel (.pack
      (UnpackedFloat.mul .binary64 x.toModel.unpack y.toModel.unpack))) := rfl
  rw [size?, hmul]
  generalize x.toModel.unpack = u at hu ⊢
  generalize y.toModel.unpack = v at hv ⊢
  cases hu with
  | zero s => cases hv <;> simp [UnpackedFloat.mul, units, place?_pack_zero]
  | @finite s m n e hm h hn =>
    cases hv with
    | zero t => simp [UnpackedFloat.mul, units, place?_pack_zero]
    | @finite t m' n' e' hm' h' hn' =>
      have hshort : 2 ^ 52 ≤ m * m' ∨ e + e' ≤ -1074 := by
        rcases h.full with hfull | hleast
        · exact .inl (hfull.trans (Nat.le_mul_of_pos_right m hm'))
        · rcases h'.full with hfull' | hleast'
          · exact .inl (hfull'.trans (Nat.le_mul_of_pos_left m' hm))
          · exact .inr (by omega)
      have hround := place?_roundWithAccuracy_exact (s * t) (i := n + n') (j := 0 + 1074) hshort
        (by omega)
      rw [two_pow_unity, Nat.pow_zero, Nat.one_mul] at hround
      rw [units_of_normal h hn, units_of_normal h' hn',
        show m * 2 ^ n * (m' * 2 ^ n') = m * m' * 2 ^ (n + n') by rw [Nat.pow_add]; ring]
      exact size?_of_place? hround

/-- The significands are divided as far as the float needs, or farther. -/
theorem divCore_eq {m' : Nat} (e e' : Int) (hm : 0 < m) (hm' : 0 < m') :
    ∃ (d : Nat) (T : Int), divCore .binary64 m e m' e' =
        (m * 2 ^ d / m', T, accuracyOfFraction (m * 2 ^ d % m') m') ∧
      (d : Int) = e - e' - T ∧ (2 ^ 52 ≤ m * 2 ^ d / m' ∨ T ≤ -1074) := by
  obtain ⟨T, hT⟩ : ∃ T : Int, T = min (e - e')
    (max ((m.log2 : Int) + 1 + e - (m'.log2 + 1 + e') - 53) (-1074)) := ⟨_, rfl⟩
  obtain ⟨d, hd⟩ : ∃ d : Nat, (d : Int) = e - e' - T := ⟨(e - e' - T).toNat, by omega⟩
  have htarget : min (e - e') (Format.binary64.targetExponent
      (totalExponent m e - totalExponent m' e')) = T := hT.symm
  have hamount : (e - e' - T).toNat = d := by omega
  refine ⟨d, T, by simp only [divCore, htarget, hamount, Nat.shiftLeft_eq], hd, ?_⟩
  by_cases hleast : T ≤ -1074
  · exact .inr hleast
  · refine .inl ((Nat.le_div_iff_mul_le hm').mpr ?_)
    calc 2 ^ 52 * m' ≤ 2 ^ 52 * 2 ^ (m'.log2 + 1) :=
          Nat.mul_le_mul_left _ (Nat.le_of_lt Nat.lt_log2_self)
      _ = 2 ^ (52 + (m'.log2 + 1)) := (Nat.pow_add ..).symm
      _ ≤ 2 ^ (m.log2 + d) := Nat.pow_le_pow_right (by decide) (by omega)
      _ = 2 ^ m.log2 * 2 ^ d := Nat.pow_add ..
      _ ≤ m * 2 ^ d := Nat.mul_le_mul_right _ (Nat.log2_self_le (Nat.ne_of_gt hm))

/-- Quotients by anything but zero are rounded correctly. -/
theorem size?_div (hx : size? x = some p) (hy : size? y = some q) (hp : p < endPlace)
    (hq : q < endPlace) (hpos : 0 < q) :
    size? (x / y) = some (min endPlace (nearestPlace (units p * unity) (units q))) := by
  have hu := sized_of_size? hx hp
  have hv := sized_of_size? hy hq
  have hdiv : place? (x / y) = place? (.ofModel (.pack
      (UnpackedFloat.div .binary64 x.toModel.unpack y.toModel.unpack))) := rfl
  rw [size?, hdiv]
  generalize x.toModel.unpack = u at hu ⊢
  generalize y.toModel.unpack = v at hv ⊢
  cases hv with
  | zero t => exact absurd hpos (Nat.lt_irrefl 0)
  | @finite t m' n' e' hm' h' hn' =>
    cases hu with
    | zero s => simp [UnpackedFloat.div, units, place?_pack_zero]
    | @finite s m n e hm h hn =>
      obtain ⟨d, T, hcore, hd, hshort⟩ := divCore_eq e e' hm hm'
      obtain ⟨i, j, hij⟩ : ∃ i j : Nat, T + 1074 = i - j :=
        ⟨(T + 1074).toNat, (-(T + 1074)).toNat, by omega⟩
      have hpow : 2 ^ d * 2 ^ i * 2 ^ n' = 2 ^ n * unity * 2 ^ j :=
        calc 2 ^ d * 2 ^ i * 2 ^ n' = 2 ^ (d + i + n') := by rw [Nat.pow_add, Nat.pow_add]
          _ = 2 ^ (n + j + 1074) := by rw [show d + i + n' = n + j + 1074 by omega]
          _ = 2 ^ n * unity * 2 ^ j := by rw [two_pow_unity, Nat.pow_add, Nat.mul_right_comm]
      have hsame : nearestPlace (m * 2 ^ d * 2 ^ i) (m' * 2 ^ j) =
          nearestPlace (m * 2 ^ n * unity) (m' * 2 ^ n') := by
        refine nearestPlace_congr (Nat.mul_pos hm' (Nat.two_pow_pos j))
          (Nat.mul_pos hm' (Nat.two_pow_pos n')) ?_
        calc m * 2 ^ d * 2 ^ i * (m' * 2 ^ n') = m * m' * (2 ^ d * 2 ^ i * 2 ^ n') := by ring
          _ = m * m' * (2 ^ n * unity * 2 ^ j) := by rw [hpow]
          _ = m * 2 ^ n * unity * (m' * 2 ^ j) := by ring
      rw [units_of_normal h hn, units_of_normal h' hn', ← hsame]
      refine size?_of_place? (s := s / t) ?_
      rw [UnpackedFloat.div, hcore]
      exact place?_roundWithAccuracy (s / t) hm' hshort hij

theorem place?_normalize (k : Nat) {i : Nat} (he : e + 1074 = i) :
    place? (.ofModel (.pack (UnpackedFloat.normalize .binary64 k e .positive))) =
      some ((min endPlace (nearestPlace (k * 2 ^ i) 1) : Nat) : Int) := by
  rcases Nat.eq_zero_or_pos k with rfl | hpos
  · rw [Nat.zero_mul, nearestPlace_zero]
    exact place?_pack_zero .positive
  · have hcompare : compare (k : Int) 0 = .gt := Int.compare_eq_gt.mpr (by omega)
    rw [UnpackedFloat.normalize, hcompare]
    exact place?_round .positive hpos (i := i) (j := 0) (by omega)

/-- What is finite and at a place that is not negative. -/
theorem positive_or_zero (hx : place? x = some (p : Int)) (hp : p < endPlace) :
    (∃ s, x.toModel.unpack = .zero s ∧ p = 0) ∨
      ∃ (m n : Nat) (e : Int) (hm : 0 < m), x.toModel.unpack = .finite .positive m e hm ∧
        (n : Int) = e + 1074 ∧ units p = m * 2 ^ n := by
  have hsized := sized_of_size? (by rw [size?, hx]; rfl) hp
  unfold place? at hx
  generalize x.toModel.unpack = u at hx hsized
  cases hsized with
  | zero s => exact .inl ⟨s, rfl, rfl⟩
  | @finite s m n e hm h hn =>
    have hpos := h.magnitude_pos hm
    have hsign : s = .positive := by
      cases s with
      | positive => rfl
      | negative =>
        have hplace := Option.some.inj hx
        rw [Sign.apply] at hplace
        omega
    subst hsign
    exact .inr ⟨m, n, e, hm, rfl, hn, units_of_normal h hn⟩

/-- Two numbers of units, written as multiples of the smaller power of two. -/
theorem exists_aligned {n n' : Nat} {e' : Int} (hn : (n : Int) = e + 1074)
    (hn' : (n' : Int) = e' + 1074) : ∃ d d' l : Nat, (e - min e e').toNat = d ∧
      (e' - min e e').toNat = d' ∧ min e e' + 1074 = l ∧ n = d + l ∧ n' = d' + l :=
  ⟨_, _, (min e e' + 1074).toNat, rfl, rfl, by omega, by omega, by omega⟩

theorem min_nearestPlace_units (hp : p < endPlace) :
    min endPlace (nearestPlace (units p) 1) = p := by
  rw [nearestPlace_units, Nat.min_eq_right (Nat.le_of_lt hp)]

theorem place?_pack_unpack (x : Float) : place? (.ofModel (.pack x.toModel.unpack)) = place? x :=
  place?_ofModel_pack (canonical_unpack _)

/-- Sums of floats that are not negative are rounded correctly. -/
theorem place?_add (hx : place? x = some (p : Int)) (hy : place? y = some (q : Int))
    (hp : p < endPlace) (hq : q < endPlace) :
    place? (x + y) = some ((min endPlace (nearestPlace (units p + units q) 1) : Nat) : Int) := by
  have hadd : place? (x + y) = place? (.ofModel (.pack
      (UnpackedFloat.add .binary64 x.toModel.unpack y.toModel.unpack))) := rfl
  rw [hadd]
  have hzero : units 0 = 0 := rfl
  rcases positive_or_zero hx hp with ⟨s, hu, rfl⟩ | ⟨m, n, e, hm, hu, hn, hunits⟩
  · rw [hzero, Nat.zero_add, min_nearestPlace_units hq, ← hy, ← place?_pack_unpack y, hu]
    rcases positive_or_zero hy hq with ⟨t, hv, -⟩ | ⟨m', n', e', hm', hv, -, -⟩
    · rw [hv]
      cases s <;> cases t <;> rfl
    · rw [hv]
      rfl
  · rcases positive_or_zero hy hq with ⟨t, hv, rfl⟩ | ⟨m', n', e', hm', hv, hn', hunits'⟩
    · rw [hzero, Nat.add_zero, min_nearestPlace_units hp, ← hx, ← place?_pack_unpack x, hu, hv]
      rfl
    · obtain ⟨d, d', l, hd, hd', hl, rfl, rfl⟩ := exists_aligned hn hn'
      have hnormalize := place?_normalize (m * 2 ^ d + m' * 2 ^ d') hl
      rw [hunits, hunits', Nat.pow_add, Nat.pow_add, ← Nat.mul_assoc, ← Nat.mul_assoc,
        ← Nat.add_mul, ← hnormalize, hu, hv]
      simp only [UnpackedFloat.add, decreaseExponent, hd, hd', Nat.shiftLeft_eq, Sign.apply,
        Nat.cast_add]

/-- Differences of floats that are not negative, the second one not larger than the first, are
rounded correctly. -/
theorem place?_sub (hx : place? x = some (p : Int)) (hy : place? y = some (q : Int))
    (hp : p < endPlace) (hqp : q ≤ p) :
    place? (x - y) = some ((min endPlace (nearestPlace (units p - units q) 1) : Nat) : Int) := by
  have hsub : place? (x - y) = place? (.ofModel (.pack
      (UnpackedFloat.sub .binary64 x.toModel.unpack y.toModel.unpack))) := rfl
  rw [hsub]
  have hq : q < endPlace := Nat.lt_of_le_of_lt hqp hp
  have hzero : units 0 = 0 := rfl
  rcases positive_or_zero hx hp with ⟨s, hu, rfl⟩ | ⟨m, n, e, hm, hu, hn, hunits⟩
  · obtain rfl := Nat.le_zero.mp hqp
    rcases positive_or_zero hy hq with ⟨t, hv, -⟩ | ⟨m', n', e', hm', hv, -, hunits'⟩
    · rw [hzero, Nat.sub_zero, nearestPlace_zero, hu, hv]
      cases s <;> cases t <;> rfl
    · exact absurd hunits'.symm (Nat.ne_of_gt (Nat.mul_pos hm' (Nat.two_pow_pos n')))
  · rcases positive_or_zero hy hq with ⟨t, hv, rfl⟩ | ⟨m', n', e', hm', hv, hn', hunits'⟩
    · rw [hzero, Nat.sub_zero, min_nearestPlace_units hp, ← hx, ← place?_pack_unpack x, hu, hv]
      rfl
    · obtain ⟨d, d', l, hd, hd', hl, rfl, rfl⟩ := exists_aligned hn hn'
      have hle := units_mono hqp
      rw [hunits, hunits', Nat.pow_add, Nat.pow_add, ← Nat.mul_assoc, ← Nat.mul_assoc] at hle
      have hnormalize := place?_normalize (m * 2 ^ d - m' * 2 ^ d') hl
      rw [hunits, hunits', Nat.pow_add, Nat.pow_add, ← Nat.mul_assoc, ← Nat.mul_assoc,
        ← Nat.sub_mul, ← hnormalize, hu, hv]
      simp only [UnpackedFloat.sub, decreaseExponent, hd, hd', Nat.shiftLeft_eq, Sign.apply,
        Nat.cast_sub (Nat.le_of_mul_le_mul_right hle (Nat.two_pow_pos l))]

theorem Canonical.abs (h : Canonical u) : Canonical u.abs := by
  cases u <;> exact h

theorem placeOf_abs (h : Canonical u) :
    placeOf u.abs = (placeOf u).map fun i => (i.natAbs : Int) := by
  cases u with
  | notANumber => rfl
  | infinity s => cases s <;> rfl
  | zero s => rfl
  | finite s m e hm =>
    have hpos := Normal.magnitude_pos h hm
    have hplace : ((s.apply (magnitude m e)).natAbs : Int) = magnitude m e := by
      rw [natAbs_apply]
      omega
    exact congrArg some hplace.symm

theorem place?_abs (x : Float) : place? x.abs = (place? x).map fun i => (i.natAbs : Int) :=
  (place?_ofModel_pack (canonical_unpack x.toModel).abs).trans (placeOf_abs (canonical_unpack _))

end Operations

end Real

end MiniLisp
