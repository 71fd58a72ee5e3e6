import MiniLisp.Proofs.Number.Place
import MiniLisp.Proofs.Number.Quotient

/-!
# Integers as floats

A natural number becomes a float by halving it until 53 bits are left, where what falls away decides
on the rounding (`Real.Shifted`). So its place is a quotient, rounded half to even, on top of the
place of the power of two below it (`Real.row`). Places follow the order of the integers
(`Real.rank_mono`), and up to `2 ^ 53` different integers have different places (`Real.rank_lt`).
-/

namespace MiniLisp

namespace Real

open Float.Model (UnpackedFloat Format totalExponent)
open Float.Model.UnpackedFloat

section Halving

variable {n n' k : Nat} {em : ExtendedMantissa}

/-- What is left of `n` after `k` halvings: the quotient, and whether the rest is at least one half
and anything but exactly that half or nothing. -/
structure Shifted (n k : Nat) (em : ExtendedMantissa) : Prop where
  mantissa : em.mantissa = n / 2 ^ k
  roundBit : em.roundBit = true ↔ 2 ^ k ≤ 2 * (n % 2 ^ k)
  stickyBit : em.stickyBit = true ↔ 2 * (n % 2 ^ k) % 2 ^ k ≠ 0

theorem shifted_iff_cut : Shifted n k em ↔ Cut n (2 ^ k) em :=
  ⟨fun h => ⟨h.mantissa, h.roundBit, h.stickyBit⟩, fun h => ⟨h.mantissa, h.roundBit, h.stickyBit⟩⟩

theorem shifted (n k : Nat) :
    Shifted n k (ExtendedMantissa.ofMantissaAndAccuracy n .exact >>> k) := by
  have hwhole := Cut.ofFraction n Nat.one_pos
  rw [Nat.div_one, ← exact_eq] at hwhole
  have hcut := hwhole.shiftRight Nat.one_pos k
  rw [Nat.one_mul] at hcut
  exact shifted_iff_cut.mpr hcut

/-- `n / 2 ^ k`, rounded half to even. -/
def nearestQuotient (n k : Nat) : Nat :=
  if 2 * (n % 2 ^ k) < 2 ^ k then n / 2 ^ k
  else if 2 * (n % 2 ^ k) = 2 ^ k then n / 2 ^ k + n / 2 ^ k % 2
  else n / 2 ^ k + 1

theorem nearestQuotient_eq (n k : Nat) : nearestQuotient n k = nearest n (2 ^ k) := rfl

theorem Shifted.roundedMantissa (h : Shifted n k em) :
    em.roundedMantissa = nearestQuotient n k :=
  (shifted_iff_cut.mp h).roundedMantissa (Nat.two_pow_pos k)

theorem nearestQuotient_mono (h : n ≤ n') : nearestQuotient n k ≤ nearestQuotient n' k :=
  nearest_mono h

/-- Where there is no remainder nothing is rounded. -/
theorem nearestQuotient_mul (q k : Nat) : nearestQuotient (q * 2 ^ k) k = q :=
  nearest_mul q (Nat.two_pow_pos k)

theorem nearestQuotient_mul_mul (n k j : Nat) :
    nearestQuotient (n * 2 ^ j) (k + j) = nearestQuotient n k := by
  rw [nearestQuotient_eq, nearestQuotient_eq, Nat.pow_add, nearest_mul_mul n _ (Nat.two_pow_pos j)]

/-- A number of `53 + k` bits comes down to 53 bits, or to the power of two above them. -/
theorem nearestQuotient_bounds (hlow : 2 ^ (52 + k) ≤ n) (hhigh : n < 2 ^ (53 + k)) :
    2 ^ 52 ≤ nearestQuotient n k ∧ nearestQuotient n k ≤ 2 ^ 53 := by
  rw [Nat.pow_add] at hlow hhigh
  exact nearest_bounds (Nat.two_pow_pos k) hlow hhigh

end Halving

section Naturals

variable {n n' m : Nat} {e : Int}

/-- A significand of 53 bits or more is halved until 53 bits are left. -/
theorem shiftToTargetExponent_eq (hm : 2 ^ 52 ≤ m) (he : -1074 ≤ e) :
    shiftToTargetExponent .binary64 m e .exact =
      (ExtendedMantissa.ofMantissaAndAccuracy m .exact >>> (m.log2 - 52),
        e + (m.log2 - 52 : Nat)) := by
  have hlog : 52 ≤ m.log2 := (Nat.le_log2 (by omega)).mpr hm
  have htarget : Format.binary64.targetExponent (totalExponent m e) = e + (m.log2 - 52 : Nat) := by
    change max ((m.log2 : Int) + 1 + e - 53) (-1074) = _
    omega
  have hamount : (e + (m.log2 - 52 : Nat) - e).toNat = m.log2 - 52 := by omega
  rw [shiftToTargetExponent, htarget, shiftToExponent, hamount]

/-- Rounding may carry into the next power of two, and then one more halving is exact. -/
theorem carried {r j : Nat} (hlow : 2 ^ 52 ≤ r) (hhigh : r ≤ 2 ^ 53) (hj : j = r.log2 - 52) :
    2 ^ 52 ≤ r / 2 ^ j ∧ r / 2 ^ j < 2 ^ 53 ∧ j * 2 ^ 52 + r / 2 ^ j = r ∧ j ≤ 1 := by
  subst hj
  rcases Nat.lt_or_eq_of_le hhigh with hlt | rfl
  · have hlog : r.log2 = 52 := (Nat.log2_eq_iff (by omega)).mpr ⟨hlow, hlt⟩
    rw [hlog, Nat.sub_self, Nat.pow_zero, Nat.div_one]
    omega
  · rw [Nat.log2_two_pow]
    decide

/-- A significand of 53 bits or more becomes that of a float by one rounding. -/
theorem roundWithAccuracy_exact (s : Sign) (hm : 2 ^ 52 ≤ m) (he : -1074 ≤ e)
    (hgreatest : e + m.log2 ≤ 1022) :
    ∃ m' e', ∃ hpos : 0 < m', roundWithAccuracy .binary64 s m e .exact = .finite s m' e' hpos ∧
      Normal m' e' ∧ magnitude m' e' =
        (e + (m.log2 - 52 : Nat) + 1074) * 2 ^ 52 + nearestQuotient m (m.log2 - 52) := by
  have hlog : 52 ≤ m.log2 := (Nat.le_log2 (by omega)).mpr hm
  obtain ⟨hlow, hhigh⟩ := (Nat.log2_eq_iff (by omega)).mp (rfl : m.log2 = m.log2)
  obtain ⟨hfull, hcarry⟩ := nearestQuotient_bounds (n := m) (k := m.log2 - 52)
    (by rwa [Nat.add_sub_cancel' hlog])
    (by rwa [show 53 + (m.log2 - 52) = m.log2 + 1 by omega])
  have hround : roundWithAccuracy .binary64 s m e .exact =
      if h : nearestQuotient m (m.log2 - 52) /
        2 ^ ((nearestQuotient m (m.log2 - 52)).log2 - 52) = 0 then .zero s
      else .finite s (nearestQuotient m (m.log2 - 52) /
          2 ^ ((nearestQuotient m (m.log2 - 52)).log2 - 52))
        (e + (m.log2 - 52 : Nat) + ((nearestQuotient m (m.log2 - 52)).log2 - 52 : Nat))
        (Nat.pos_of_ne_zero h) := by
    have he' : -1074 ≤ e + (m.log2 - 52 : Nat) := by omega
    rw [roundWithAccuracy, shiftToTargetExponent_eq hm he]
    simp only [(shifted m _).roundedMantissa, shiftToTargetExponent_eq hfull he',
      (shifted (nearestQuotient m _) _).mantissa]
  generalize nearestQuotient m (m.log2 - 52) = r at hfull hcarry hround ⊢
  generalize hj : r.log2 - 52 = j at hround
  obtain ⟨hbits, hbits', hsum, hone⟩ := carried hfull hcarry hj.symm
  rw [dif_neg (by omega)] at hround
  refine ⟨_, _, _, hround, ⟨by omega, by omega, hbits', .inl hbits⟩, ?_⟩
  unfold magnitude
  omega

/-- The place of a natural number: the numbers with the same leading power of two stand behind it,
as far as 53 bits tell them apart. -/
def row (n : Nat) : Nat :=
  if n = 0 then 0 else (n.log2 + 1022) * 2 ^ 52 + nearestQuotient (n * 2 ^ 52) n.log2

/-- A natural number is brought to 53 bits or more, without a change of its value. -/
theorem ofNat_eq (hpos : 0 < n) :
    ofNat .binary64 n = roundWithAccuracy .binary64 .positive
      (n * 2 ^ (52 - n.log2)) (-(52 - n.log2 : Nat)) .exact := by
  have hcompare : compare (n : Int) 0 = .gt := Int.compare_eq_gt.mpr (by omega)
  have htarget : Format.binary64.targetExponent (totalExponent n 0) = (n.log2 : Int) - 52 := by
    change max ((n.log2 : Int) + 1 + 0 - 53) (-1074) = _
    omega
  have hamount : (0 - ((n.log2 : Int) - 52)).toNat = 52 - n.log2 := by omega
  rw [ofNat, ofInt, UnpackedFloat.normalize, hcompare]
  simp only [UnpackedFloat.round, Int.toNat_natCast, htarget, decreaseExponent, hamount,
    Nat.shiftLeft_eq]
  rw [Int.zero_sub]

theorem log2_mul_two_pow (hpos : 0 < n) (d : Nat) : (n * 2 ^ d).log2 = n.log2 + d := by
  induction d with
  | zero => rw [Nat.pow_zero, Nat.mul_one, Nat.add_zero]
  | succ d ih =>
    have hne : n * 2 ^ d ≠ 0 := Nat.ne_of_gt (Nat.mul_pos hpos (Nat.two_pow_pos d))
    rw [Nat.pow_succ', Nat.mul_left_comm, Nat.log2_two_mul hne, ih, Nat.add_assoc]

theorem placeOf_ofNat (hn : n < 2 ^ 64) :
    Canonical (ofNat .binary64 n) ∧ placeOf (ofNat .binary64 n) = some (row n : Int) := by
  rcases Nat.eq_zero_or_pos n with rfl | hpos
  · exact ⟨trivial, rfl⟩
  · have hlog : n.log2 < 64 := (Nat.log2_lt (Nat.ne_of_gt hpos)).mpr hn
    have hshift := log2_mul_two_pow hpos (52 - n.log2)
    have hlong : 2 ^ 52 ≤ n * 2 ^ (52 - n.log2) := by
      have hm : n * 2 ^ (52 - n.log2) ≠ 0 := Nat.ne_of_gt (Nat.mul_pos hpos (Nat.two_pow_pos _))
      exact (Nat.le_log2 hm).mp (by omega)
    obtain ⟨m, e, hm, hround, hnormal, hplace⟩ :=
      roundWithAccuracy_exact (e := -(52 - n.log2 : Nat)) .positive hlong (by omega) (by omega)
    rw [ofNat_eq hpos, hround]
    refine ⟨hnormal, congrArg some (hplace.trans ?_)⟩
    have hrest := nearestQuotient_mul_mul (n * 2 ^ (52 - n.log2))
      ((n * 2 ^ (52 - n.log2)).log2 - 52) (52 - (52 - n.log2))
    rw [Nat.mul_assoc, ← Nat.pow_add, show 52 - n.log2 + (52 - (52 - n.log2)) = 52 by omega,
      show (n * 2 ^ (52 - n.log2)).log2 - 52 + (52 - (52 - n.log2)) = n.log2 by omega] at hrest
    rw [row, if_neg (Nat.ne_of_gt hpos), ← hrest]
    omega

theorem row_bounds (hpos : 0 < n) :
    (n.log2 + 1022) * 2 ^ 52 + 2 ^ 52 ≤ row n ∧ row n ≤ (n.log2 + 1022) * 2 ^ 52 + 2 ^ 53 := by
  obtain ⟨hlow, hhigh⟩ := (Nat.log2_eq_iff (Nat.ne_of_gt hpos)).mp (rfl : n.log2 = n.log2)
  have hbounds := nearestQuotient_bounds (n := n * 2 ^ 52) (k := n.log2)
    (by rw [Nat.add_comm, Nat.pow_add]; exact Nat.mul_le_mul_right _ hlow)
    (by rw [show 53 + n.log2 = n.log2 + 1 + 52 by omega, Nat.pow_add]
        exact Nat.mul_lt_mul_of_pos_right hhigh (Nat.two_pow_pos 52))
  rw [row, if_neg (Nat.ne_of_gt hpos)]
  omega

theorem log2_mono (h : n ≤ n') : n.log2 ≤ n'.log2 := by
  rw [Nat.log2_eq_log_two, Nat.log2_eq_log_two]
  exact Nat.log_mono_right h

theorem row_mono (h : n ≤ n') : row n ≤ row n' := by
  rcases Nat.eq_zero_or_pos n with rfl | hpos
  · exact Nat.zero_le _
  · rcases Nat.lt_or_eq_of_le (log2_mono h) with hlt | heq
    · have := (row_bounds hpos).2
      have := (row_bounds (Nat.lt_of_lt_of_le hpos h)).1
      omega
    · rw [row, row, if_neg (by omega), if_neg (by omega), heq]
      exact Nat.add_le_add_left (nearestQuotient_mono (Nat.mul_le_mul_right _ h)) _

theorem row_of_short (hpos : 0 < n) (hlog : n.log2 ≤ 52) :
    row n = (n.log2 + 1022) * 2 ^ 52 + n * 2 ^ (52 - n.log2) := by
  have hexact := nearestQuotient_mul (n * 2 ^ (52 - n.log2)) n.log2
  rw [Nat.mul_assoc, ← Nat.pow_add, Nat.sub_add_cancel hlog] at hexact
  rw [row, if_neg (Nat.ne_of_gt hpos), hexact]

/-- As far as 53 bits go nothing is rounded, and so no place is shared. -/
theorem row_lt (h : n < n') (hn : n < 2 ^ 53) : row n < row n' := by
  rcases Nat.eq_zero_or_pos n with rfl | hpos
  · have := (row_bounds h).1
    change 0 < row n'
    omega
  · have hlog : n.log2 ≤ 52 := Nat.le_of_lt_succ ((Nat.log2_lt (Nat.ne_of_gt hpos)).mpr hn)
    have hpow : 0 < 2 ^ (52 - n.log2) := Nat.two_pow_pos _
    rcases Nat.lt_or_eq_of_le (log2_mono (Nat.le_of_lt h)) with hlt | heq
    · have htop : n * 2 ^ (52 - n.log2) < 2 ^ 53 := by
        have hhigh := ((Nat.log2_eq_iff (Nat.ne_of_gt hpos)).mp (rfl : n.log2 = n.log2)).2
        have := Nat.mul_lt_mul_of_pos_right hhigh hpow
        rwa [← Nat.pow_add, show n.log2 + 1 + (52 - n.log2) = 53 by omega] at this
      have := row_of_short hpos hlog
      have := (row_bounds (Nat.lt_trans hpos h)).1
      omega
    · rw [row_of_short hpos hlog, row_of_short (Nat.lt_trans hpos h) (heq ▸ hlog), ← heq]
      exact Nat.add_lt_add_left (Nat.mul_lt_mul_of_pos_right h hpow) _

theorem row_pos (hpos : 0 < n) : 0 < row n := by
  have := (row_bounds hpos).1
  omega

end Naturals

section Integers

variable {m n : Int}

/-- The place of the float nearest to an integer. -/
def rank (n : Int) : Int := if n < 0 then -row n.natAbs else row n.natAbs

theorem place?_realOf (n : Int64) : place? (realOf n) = some (rank n.toInt) := by
  have hlow := n.le_toInt
  have hhigh := n.toInt_lt
  have hbound : n.toInt.natAbs < 2 ^ 64 := by omega
  obtain ⟨hcanonical, hplace⟩ := placeOf_ofNat hbound
  have hword : n.toInt.natAbs.toUInt64.toNat = n.toInt.natAbs :=
    UInt64.toNat_ofNat_of_lt' hbound
  have hmagnitude : place? n.toInt.natAbs.toUInt64.toFloat = some (row n.toInt.natAbs : Int) := by
    rw [← hplace, ← place?_ofModel_pack hcanonical]
    change place? (.ofModel (.pack (ofNat .binary64 n.toInt.natAbs.toUInt64.toNat))) = _
    rw [hword]
  have hsign : n < 0 ↔ n.toInt < 0 := Int64.lt_iff_toInt_lt
  unfold realOf rank
  simp only [hsign]
  split
  · rw [place?_neg, hmagnitude, Option.map_some]
  · exact hmagnitude

theorem rank_mono (h : m ≤ n) : rank m ≤ rank n := by
  unfold rank
  split
  · split
    · have : row n.natAbs ≤ row m.natAbs := row_mono (by omega)
      omega
    · omega
  · rw [if_neg (by omega)]
    have : row m.natAbs ≤ row n.natAbs := row_mono (by omega)
    omega

theorem rank_lt (h : m < n) (hshort : m.natAbs < 2 ^ 53 ∨ n.natAbs < 2 ^ 53) :
    rank m < rank n := by
  unfold rank
  split
  · split
    · have : row n.natAbs < row m.natAbs := row_lt (by omega) (by omega)
      omega
    · have := row_pos (n := m.natAbs) (by omega)
      omega
  · rw [if_neg (by omega)]
    have : row m.natAbs < row n.natAbs := row_lt (by omega) (by omega)
    omega

end Integers

end Real

end MiniLisp
