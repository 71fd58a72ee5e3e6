import Mathlib
import MiniLisp.Number

/-!
# The places of floats

The floats that are numbers stand in a row, each at a place that is an integer (`Real.place?`): zero
at 0, whatever its sign, then the floats up to infinity one by one, and the negative ones the other
way. The comparisons of floats are those of their places (`Real.orderReal_eq`), and a change of the
sign is one of the place (`Real.place?_neg`), so what is known of the order of integers holds of
floats. NaN has no place.
-/

namespace MiniLisp

namespace Real

open Float.Model (UnpackedFloat Format)
open Float.Model.UnpackedFloat

/-- The significand `m` and the exponent `e` of a finite float. Significands have 53 bits, and fewer
at the least exponent only. -/
structure Normal (m : Nat) (e : Int) : Prop where
  least : -1074 ≤ e
  greatest : e ≤ 971
  bits : m < 2 ^ 53
  full : 2 ^ 52 ≤ m ∨ e = -1074

/-- What the bits of a float stand for. -/
def Canonical : UnpackedFloat → Prop
  | .finite _ m e _ => Normal m e
  | _ => True

section Places

variable {m m' : Nat} {e e' : Int}

/-- How many floats there are from zero up to a positive finite float. -/
def magnitude (m : Nat) (e : Int) : Int := (e + 1074) * 2 ^ 52 + m

def placeOf : UnpackedFloat → Option Int
  | .notANumber => none
  | .infinity s => some (s.apply (2047 * 2 ^ 52))
  | .zero _ => some 0
  | .finite s m e _ => some (s.apply (magnitude m e))

theorem Normal.magnitude_pos (h : Normal m e) (hm : 0 < m) : 0 < magnitude m e := by
  have := h.least
  unfold magnitude
  omega

theorem Normal.magnitude_lt (h : Normal m e) : magnitude m e < 2047 * 2 ^ 52 := by
  have := h.greatest
  have := h.bits
  unfold magnitude
  omega

/-- Floats of a larger exponent stand further out. -/
theorem Normal.magnitude_lt_magnitude (h : Normal m e) (h' : Normal m' e') (he : e < e') :
    magnitude m e < magnitude m' e' := by
  have := h.bits
  have := h.least
  have := h'.full
  unfold magnitude
  omega

theorem Normal.compare_eq (h : Normal m e) (h' : Normal m' e') :
    (compare e e').then (compare m m') = compare (magnitude m e) (magnitude m' e') := by
  rcases Int.lt_trichotomy e e' with he | rfl | he
  · rw [Int.compare_eq_lt.mpr he, Int.compare_eq_lt.mpr (h.magnitude_lt_magnitude h' he)]
    rfl
  · have hsame : compare e e = .eq := Int.compare_eq_eq.mpr rfl
    rw [hsame, Ordering.then, Nat.compare_eq_ite_lt, Int.compare_eq_ite_lt]
    simp only [magnitude, Int.add_lt_add_iff_left, Int.ofNat_lt]
  · rw [Int.compare_eq_gt.mpr he, Int.compare_eq_gt.mpr (h'.magnitude_lt_magnitude h he)]
    rfl

theorem compare_neg_neg (p q : Int) : compare (-p) (-q) = (compare p q).swap := by
  rw [Int.compare_swap, Int.compare_eq_ite_lt, Int.compare_eq_ite_lt]
  simp only [Int.neg_lt_neg_iff]

theorem some_compare_of_lt {p q : Int} (h : p < q) : some .lt = some (compare p q) :=
  congrArg some (Int.compare_eq_lt.mpr h).symm

theorem some_compare_of_gt {p q : Int} (h : q < p) : some .gt = some (compare p q) :=
  congrArg some (Int.compare_eq_gt.mpr h).symm

/-- Finite floats are compared by their signs, then by their exponents, then by their
significands. -/
theorem compare_finite {s t : Sign} {hm : 0 < m} {hm' : 0 < m'} (h : Normal m e)
    (h' : Normal m' e') : (UnpackedFloat.finite s m e hm).compare (.finite t m' e' hm') =
      some (compare (s.apply (magnitude m e)) (t.apply (magnitude m' e'))) := by
  have := h.magnitude_pos hm
  have := h'.magnitude_pos hm'
  cases s <;> cases t
  · rw [UnpackedFloat.compare, h.compare_eq h', ← compare_neg_neg]
    rfl
  · exact some_compare_of_lt (by simp only [Sign.apply]; omega)
  · exact some_compare_of_gt (by simp only [Sign.apply]; omega)
  · exact congrArg some (h.compare_eq h')

/-- Any two floats are compared by their places. -/
theorem compare_eq_places {a b : UnpackedFloat} (ha : Canonical a) (hb : Canonical b) :
    a.compare b = (placeOf a).bind fun p => (placeOf b).map (compare p) := by
  cases a with
  | notANumber => cases b <;> rfl
  | infinity s =>
    cases b with
    | notANumber => cases s <;> rfl
    | infinity t => cases s <;> cases t <;> rfl
    | zero t => cases s <;> rfl
    | finite t m e hm =>
      have := hb.magnitude_pos hm
      have := hb.magnitude_lt
      cases s
      · exact some_compare_of_lt (by cases t <;> simp only [Sign.apply] <;> omega)
      · exact some_compare_of_gt (by cases t <;> simp only [Sign.apply] <;> omega)
  | zero s =>
    cases b with
    | notANumber => rfl
    | infinity t => cases t <;> rfl
    | zero t => rfl
    | finite t m e hm =>
      have := hb.magnitude_pos hm
      cases t
      · exact some_compare_of_gt (by simp only [Sign.apply]; omega)
      · exact some_compare_of_lt (by simp only [Sign.apply]; omega)
  | finite s m e hm =>
    have := ha.magnitude_pos hm
    have := ha.magnitude_lt
    cases b with
    | notANumber => rfl
    | infinity t =>
      cases t
      · exact some_compare_of_gt (by cases s <;> simp only [Sign.apply] <;> omega)
      · exact some_compare_of_lt (by cases s <;> simp only [Sign.apply] <;> omega)
    | zero t =>
      cases s
      · exact some_compare_of_lt (by simp only [Sign.apply]; omega)
      · exact some_compare_of_gt (by simp only [Sign.apply]; omega)
    | finite t m' e' hm' => exact compare_finite ha hb

theorem placeOf_neg (u : UnpackedFloat) : placeOf u.neg = (placeOf u).map (- ·) := by
  cases u with
  | notANumber => rfl
  | infinity s => cases s <;> rfl
  | zero s => rfl
  | finite s m e hm =>
    cases s
    · exact congrArg some (Int.neg_neg _).symm
    · rfl

theorem placeOf_eq_none_iff {u : UnpackedFloat} : placeOf u = none ↔ u.isNaN = true := by
  cases u with
  | notANumber => exact iff_of_true rfl rfl
  | _ => exact iff_of_false nofun nofun

end Places

section Bits

variable {m : Nat} {e : Int}

theorem toNat_one_append {w : Nat} (v : BitVec w) : (1#1 ++ v).toNat = 2 ^ w + v.toNat := by
  rw [BitVec.toNat_append, ← Nat.shiftLeft_add_eq_or_of_lt v.isLt]
  simp [Nat.shiftLeft_eq]

theorem canonical_unpack (x : Float.Model) : Canonical x.unpack := by
  have hbias : (Format.binary64.exponentBias : Int) = 1023 := rfl
  unfold Float.Model.unpack unpack
  extract_lets v b e bit s
  have hv : v.toNat < 2 ^ 52 := v.isLt
  have hb : b.toNat < 2 ^ 11 := b.isLt
  split
  · split <;> trivial
  · rename_i hmax
    have hmax : b.toNat ≠ 2047 := fun h => hmax (BitVec.toNat_inj.mp h)
    split
    · rename_i hzero
      split
      · trivial
      · have hzero : b.toNat = 0 := congrArg BitVec.toNat hzero
        have he : e = b.toNat - 1075 := rfl
        exact ⟨by omega, by omega, by omega, .inr (by omega)⟩
    · rename_i hzero
      have hzero : b.toNat ≠ 0 := fun h => hzero (BitVec.toNat_inj.mp h)
      have he : e = b.toNat - 1075 := rfl
      have hm : (1#1 ++ v).toNat = 2 ^ 52 + v.toNat := toNat_one_append v
      exact ⟨by omega, by omega, by omega, .inl (by omega)⟩

theorem finite_congr (s : Sign) {m' : Nat} {e' : Int} (hm : 0 < m) (hm' : 0 < m') (h : m = m')
    (he : e = e') : UnpackedFloat.finite s m e hm = .finite s m' e' hm' := by
  subst h he
  rfl

theorem unpack_full (s : Sign) {b : BitVec 11} (hzero : b.toNat ≠ 0) (hmax : b.toNat ≠ 2047)
    (v : BitVec 52) (hm : 0 < m) (hv : 2 ^ 52 + v.toNat = m) (hb : (b.toNat : Int) - 1075 = e) :
    unpack .binary64 (packComponents .binary64 s b v) = .finite s m e hm := by
  have hzero : b ≠ 0#11 := fun h => hzero (congrArg BitVec.toNat h)
  have hmax : b ≠ -1#11 := fun h => hmax (congrArg BitVec.toNat h)
  rw [unpack]
  simp only [unpackMantissa_packComponents, unpackExponent_packComponents,
    unpackSign_packComponents, Sign.ofBitVec_toBitVec]
  rw [if_neg hmax, if_neg hzero]
  exact finite_congr s _ hm ((toNat_one_append v).trans hv) hb

theorem unpack_least (s : Sign) {v : BitVec 52} (hm : 0 < m) (hv : v.toNat = m) :
    unpack .binary64 (packComponents .binary64 s 0#11 v) = .finite s m (-1074) hm := by
  have hpos : v ≠ 0#52 := by
    rintro rfl
    exact absurd hv (Nat.ne_of_lt hm)
  rw [unpack]
  simp only [unpackMantissa_packComponents, unpackExponent_packComponents,
    unpackSign_packComponents, Sign.ofBitVec_toBitVec]
  rw [if_neg (by decide), if_pos trivial, dif_neg hpos]
  exact finite_congr s _ hm hv rfl

/-- The bits of a float say what it stands for. -/
theorem unpack_pack {u : UnpackedFloat} (h : Canonical u) :
    unpack .binary64 (pack .binary64 u) = u := by
  cases u with
  | notANumber => rfl
  | infinity s => cases s <;> rfl
  | zero s => cases s <;> rfl
  | finite s m e hm =>
    obtain ⟨hleast, hgreatest, hbits, hfull⟩ := h
    have hbias : (e + Format.binary64.exponentBias +
        (Format.binary64.mantissaBitsWithoutImplicit : Nat)).toNat = (e + 1075).toNat := by
      change (e + 1023 + 52).toNat = _
      omega
    have hwidth : Format.binary64.mantissaBits = 53 := rfl
    have hbiased : (BitVec.ofNat 11 (e + 1075).toNat).toNat = (e + 1075).toNat := by
      rw [BitVec.toNat_ofNat, Nat.mod_eq_of_lt (by omega)]
    rw [pack]
    simp only [hbias, hwidth]
    rw [if_neg (by omega)]
    rcases Nat.lt_or_ge m (2 ^ 52) with hshort | hlong
    · have hlog : m.log2 < 52 := (Nat.log2_lt (by omega)).mpr hshort
      obtain rfl := hfull.resolve_left (Nat.not_le.mpr hshort)
      rw [if_neg (by omega)]
      exact unpack_least s hm (by rw [BitVec.toNat_ofNat, Nat.mod_eq_of_lt hshort])
    · have hlog : m.log2 = 52 := (Nat.log2_eq_iff (by omega)).mpr ⟨hlong, hbits⟩
      rw [if_pos (by rw [hlog])]
      refine unpack_full s ?_ ?_ _ hm ?_ ?_
      · omega
      · omega
      · rw [BitVec.toNat_ofNat]
        omega
      · omega

end Bits

section Floats

variable {x y : Float} {p q : Int}

/-- The place of a float in the row of all floats. -/
def place? (x : Float) : Option Int := placeOf x.toModel.unpack

theorem place?_eq_none_iff : place? x = none ↔ x.isNaN = true := placeOf_eq_none_iff

theorem place?_ofModel_pack {u : UnpackedFloat} (h : Canonical u) :
    place? (.ofModel (.pack u)) = placeOf u :=
  congrArg placeOf (unpack_pack h)

theorem Canonical.neg {u : UnpackedFloat} (h : Canonical u) : Canonical u.neg := by
  cases u <;> exact h

theorem place?_neg (x : Float) : place? (-x) = (place? x).map (- ·) := by
  rw [place?, place?, ← placeOf_neg]
  exact congrArg placeOf (unpack_pack (canonical_unpack x.toModel).neg)

theorem compare_eq_place? (x y : Float) : x.toModel.unpack.compare y.toModel.unpack =
    (place? x).bind fun p => (place? y).map (compare p) :=
  compare_eq_places (canonical_unpack _) (canonical_unpack _)

theorem lt_iff_compare : x < y ↔ x.toModel.unpack.compare y.toModel.unpack = some .lt := by
  change decide (x.toModel.unpack.lt y.toModel.unpack = true) = true ↔ _
  rw [decide_eq_true_iff, UnpackedFloat.lt, beq_iff_eq]

theorem beq_iff_compare :
    (x == y) = true ↔ x.toModel.unpack.compare y.toModel.unpack = some .eq := by
  change (x.toModel.unpack.compare y.toModel.unpack == some .eq) = true ↔ _
  rw [beq_iff_eq]

/-- Two floats stand in the order of their places, and NaN in none. -/
theorem orderReal_eq (x y : Float) :
    orderReal x y = (place? x).bind fun p => (place? y).map (compare p) := by
  rw [orderReal]
  simp only [lt_iff_compare, beq_iff_compare, compare_eq_place?]
  cases place? x with
  | none => cases place? y <;> rfl
  | some p =>
    cases place? y with
    | none => rfl
    | some q =>
      simp only [Option.bind_some, Option.map_some, Option.some.injEq, Int.compare_eq_lt,
        Int.compare_eq_eq]
      rcases Int.lt_trichotomy p q with hlt | rfl | hgt
      · rw [if_pos hlt, Int.compare_eq_lt.mpr hlt]
      · rw [if_neg (Int.lt_irrefl p), if_pos rfl, Int.compare_eq_eq.mpr rfl]
      · rw [if_neg (Int.lt_asymm hgt), if_neg (Int.ne_of_gt hgt), if_pos hgt,
          Int.compare_eq_gt.mpr hgt]

theorem beq_iff_place? : (x == y) = true ↔ ∃ p, place? x = some p ∧ place? y = some p := by
  rw [beq_iff_compare, compare_eq_place?]
  simp only [Option.bind_eq_some_iff, Option.map_eq_some_iff, Int.compare_eq_eq]
  exact ⟨fun ⟨p, hp, _, hq, heq⟩ => ⟨p, hp, heq ▸ hq⟩, fun ⟨p, hp, hq⟩ => ⟨p, hp, p, hq, rfl⟩⟩

end Floats

end Real

end MiniLisp
