import MiniLisp.Proofs.Number.Nearest

/-!
# Finite floats

A float is a NaN, infinite or finite, and its place tells which: NaN has none, the infinities stand
at both ends of the row, and the finite floats between them.
-/

namespace MiniLisp

namespace Real

open Float.Model (UnpackedFloat)
open Float.Model.UnpackedFloat

/-- The place of infinity. -/
def endPlace : Nat := 2047 * 2 ^ 52

section Unpacked

variable {u : UnpackedFloat}

theorem isFinite_unpacked (u : UnpackedFloat) : u.isFinite = (!u.isNaN && !u.isInf) := by
  cases u <;> rfl

theorem natAbs_apply (s : Sign) (p : Int) : (s.apply p).natAbs = p.natAbs := by
  cases s
  · exact Int.natAbs_neg p
  · rfl

theorem Normal.natAbs_magnitude_lt {m : Nat} {e : Int} (h : Normal m e) :
    (magnitude m e).natAbs < endPlace := by
  have := h.magnitude_lt
  have := h.least
  unfold endPlace magnitude at *
  omega

theorem isInf_iff_placeOf (h : Canonical u) :
    u.isInf = true ↔ ∃ p, placeOf u = some p ∧ p.natAbs = endPlace := by
  cases u with
  | notANumber => exact iff_of_false nofun nofun
  | infinity s => exact iff_of_true rfl ⟨_, rfl, natAbs_apply s _⟩
  | zero s =>
    refine iff_of_false nofun ?_
    rintro ⟨p, hp, hend⟩
    cases hp
    cases hend
  | finite s m e hm =>
    refine iff_of_false nofun ?_
    rintro ⟨p, hp, hend⟩
    cases hp
    rw [natAbs_apply] at hend
    exact Nat.ne_of_lt h.natAbs_magnitude_lt hend

theorem isFinite_iff_placeOf (h : Canonical u) :
    u.isFinite = true ↔ ∃ p, placeOf u = some p ∧ p.natAbs < endPlace := by
  cases u with
  | notANumber => exact iff_of_false nofun nofun
  | infinity s =>
    refine iff_of_false nofun ?_
    rintro ⟨p, hp, hend⟩
    cases hp
    rw [natAbs_apply] at hend
    exact Nat.lt_irrefl _ hend
  | zero s => exact iff_of_true rfl ⟨_, rfl, by decide⟩
  | finite s m e hm =>
    exact iff_of_true rfl ⟨_, rfl, by rw [natAbs_apply]; exact h.natAbs_magnitude_lt⟩

end Unpacked

variable {x : Float}

/-- A float is of one of three kinds. -/
theorem isFinite_eq (x : Float) : x.isFinite = (!x.isNaN && !x.isInf) := isFinite_unpacked _

theorem isInf_iff_place? :
    x.isInf = true ↔ ∃ p, place? x = some p ∧ p.natAbs = endPlace :=
  isInf_iff_placeOf (canonical_unpack x.toModel)

theorem isFinite_iff_place? :
    x.isFinite = true ↔ ∃ p, place? x = some p ∧ p.natAbs < endPlace :=
  isFinite_iff_placeOf (canonical_unpack x.toModel)

/-- Integers become finite floats. -/
theorem isFinite_realOf (n : Int64) : (realOf n).isFinite = true := by
  refine isFinite_iff_place?.mpr ⟨_, place?_realOf n, ?_⟩
  have hlow := n.le_toInt
  have hhigh := n.toInt_lt
  have hrow : row n.toInt.natAbs < endPlace := by
    rcases Nat.eq_zero_or_pos n.toInt.natAbs with hzero | hpos
    · rw [hzero]
      decide
    · have hlog : n.toInt.natAbs.log2 < 64 := (Nat.log2_lt (by omega)).mpr (by omega)
      have := (row_bounds hpos).2
      unfold endPlace
      omega
  unfold rank
  split <;> omega

end Real

end MiniLisp
