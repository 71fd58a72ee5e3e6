import MiniLisp.Proofs.Eval.Primitive
import MiniLisp.Proofs.Number.Operations

/-!
# Rounding large floats

To round a float to a negative number of digits is to divide it by a power of ten, to round the
quotient to a whole number and to multiply it again. All three steps keep the order of the floats,
so that for every power of ten some of the largest floats become infinite and no others do
(`Real.multipleNear_finite_iff`). To a number of digits that is not negative every finite float is
rounded to a finite one (`rounded_float_iff`).
-/

namespace MiniLisp

namespace Real

variable {x y c : Float} {p q : Nat}

theorem isFinite_iff_size? : x.isFinite = true ↔ ∃ p, size? x = some p ∧ p < endPlace := by
  rw [isFinite_iff_place?]
  constructor
  · rintro ⟨i, hi, hlt⟩
    exact ⟨i.natAbs, by rw [size?, hi, Option.map_some], hlt⟩
  · rintro ⟨p, hp, hlt⟩
    obtain ⟨i, hi, rfl⟩ := Option.map_eq_some_iff.mp hp
    exact ⟨i, hi, hlt⟩

theorem size?_neg (x : Float) : size? (-x) = size? x := by
  rw [size?, size?, place?_neg, Option.map_map]
  exact congrArg (Option.map · (place? x)) (funext Int.natAbs_neg)

theorem size?_abs (x : Float) : size? x.abs = size? x := by
  rw [size?, size?, place?_abs, Option.map_map]
  rfl

theorem size?_copySign (x y : Float) : size? (copySign x y) = size? x := by
  unfold copySign
  split
  · rw [size?_neg, size?_abs]
  · exact size?_abs x

theorem place?_abs_of_size? (hx : size? x = some p) : place? x.abs = some (p : Int) := by
  obtain ⟨i, hi, rfl⟩ := Option.map_eq_some_iff.mp hx
  rw [place?_abs, hi]
  rfl

theorem abs_lt_iff (hx : size? x = some p) (hy : place? y = some (q : Int)) :
    x.abs < y ↔ p < q := by
  rw [lt_iff_compare, compare_eq_place?, place?_abs_of_size? hx, hy]
  simp [Int.compare_eq_lt]

theorem isNaN_of_size? (hx : size? x = some p) : x.isNaN = false := by
  obtain ⟨i, hi, -⟩ := Option.map_eq_some_iff.mp hx
  refine Bool.eq_false_iff.mpr fun hnan => ?_
  rw [place?_eq_none_iff.mpr hnan] at hi
  cases hi

section Whole

/-- The place of the whole number nearest to the float at the place `p`. -/
def wholeNear (p : Nat) : Nat := nearestPlace (nearest (units p) unity * unity) 1

theorem wholeNear_mono (h : p ≤ q) : wholeNear p ≤ wholeNear q :=
  nearestPlace_mono Nat.one_pos (Nat.mul_le_mul_right unity (nearest_mono (units_mono h)))

/-- The place from which on all floats are whole. -/
def wholePlace : Nat := 1075 * 2 ^ 52

theorem wholePlace_lt : wholePlace < endPlace := by decide +kernel

theorem place?_wholeFrom : place? wholeFrom = some (wholePlace : Int) := by decide +kernel

theorem units_wholePlace : units wholePlace = 2 ^ 52 * unity := by
  rw [show wholePlace = (0 + 1074) * 2 ^ 52 + 2 ^ 52 by decide, units_eq (by decide) (.inr le_rfl),
    two_pow_unity, Nat.pow_zero, Nat.one_mul]

theorem unity_dvd_units (hp : wholePlace ≤ p) : unity ∣ units p := by
  unfold wholePlace at hp
  obtain ⟨k, hk⟩ : ∃ k, p / 2 ^ 52 - 1 = k + 1074 := ⟨p / 2 ^ 52 - 1075, by omega⟩
  rw [units, if_neg (by omega), hk, two_pow_unity]
  exact ((Nat.dvd_refl unity).mul_left _).mul_left _

theorem wholeNear_of_le (hp : wholePlace ≤ p) :
    wholeNear p = p ∧ nearest (units p) unity * unity = units p := by
  obtain ⟨c, hc⟩ := unity_dvd_units hp
  have hunits : nearest (units p) unity * unity = units p := by
    rw [hc, Nat.mul_comm unity, nearest_mul _ unity_pos]
  refine ⟨?_, hunits⟩
  rw [wholeNear, hunits, nearestPlace_units]

theorem nearest_unity_le (hp : p ≤ wholePlace) : nearest (units p) unity ≤ 2 ^ 52 := by
  have hnearest := nearest_mono (b := unity) (units_mono hp)
  rwa [units_wholePlace, nearest_mul _ unity_pos] at hnearest

theorem wholeNear_le (hp : p ≤ wholePlace) : wholeNear p ≤ wholePlace := by
  have hmono := wholeNear_mono hp
  rwa [(wholeNear_of_le le_rfl).1] at hmono

theorem wholeNear_lt (hp : p < endPlace) : wholeNear p < endPlace := by
  rcases Nat.le_total p wholePlace with hle | hge
  · exact Nat.lt_of_le_of_lt (wholeNear_le hle) wholePlace_lt
  · rwa [(wholeNear_of_le hge).1]

/-- Whole numbers that are rounded to are floats themselves. -/
theorem units_wholeNear (p : Nat) : units (wholeNear p) = nearest (units p) unity * unity := by
  rcases Nat.le_total p wholePlace with hle | hge
  · have hbits : nearest (units p) unity < 2 ^ 53 :=
      Nat.lt_of_le_of_lt (nearest_unity_le hle) (by decide)
    have hunits := units_nearestPlace hbits (0 + 1074)
    rwa [two_pow_unity, Nat.pow_zero, Nat.one_mul] at hunits
  · rw [(wholeNear_of_le hge).1, (wholeNear_of_le hge).2]

/-- Below `2 ^ 52`, the sum with it has no room for a fraction. -/
theorem nearestPlace_sum (hp : p < wholePlace) :
    nearestPlace (units p + units wholePlace) 1 =
      (0 + 1074) * 2 ^ 52 + (nearest (units p) unity + 2 ^ 52) := by
  have hlt := units_lt hp
  rw [units_wholePlace] at hlt ⊢
  have hexcess : Excess (units p + 2 ^ 52 * unity) 1 (0 + 1074) := by
    refine ⟨?_, .inr ?_⟩
    · rw [Nat.add_right_comm, two_pow_unity]
      omega
    · rw [Nat.add_right_comm, two_pow_unity]
      omega
  rw [nearestPlace_eq Nat.one_pos hexcess, two_pow_unity, Nat.pow_zero, Nat.one_mul, Nat.one_mul,
    nearest_add_mul _ unity_pos (by decide)]

/-- Adding `2 ^ 52` and subtracting it again rounds to the nearest whole number. -/
theorem size?_roundHalfEven (hx : size? x = some p) :
    size? (roundHalfEven x) = some (wholeNear p) := by
  unfold roundHalfEven
  split
  · rename_i hlt
    have hp := (abs_lt_iff hx place?_wholeFrom).mp hlt
    have hpend := hp.trans wholePlace_lt
    have hwhole := nearest_unity_le (Nat.le_of_lt hp)
    generalize hN : nearest (units p) unity = N at hwhole
    have hfits : (0 + 1074) * 2 ^ 52 + (N + 2 ^ 52) < endPlace := by
      unfold endPlace
      omega
    have hsum := place?_add (place?_abs_of_size? hx) place?_wholeFrom hpend wholePlace_lt
    rw [nearestPlace_sum hp, hN, Nat.min_eq_right (Nat.le_of_lt hfits)] at hsum
    have hdifference := place?_sub hsum place?_wholeFrom hfits (by unfold wholePlace; omega)
    have hunits : units ((0 + 1074) * 2 ^ 52 + (N + 2 ^ 52)) - units wholePlace = N * unity := by
      rw [units_eq (by omega) (.inr (Nat.le_add_left ..)), units_wholePlace, two_pow_unity,
        Nat.pow_zero, Nat.one_mul, ← Nat.sub_mul, Nat.add_sub_cancel]
    have hnear : nearestPlace (N * unity) 1 = wholeNear p := by rw [wholeNear, hN]
    rw [hunits, hnear, Nat.min_eq_right (Nat.le_of_lt (wholeNear_lt hpend))] at hdifference
    rw [size?_copySign, size?, hdifference, Option.map_some, Int.natAbs_natCast]
  · rename_i hnot
    have hp := Nat.le_of_not_lt (mt (abs_lt_iff hx place?_wholeFrom).mpr hnot)
    rw [hx, (wholeNear_of_le hp).1]

end Whole

section Multiples

/-- The place of 1. -/
def onePlace : Nat := 1023 * 2 ^ 52

theorem units_onePlace : units onePlace = unity := by decide +kernel

/-- The multiple of `c` nearest to `x`, as the quotient shows it. -/
def multipleNear (c x : Float) : Float := roundHalfEven (x / c) * c

/-- The place of the multiple of the float at `q` that is nearest to the float at `p`, which may be
beyond all finite floats. -/
def multiplePlace (q p : Nat) : Nat :=
  nearestPlace (nearest (units (nearestPlace (units p * unity) (units q))) unity * units q) 1

theorem multiplePlace_mono {p' : Nat} (hq : 0 < q) (h : p ≤ p') :
    multiplePlace q p ≤ multiplePlace q p' := by
  have hquotient := nearestPlace_mono (units_pos hq) (Nat.mul_le_mul_right unity (units_mono h))
  have hwhole := nearest_mono (b := unity) (units_mono hquotient)
  exact nearestPlace_mono Nat.one_pos (Nat.mul_le_mul_right (units q) hwhole)

/-- Dividing by what is at least 1 leads nowhere farther out. -/
theorem quotient_le (hq : onePlace ≤ q) : nearestPlace (units p * unity) (units q) ≤ p := by
  have hpos : 0 < units q := units_pos (Nat.lt_of_lt_of_le (by decide +kernel) hq)
  have hunity : unity ≤ units q := units_onePlace ▸ units_mono hq
  calc nearestPlace (units p * unity) (units q)
      ≤ nearestPlace (units p * units q) (units q) :=
        nearestPlace_mono hpos (Nat.mul_le_mul_left _ hunity)
    _ = nearestPlace (units p * units q) (1 * units q) := by rw [Nat.one_mul]
    _ = nearestPlace (units p) 1 := nearestPlace_mul_mul _ Nat.one_pos hpos
    _ = p := nearestPlace_units p

theorem size?_multipleNear (hx : size? x = some p) (hp : p < endPlace) (hc : size? c = some q)
    (hq : q < endPlace) (hone : onePlace ≤ q) :
    size? (multipleNear c x) = some (min endPlace (multiplePlace q p)) := by
  have hpos : 0 < q := Nat.lt_of_lt_of_le (by decide +kernel) hone
  have hlt := Nat.lt_of_le_of_lt (quotient_le (p := p) hone) hp
  have hquotient := size?_div hx hc hp hq hpos
  rw [Nat.min_eq_right (Nat.le_of_lt hlt)] at hquotient
  have hproduct := size?_mul (size?_roundHalfEven hquotient) hc (wholeNear_lt hlt) hq
  rw [units_wholeNear, Nat.mul_right_comm] at hproduct
  have hcancel := nearestPlace_mul_mul (nearest (units (nearestPlace (units p * unity) (units q)))
    unity * units q) Nat.one_pos unity_pos
  rw [Nat.one_mul] at hcancel
  rwa [hcancel] at hproduct

/-- How many of the largest finite floats become infinite when they are rounded to a multiple of
`10 ^ k`. -/
def lost : Nat → Nat
  | 6 | 7 | 12 | 20 | 34 | 40 | 64 | 74 | 82 | 89 | 90 | 93 | 105 | 108 | 109 | 110 | 114 | 118
  | 133 | 139 | 158 | 173 | 178 | 179 | 188 | 203 | 222 | 225 | 226 | 232 | 234 | 238 | 240 | 241
  | 247 | 259 | 271 | 272 | 274 => 1
  | 298 => 61702
  | 299 => 1815349
  | 304 => 216123815661
  | 305 => 967686950666
  | 306 => 13493739200721
  | 307 => 238962679701732
  | 308 => 1491567904707340
  | _ => 0

/-- Rounding to multiples of the float at the place `q` leads so many of the largest floats out of
the finite range, and no others. -/
structure Sharp (q count : Nat) : Prop where
  least : onePlace ≤ q
  finite : q < endPlace
  kept : multiplePlace q (endPlace - (count + 1)) < endPlace
  lost : count = 0 ∨ endPlace ≤ multiplePlace q (endPlace - count)

instance (q count : Nat) : Decidable (Sharp q count) :=
  decidable_of_iff (onePlace ≤ q ∧ q < endPlace ∧
    multiplePlace q (endPlace - (count + 1)) < endPlace ∧
      (count = 0 ∨ endPlace ≤ multiplePlace q (endPlace - count)))
    ⟨fun ⟨hleast, hfinite, hkept, hlost⟩ => ⟨hleast, hfinite, hkept, hlost⟩,
      fun ⟨hleast, hfinite, hkept, hlost⟩ => ⟨hleast, hfinite, hkept, hlost⟩⟩

/-- The table is checked at both sides of every border. -/
theorem sharp_tenTo : ∀ k ∈ List.range 309, ∃ q ∈ size? (tenTo k), Sharp q (lost k) := by
  decide +kernel

theorem Sharp.lt_iff {count : Nat} (h : Sharp q count) (hp : p < endPlace) :
    multiplePlace q p < endPlace ↔ p + count < endPlace := by
  have hpos : 0 < q := Nat.lt_of_lt_of_le (by decide +kernel) h.least
  constructor
  · intro hlt
    rcases h.lost with rfl | hlost
    · exact hp
    · by_contra hge
      exact Nat.not_lt.mpr hlost
        (Nat.lt_of_le_of_lt (multiplePlace_mono hpos (by omega)) hlt)
  · intro hlt
    exact Nat.lt_of_le_of_lt (multiplePlace_mono hpos (by omega)) h.kept

/-- Exactly so many of the largest floats are lost. -/
theorem multipleNear_finite_iff {k : Nat} (hk : k ≤ 308) (hx : size? x = some p)
    (hp : p < endPlace) :
    (multipleNear (tenTo k) x).isNaN = false ∧
      ((multipleNear (tenTo k) x).isFinite = true ↔ p + lost k < endPlace) := by
  obtain ⟨q, hq, hsharp⟩ := sharp_tenTo k (List.mem_range.mpr (by omega))
  have hsize := size?_multipleNear hx hp hq hsharp.finite hsharp.least
  refine ⟨isNaN_of_size? hsize, ?_⟩
  rw [isFinite_iff_size?, hsize, ← hsharp.lt_iff hp]
  simp

end Multiples

section Rounding

variable {digits : Int64}

/-- The float is one of the largest floats, which rounding to so many digits leads out of the finite
range. -/
def Overflows (x : Float) (digits : Int64) : Prop :=
  digits < 0 ∧ ∃ p ∈ size? x, endPlace ≤ p + lost (min 308 digits.toInt.natAbs)

theorem roundTo_of_neg (hx : x.isFinite = true) (hneg : digits < 0) :
    roundTo x digits = multipleNear (tenTo (min 308 digits.toInt.natAbs)) x := by
  have hsign : digits.toInt < 0 := Int64.lt_iff_toInt_lt.mp hneg
  have hplaces : ¬ 0 ≤ max (-308) (min 308 digits.toInt) := by omega
  have hcount : (max (-308) (min 308 digits.toInt)).natAbs = min 308 digits.toInt.natAbs := by omega
  simp only [roundTo, hx, if_true, if_neg hplaces, hcount, multipleNear]

theorem isFinite_roundTo_of_nonneg (hx : x.isFinite = true) (hnonneg : 0 ≤ digits) :
    (roundTo x digits).isFinite = true := by
  have hsign : 0 ≤ digits.toInt := Int64.le_iff_toInt_le.mp hnonneg
  have hplaces : 0 ≤ max (-308) (min 308 digits.toInt) := by omega
  simp only [roundTo, hx, if_true, if_pos hplaces]
  split
  · assumption
  · exact hx

theorem isFinite_roundTo_iff (hx : x.isFinite = true) (digits : Int64) :
    (roundTo x digits).isNaN = false ∧
      ((roundTo x digits).isFinite = true ↔ ¬ Overflows x digits) := by
  by_cases hneg : digits < 0
  · obtain ⟨p, hp, hlt⟩ := isFinite_iff_size?.mp hx
    have hmultiple := multipleNear_finite_iff (Nat.min_le_left 308 digits.toInt.natAbs) hp hlt
    rw [roundTo_of_neg hx hneg]
    refine ⟨hmultiple.1, hmultiple.2.trans ?_⟩
    simp [Overflows, hneg, hp]
  · have hfinite := isFinite_roundTo_of_nonneg hx (Int64.not_lt.mp hneg)
    obtain ⟨p, hp, -⟩ := isFinite_iff_size?.mp hfinite
    exact ⟨isNaN_of_size? hp, iff_of_true hfinite fun h => hneg h.1⟩

theorem lost_le (k : Nat) : lost k ≤ lost 308 := by
  unfold lost
  split <;> decide

/-- Large floats are safe as well, up to about 83% of the largest one. -/
theorem not_overflows_of_lt (h : x.abs < 1.5e308) : ¬ Overflows x digits := by
  rintro ⟨-, p, hp, hend⟩
  have hbound : place? 1.5e308 = some ((endPlace - 1491567904707344 : Nat) : Int) := by
    decide +kernel
  have hlt := (abs_lt_iff hp hbound).mp h
  have hlost : lost (min 308 digits.toInt.natAbs) ≤ 1491567904707340 := lost_le _
  omega

end Rounding

end Real

theorem outcome_round_float (s : State) (x : Float) (digits : Int64) (depth : Nat) :
    (Call.apply (.builtin Primitive.round.builtin) [.float x, .int digits] depth).outcome s =
      (.ok (.float (Real.roundTo x digits)), s) :=
  Call.outcome_of_run rfl rfl s depth

/-- Rounding a finite float gives a finite float, whatever the number of digits, unless the float is
above 1.5e308 in magnitude and one of those that overflow. -/
theorem rounded_float_iff (s : State) {x : Float} (hx : x.isFinite = true) (digits : Int64)
    (depth : Nat) :
    ∃ y : Float,
      (Call.apply (.builtin Primitive.round.builtin) [.float x, .int digits] depth).outcome s =
        (.ok (.float y), s) ∧
      y.isNaN = false ∧
      (y.isFinite = true ↔ ¬ Real.Overflows x digits) ∧
      (x.abs < 1.5e308 → y.isFinite = true) := by
  obtain ⟨hnan, hfinite⟩ := Real.isFinite_roundTo_iff hx digits
  exact ⟨_, outcome_round_float s x digits depth, hnan, hfinite,
    fun hsmall => hfinite.mpr (Real.not_overflows_of_lt hsmall)⟩

/-- The largest float keeps its first eight digits and stays finite. -/
theorem rounded_float_iff_largest :
    (1.7976931348623157e308 : Float).isFinite = true ∧ ∃ y : Float,
      (Call.apply (.builtin Primitive.round.builtin)
        [.float 1.7976931348623157e308, .int (-301)] 0).outcome .standard =
        (.ok (.float y), .standard) ∧ y.isFinite = true := by
  have hlargest : (1.7976931348623157e308 : Float).isFinite = true := by decide +kernel
  have hplace : Real.size? 1.7976931348623157e308 = some (Real.endPlace - 1) := by decide +kernel
  obtain ⟨y, houtcome, -, hy, -⟩ := rounded_float_iff .standard hlargest (-301) 0
  refine ⟨hlargest, y, houtcome, hy.mpr ?_⟩
  rintro ⟨-, p, hp, hend⟩
  obtain rfl : Real.endPlace - 1 = p := Option.some.inj (hplace.symm.trans hp)
  exact absurd hend (by decide +kernel)

/-- 1.7 is rounded to 2, and 2e308 is beyond the largest float. -/
theorem not_rounded_float_finite :
    (1.7e308 : Float).isFinite = true ∧ ∃ y : Float,
      (Call.apply (.builtin Primitive.round.builtin) [.float 1.7e308, .int (-308)] 0).outcome
        .standard = (.ok (.float y), .standard) ∧ y.isInf = true ∧ y.isFinite = false :=
  ⟨by decide +kernel, _, outcome_round_float _ _ _ _, by decide +kernel, by decide +kernel⟩

end MiniLisp
