import MiniLisp.Decimal.Layout
import MiniLisp.Decimal.Literal

/-!
# Texts of numbers

The text of an integer reads as that integer (`int?_toString`). The text of a float is never read as
an integer, for it holds a point, an exponent or a name (`int?_text`). Both are written with few
characters (`IsNumeral`), none of which ends a word.
-/

namespace MiniLisp.Decimal

/-- The characters that numbers are written with. -/
def IsNumeral (c : Char) : Prop := c.isDigit = true ∨ c ∈ ['-', '.', 'e', 'i', 'n', 'f', 'a']

instance : DecidablePred IsNumeral := fun c =>
  inferInstanceAs (Decidable (c.isDigit = true ∨ c ∈ ['-', '.', 'e', 'i', 'n', 'f', 'a']))

theorem isNumeral_of_mem_all {cs : List Char} (h : cs.all (IsNumeral ·) = true) {c : Char}
    (hc : c ∈ cs) : IsNumeral c :=
  of_decide_eq_true (List.all_eq_true.mp h c hc)

/-- A character that is neither a digit nor a sign. -/
structure IsMark (c : Char) : Prop where
  digit : c.isDigit = false
  minus : c ≠ '-'
  plus : c ≠ '+'

theorem isMark_point : IsMark '.' := ⟨by decide, by decide, by decide⟩

theorem isMark_exponent : IsMark 'e' := ⟨by decide, by decide, by decide⟩

theorem isMark_name : IsMark 'n' := ⟨by decide, by decide, by decide⟩

theorem isDigit_of_mem_toDigits {n : Nat} {c : Char} (h : c ∈ Nat.toDigits 10 n) :
    c.isDigit = true :=
  Nat.isDigit_of_mem_toDigits (by decide) (by decide) h

theorem digitsValue_eq (digits : List Char) : digitsValue digits = Nat.ofDigitChars 10 digits 0 :=
  Nat.ofDigitChars_eq_foldl.symm

@[simp] theorem digitsValue_toDigits (n : Nat) : digitsValue (Nat.toDigits 10 n) = n := by
  rw [digitsValue_eq]
  exact Nat.ofDigitChars_toDigits (by decide) (by decide)

/-- A word that does not begin with a sign has none. -/
theorem splitSign_of_isDigit {word : List Char} (h : ∀ c ∈ word, c.isDigit = true) :
    splitSign word = (false, word) := by
  cases word with
  | nil => rfl
  | cons c rest =>
    have hc := h c (.head _)
    unfold splitSign
    split
    · rename_i he
      cases he
      exact absurd hc (by decide)
    · rename_i he
      cases he
      exact absurd hc (by decide)
    · rfl

theorem toList_toString (n : Int) : (toString n).toList =
    if 0 ≤ n then Nat.toDigits 10 n.natAbs else '-' :: Nat.toDigits 10 n.natAbs := by
  rw [Int.toString_eq_repr, Int.repr_eq_if]
  by_cases hn : 0 ≤ n
  · have habs : n.toNat = n.natAbs := by omega
    simp [hn, habs, Nat.repr_eq_ofList_toDigits]
  · have habs : (-n).toNat = n.natAbs := by omega
    simp [hn, habs, Nat.repr_eq_ofList_toDigits]

theorem isNumeral_of_mem_toString {n : Int} {c : Char} (h : c ∈ (toString n).toList) :
    IsNumeral c := by
  rw [toList_toString] at h
  split at h
  · exact .inl (isDigit_of_mem_toDigits h)
  · rcases List.mem_cons.mp h with rfl | h
    · exact .inr (by decide)
    · exact .inl (isDigit_of_mem_toDigits h)

theorem toString_ne_nil (n : Int) : (toString n).toList ≠ [] := by
  rw [toList_toString]
  split
  · exact Nat.toDigits_ne_nil
  · exact List.cons_ne_nil _ _

/-- An integer reads back from its text. -/
theorem int?_toString (n : Int64) : int? (toString n.toInt).toList = some n := by
  have hdigits : (Nat.toDigits 10 n.toInt.natAbs).all Char.isDigit = true :=
    List.all_eq_true.mpr fun _ h => isDigit_of_mem_toDigits h
  have hne : (Nat.toDigits 10 n.toInt.natAbs).isEmpty = false := by
    simp [Nat.toDigits_ne_nil]
  rw [toList_toString]
  by_cases hn : 0 ≤ n.toInt
  · have hsign := splitSign_of_isDigit fun c (h : c ∈ Nat.toDigits 10 n.toInt.natAbs) =>
      isDigit_of_mem_toDigits h
    have hvalue : ((n.toInt.natAbs : Nat) : Int) = n.toInt := by omega
    rw [if_pos hn]
    simp only [int?, hsign, hdigits, hne, digitsValue_toDigits, hvalue]
    exact int64?_eq_some_iff.mpr rfl
  · have hvalue : -((n.toInt.natAbs : Nat) : Int) = n.toInt := by omega
    rw [if_neg hn]
    simp only [int?, splitSign, hdigits, hne, digitsValue_toDigits, hvalue]
    exact int64?_eq_some_iff.mpr rfl

theorem int?_of_isMark {word : List Char} {c : Char} (h : c ∈ word) (hc : IsMark c) :
    int? word = none := by
  have hrest : c ∈ (splitSign word).2 := by
    unfold splitSign
    split
    · exact (List.mem_cons.mp h).resolve_left hc.minus
    · exact (List.mem_cons.mp h).resolve_left hc.plus
    · exact h
  have hall : (splitSign word).2.all Char.isDigit = false :=
    List.all_eq_false.mpr ⟨c, hrest, by simp [hc.digit]⟩
  simp [int?, hall]

section Floats

variable {digits : List Char} {point : Int} {c : Char}

theorem place_pointZero (digits : List Char) (point : Int) : place true digits point =
    if point ≤ 0 then '0' :: '.' :: (List.replicate (-point).toNat '0' ++ digits)
    else if digits.length ≤ point then
      digits ++ List.replicate (point.toNat - digits.length) '0' ++ ['.', '0']
    else digits.take point.toNat ++ '.' :: digits.drop point.toNat := rfl

theorem isNumeral_of_mem_replicate {n : Nat} (h : c ∈ List.replicate n '0') : IsNumeral c := by
  rw [(List.mem_replicate.mp h).2]
  decide

theorem isNumeral_of_mem_place (hd : ∀ c ∈ digits, IsNumeral c)
    (h : c ∈ place true digits point) : IsNumeral c := by
  rw [place_pointZero] at h
  split at h
  · simp only [List.mem_cons, List.mem_append] at h
    rcases h with rfl | rfl | h | h
    · decide
    · decide
    · exact isNumeral_of_mem_replicate h
    · exact hd c h
  · split at h
    · simp only [List.mem_append] at h
      rcases h with (h | h) | h
      · exact hd c h
      · exact isNumeral_of_mem_replicate h
      · exact isNumeral_of_mem_all (by decide) h
    · simp only [List.mem_append, List.mem_cons] at h
      rcases h with h | rfl | h
      · exact hd c (List.mem_of_mem_take h)
      · decide
      · exact hd c (List.mem_of_mem_drop h)

theorem isNumeral_of_mem_placeExponent (hd : ∀ c ∈ digits, IsNumeral c)
    (h : c ∈ placeExponent digits point) : IsNumeral c := by
  simp only [placeExponent, List.mem_append, List.mem_cons] at h
  rcases h with (h | h) | rfl | h
  · exact hd c (List.mem_of_mem_take h)
  · split at h
    · cases h
    · rcases List.mem_cons.mp h with rfl | h
      · decide
      · exact hd c (List.mem_of_mem_drop h)
  · decide
  · exact isNumeral_of_mem_toString h

theorem point_mem_place (digits : List Char) (point : Int) : '.' ∈ place true digits point := by
  rw [place_pointZero]
  split
  · simp
  · split <;> simp

theorem exponent_mem_placeExponent (digits : List Char) (point : Int) :
    'e' ∈ placeExponent digits point := by
  simp [placeExponent]

/-- How the magnitude of a finite float is written: as zero, or around its digits in one of two
ways. -/
theorem magnitude_cases (x : Float) : Layout.value.magnitude x = ['0', '.', '0'] ∨
    ∃ n point, Layout.value.magnitude x = place true (Nat.toDigits 10 n) point ∨
      Layout.value.magnitude x = placeExponent (Nat.toDigits 10 n) point := by
  simp only [Layout.magnitude, Layout.value]
  split
  · exact .inl rfl
  · split
    · exact .inr ⟨_, _, .inl rfl⟩
    · exact .inr ⟨_, _, .inr rfl⟩

theorem isNumeral_of_mem_magnitude {x : Float} (h : c ∈ Layout.value.magnitude x) :
    IsNumeral c := by
  have hdigits {n : Nat} : ∀ c ∈ Nat.toDigits 10 n, IsNumeral c := fun _ hc =>
    .inl (isDigit_of_mem_toDigits hc)
  rcases magnitude_cases x with hx | ⟨n, point, hx | hx⟩
  · rw [hx] at h
    exact isNumeral_of_mem_all (by decide) h
  · rw [hx] at h
    exact isNumeral_of_mem_place hdigits h
  · rw [hx] at h
    exact isNumeral_of_mem_placeExponent hdigits h

theorem exists_isMark_mem_magnitude (x : Float) : ∃ c ∈ Layout.value.magnitude x, IsMark c := by
  rcases magnitude_cases x with hx | ⟨n, point, hx | hx⟩
  · exact ⟨'.', by simp [hx], isMark_point⟩
  · exact ⟨'.', by rw [hx]; exact point_mem_place _ _, isMark_point⟩
  · exact ⟨'e', by rw [hx]; exact exponent_mem_placeExponent _ _, isMark_exponent⟩

/-- The text of a float is a name or a magnitude, after a sign if there is one. -/
theorem text_cases (x : Float) : Layout.value.text x = "nan" ∨
    ∃ sign, (sign = [] ∨ sign = ['-']) ∧
      ((Layout.value.text x).toList = sign ++ "inf".toList ∨
        (Layout.value.text x).toList = sign ++ Layout.value.magnitude x) := by
  have hsign : (if isNegative x then ['-'] else []) = [] ∨
      (if isNegative x then ['-'] else []) = ['-'] := by
    split
    · exact .inr rfl
    · exact .inl rfl
  unfold Layout.text
  by_cases hnan : x.isNaN = true
  · exact .inl (if_pos hnan)
  · refine .inr ⟨_, hsign, ?_⟩
    rw [if_neg hnan]
    by_cases hinf : x.isInf = true
    · exact .inl (by simp [hinf])
    · exact .inr (by simp [hinf])

theorem isNumeral_of_mem_text {x : Float} (h : c ∈ (Layout.value.text x).toList) : IsNumeral c := by
  rcases text_cases x with hx | ⟨sign, hsign, hx⟩
  · rw [hx] at h
    exact isNumeral_of_mem_all (by decide) h
  · have hminus (hc : c ∈ sign) : IsNumeral c := by
      rcases hsign with rfl | rfl
      · cases hc
      · exact isNumeral_of_mem_all (by decide) hc
    rcases hx with hx | hx
    · rw [hx, List.mem_append] at h
      exact h.elim hminus fun hc => isNumeral_of_mem_all (by decide) hc
    · rw [hx, List.mem_append] at h
      exact h.elim hminus isNumeral_of_mem_magnitude

/-- The text of a float holds a point, an exponent or a name. -/
theorem exists_isMark_mem_text (x : Float) : ∃ c ∈ (Layout.value.text x).toList, IsMark c := by
  rcases text_cases x with hx | ⟨sign, -, hx | hx⟩
  · exact ⟨'n', by rw [hx]; decide, isMark_name⟩
  · exact ⟨'n', by rw [hx]; exact List.mem_append_right _ (by decide), isMark_name⟩
  · obtain ⟨c, hc, hmark⟩ := exists_isMark_mem_magnitude x
    exact ⟨c, by rw [hx]; exact List.mem_append_right _ hc, hmark⟩

/-- The text of a float is not read as an integer. -/
theorem int?_text (x : Float) : int? (Layout.value.text x).toList = none := by
  obtain ⟨c, hc, hmark⟩ := exists_isMark_mem_text x
  exact int?_of_isMark hc hmark

theorem text_ne_nil (x : Float) : (Layout.value.text x).toList ≠ [] := by
  obtain ⟨c, hc, -⟩ := exists_isMark_mem_text x
  exact List.ne_nil_of_mem hc

end Floats

end MiniLisp.Decimal
