import MiniLisp.Proofs.Eval.Primitive
import MiniLisp.Proofs.Number.Nearest

/-!
# The order of numbers

Two integers are compared exactly and all other pairs by the places of their floats. The two ways
agree as far as places tell integers apart (`Number.order_of_place_lt`), which is enough to make one
order of them (`Number.order_trans`): the comparisons and `=` never contradict each other, and only
NaN is left out.
-/

namespace MiniLisp

namespace Primitive

/-- Applied to `u` and `v`, in any state and at any depth, the primitive answers `answer` and leaves
the state as it is. -/
def Answers (p : Primitive) (u v : Value) (answer : Bool) : Prop :=
  ∀ s depth, (Call.apply (.builtin p.builtin) [u, v] depth).outcome s = (.ok (.bool answer), s)

variable {p : Primitive} {u v : Value} {answer answer' : Bool}

theorem answers_of_run (hcount : p.entry.arity.accepts [u, v].length = true)
    (hrun : p.entry.run [u, v] = .ok ⟨.value (.bool answer), ""⟩) : p.Answers u v answer := by
  intro s depth
  exact Call.outcome_of_run (r := .ok (.bool answer)) hcount hrun s depth

theorem Answers.unique (h : p.Answers u v answer) (h' : p.Answers u v answer') :
    answer = answer' := by
  have heq := (h .empty 0).symm.trans (h' .empty 0)
  cases heq
  rfl

theorem Answers.true_iff (h : p.Answers u v answer) : p.Answers u v true ↔ answer = true :=
  ⟨fun h' => h.unique h', fun heq => heq ▸ h⟩

theorem answers_equal (u v : Value) : Primitive.equal.Answers u v (u.equal v) :=
  answers_of_run rfl rfl

theorem answers_numericEqual (u v : Value) : Primitive.numericEqual.Answers u v (u.equal v) :=
  answers_of_run rfl rfl

theorem answers_of_equality (hp : p = .equal ∨ p = .numericEqual) (u v : Value) :
    p.Answers u v (u.equal v) := by
  rcases hp with rfl | rfl
  · exact answers_equal u v
  · exact answers_numericEqual u v

theorem answers_compare (c : Comparison) (a b : Number) :
    (Primitive.compare c).Answers (.ofNumber a) (.ofNumber b) (Number.stands c.orders a b) :=
  answers_of_run rfl (by cases a <;> cases b <;> rfl)

end Primitive

namespace Number

variable {a b c : Number} {p q : Int}

/-- The place of the float that a number is or comes nearest to. -/
def place? (a : Number) : Option Int := Real.place? a.toReal

theorem place?_int (n : Int64) : (int n).place? = some (Real.rank n.toInt) :=
  Real.place?_realOf n

inductive IsNaN : Number → Prop where
  | float {x : Float} (h : x.isNaN = true) : IsNaN (.float x)

theorem place?_eq_none_iff : a.place? = none ↔ a.IsNaN := by
  cases a with
  | int n =>
    rw [place?_int]
    exact ⟨nofun, nofun⟩
  | float x => exact Real.place?_eq_none_iff.trans ⟨.float, fun | .float h => h⟩

/-- Integers compare exactly, and with a float on one side the order is that of the places. -/
theorem order_cases (a b : Number) : (∃ m n, a = .int m ∧ b = .int n) ∨
    a.order b = a.place?.bind fun p => b.place?.map (compare p) := by
  cases a with
  | int m =>
    cases b with
    | int n => exact .inl ⟨m, n, rfl, rfl⟩
    | float y => exact .inr (Real.orderReal_eq _ y)
  | float x => exact .inr (Real.orderReal_eq x _)

theorem order_eq_none_iff : a.order b = none ↔ a.IsNaN ∨ b.IsNaN := by
  rcases order_cases a b with ⟨m, n, rfl, rfl⟩ | h
  · exact ⟨nofun, fun h => by rcases h with h | h <;> cases h⟩
  · rw [h, ← place?_eq_none_iff, ← place?_eq_none_iff]
    cases a.place? <;> cases b.place? <;> simp

theorem order_swap (a b : Number) : b.order a = (a.order b).map .swap := by
  rcases order_cases a b with ⟨m, n, rfl, rfl⟩ | h
  · exact congrArg some (Int.compare_swap _ _).symm
  · rcases order_cases b a with ⟨n, m, rfl, rfl⟩ | h'
    · exact congrArg some (Int.compare_swap _ _).symm
    · rw [h, h']
      cases a.place? <;> cases b.place? <;> simp [Int.compare_swap]

/-- What stands further down is less, also where integers are compared exactly. -/
theorem order_of_place_lt (hp : a.place? = some p) (hq : b.place? = some q) (h : p < q) :
    a.order b = some .lt := by
  rcases order_cases a b with ⟨m, n, rfl, rfl⟩ | horder
  · rw [place?_int, Option.some.injEq] at hp hq
    refine congrArg some (Int.compare_eq_lt.mpr (Int.not_le.mp fun hle => ?_))
    have := Real.rank_mono hle
    omega
  · rw [horder, hp, hq]
    exact congrArg some (Int.compare_eq_lt.mpr h)

/-- Only integers that share a place can be less than each other without standing further down. -/
theorem place_lt_of_order (h : a.order b = some .lt) : ∃ p q, a.place? = some p ∧
    b.place? = some q ∧ (p < q ∨ p = q ∧ ∃ m n, a = .int m ∧ b = .int n) := by
  rcases order_cases a b with ⟨m, n, rfl, rfl⟩ | horder
  · refine ⟨_, _, place?_int m, place?_int n, ?_⟩
    have hlt : m.toInt < n.toInt := Int.compare_eq_lt.mp (Option.some.inj h)
    rcases Int.lt_or_eq_of_le (Real.rank_mono (Int.le_of_lt hlt)) with hrank | hrank
    · exact .inl hrank
    · exact .inr ⟨hrank, m, n, rfl, rfl⟩
  · rw [horder] at h
    simp only [Option.bind_eq_some_iff, Option.map_eq_some_iff, Int.compare_eq_lt] at h
    obtain ⟨p, hp, q, hq, hlt⟩ := h
    exact ⟨p, q, hp, hq, .inl hlt⟩

theorem order_trans (h : a.order b = some .lt) (h' : b.order c = some .lt) :
    a.order c = some .lt := by
  obtain ⟨p, q, hp, hq, hpq⟩ := place_lt_of_order h
  obtain ⟨q', r, hq', hr, hqr⟩ := place_lt_of_order h'
  obtain rfl : q = q' := Option.some.inj (hq.symm.trans hq')
  rcases hpq with hpq | ⟨rfl, m, n, rfl, rfl⟩
  · exact order_of_place_lt hp hr (by omega)
  · rcases hqr with hqr | ⟨rfl, n', k, hn, rfl⟩
    · exact order_of_place_lt hp hr hqr
    · -- three integers at one place, where only the exact comparison tells
      cases hn
      have hmn : m.toInt < n.toInt := Int.compare_eq_lt.mp (Option.some.inj h)
      have hnk : n.toInt < k.toInt := Int.compare_eq_lt.mp (Option.some.inj h')
      exact congrArg some (Int.compare_eq_lt.mpr (Int.lt_trans hmn hnk))

/-- Equality is decided elsewhere and in its own way, but it is the equality of this order. -/
theorem equal_iff_order (a b : Number) :
    (Value.ofNumber a).equal (.ofNumber b) = true ↔ a.order b = some .eq := by
  have hreal {x y : Float} : (x == y) = true ↔ orderReal x y = some .eq := by
    rw [Real.beq_iff_compare, Real.orderReal_eq, Real.compare_eq_place?]
  cases a with
  | int m =>
    cases b with
    | int n =>
      rw [order, Option.some.injEq, Int.compare_eq_eq, Int64.toInt_inj]
      exact beq_iff_eq
    | float y => exact hreal
  | float x =>
    cases b with
    | int n =>
      -- here the two ways take the operands in opposite orders
      rw [order_swap (.int n), Option.map_eq_some_iff]
      simp only [Ordering.swap_eq_eq, exists_eq_right]
      exact hreal
    | float y => exact hreal

end Number

namespace Primitive

variable {a b : Number}

/-- The primitive answers true when it is applied to the two numbers. -/
def Holds (p : Primitive) (a b : Number) : Prop := p.Answers (.ofNumber a) (.ofNumber b) true

theorem holds_compare_iff {c : Comparison} :
    (Primitive.compare c).Holds a b ↔ ∃ o ∈ c.orders, a.order b = some o := by
  rw [Holds, (answers_compare c a b).true_iff, Number.stands]
  cases a.order b <;> simp

theorem holds_numericEqual_iff : Primitive.numericEqual.Holds a b ↔ a.order b = some .eq := by
  rw [Holds, (answers_numericEqual _ _).true_iff, Number.equal_iff_order]

theorem holds_below_iff : (Primitive.compare .below).Holds a b ↔ a.order b = some .lt := by
  simp [holds_compare_iff, Comparison.orders]

theorem holds_above_iff : (Primitive.compare .above).Holds a b ↔ a.order b = some .gt := by
  simp [holds_compare_iff, Comparison.orders]

/-- What tells that two numbers stand in a given order. -/
def telling : Ordering → Primitive
  | .lt => .compare .below
  | .eq => .numericEqual
  | .gt => .compare .above

theorem holds_telling_iff {o : Ordering} : (telling o).Holds a b ↔ a.order b = some o := by
  cases o
  · exact holds_below_iff
  · exact holds_numericEqual_iff
  · exact holds_above_iff

theorem mem_telling_iff {p : Primitive} :
    p ∈ [.compare .below, .numericEqual, .compare .above] ↔ ∃ o, p = telling o := by
  simp only [List.mem_cons, List.not_mem_nil, or_false]
  constructor
  · rintro (rfl | rfl | rfl)
    · exact ⟨.lt, rfl⟩
    · exact ⟨.eq, rfl⟩
    · exact ⟨.gt, rfl⟩
  · rintro ⟨o, rfl⟩
    cases o <;> simp [telling]

end Primitive

namespace Number

open Primitive

/-- The comparisons and `=` agree on one order of the numbers, whether integers or floats: of less,
equal and greater one holds and no other, or none at all for NaN, the remaining comparisons follow
from these, and less is transitive. -/
theorem comparisons_make_an_order (a b c : Number) :
    (∀ p : Primitive, p = .numericEqual ∨ (∃ c, p = .compare c) →
      ∃ answer, p.Answers (.ofNumber a) (.ofNumber b) answer) ∧
    (¬ a.IsNaN ∧ ¬ b.IsNaN →
      ∃! p : Primitive, p ∈ [.compare .below, .numericEqual, .compare .above] ∧ p.Holds a b) ∧
    (a.IsNaN ∨ b.IsNaN →
      ∀ p : Primitive, p ∈ [.compare .below, .numericEqual, .compare .above] → ¬ p.Holds a b) ∧
    ((Primitive.compare .above).Holds a b ↔ (Primitive.compare .below).Holds b a) ∧
    ((Primitive.compare .notAbove).Holds a b ↔
      (Primitive.compare .below).Holds a b ∨ Primitive.numericEqual.Holds a b) ∧
    ((Primitive.compare .notBelow).Holds a b ↔
      (Primitive.compare .above).Holds a b ∨ Primitive.numericEqual.Holds a b) ∧
    ((Primitive.compare .below).Holds a b → (Primitive.compare .below).Holds b c →
      (Primitive.compare .below).Holds a c) := by
  refine ⟨?_, fun hnumbers => ?_, fun hnan p hp hholds => ?_, ?_, ?_, ?_, ?_⟩
  · rintro p (rfl | ⟨c, rfl⟩)
    · exact ⟨_, answers_numericEqual _ _⟩
    · exact ⟨_, answers_compare c a b⟩
  · obtain ⟨o, ho⟩ := Option.ne_none_iff_exists'.mp
      (mt order_eq_none_iff.mp (not_or.mpr hnumbers))
    refine ⟨telling o, ⟨mem_telling_iff.mpr ⟨o, rfl⟩, holds_telling_iff.mpr ho⟩, ?_⟩
    rintro p ⟨hp, hholds⟩
    obtain ⟨o', rfl⟩ := mem_telling_iff.mp hp
    rw [holds_telling_iff, ho, Option.some.injEq] at hholds
    rw [hholds]
  · obtain ⟨o, rfl⟩ := mem_telling_iff.mp hp
    rw [holds_telling_iff, order_eq_none_iff.mpr hnan] at hholds
    cases hholds
  · rw [holds_above_iff, holds_below_iff, order_swap b a, Option.map_eq_some_iff]
    simp only [Ordering.swap_eq_gt, exists_eq_right]
  · rw [holds_compare_iff, holds_below_iff, holds_numericEqual_iff]
    simp [Comparison.orders]
  · rw [holds_compare_iff, holds_above_iff, holds_numericEqual_iff]
    simp [Comparison.orders]
  · rw [holds_below_iff, holds_below_iff, holds_below_iff]
    exact order_trans

end Number

end MiniLisp
