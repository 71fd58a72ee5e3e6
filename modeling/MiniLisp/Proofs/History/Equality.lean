import MiniLisp.Proofs.History.Identity
import MiniLisp.Proofs.Value.Equality

/-!
# Identity and equality

Identity is decided by what a value was made with, equality by what is in it. In every situation
that a host program may come to the two fit together, because an identity stands for one value
only: identical values are the same, but for lists without items and for procedures of the language
or of the host that go by one name (`Reached.identical_cases`). So what is identical is equal as
soon as it is equal to itself.
-/

namespace MiniLisp

namespace Value

variable {a b : Value}

theorem identical_comm (a b : Value) : a.identical b = b.identical a := by
  cases a <;> cases b <;> simp only [identical, Bool.beq_comm, Bool.and_comm]

/-- Different values that are identical: lists without items, and procedures with one name. -/
inductive Twins : Value → Value → Prop where
  | nil (i j : Nat) : Twins (.list i []) (.list j [])
  | builtin {p q : Builtin} (h : p.id = q.id) : Twins (.builtin p) (.builtin q)

theorem Twins.trans {a b c : Value} (h : Twins a b) (h' : Twins b c) : Twins a c := by
  cases h with
  | nil i j => cases h' with | nil _ k => exact .nil i k
  | builtin h => cases h' with | builtin h' => exact .builtin (h.trans h')

theorem Twins.identical (h : Twins a b) : a.identical b = true := by
  cases h with
  | nil => rfl
  | builtin h => exact beq_iff_eq.mpr h

theorem Twins.equal (h : Twins a b) : a.equal b = true := by
  cases h with
  | nil => rfl
  | builtin h => exact beq_iff_eq.mpr h

end Value

namespace Reached

variable {x : Situation} {a b c : Value}

/-- What is identical is the same, or it might as well be. -/
theorem identical_cases (hx : Reached x) (ha : x.Shows a) (hb : x.Shows b)
    (h : a.identical b = true) : a = b ∨ a.Twins b := by
  have hid {i : Nat} (hi : a.id? = some i) (hj : b.id? = some i) : a = b :=
    hx.eq_of_id .refl ha hb hi hj
  cases a with
  | list i vs =>
    cases b with
    | list j ws =>
      have hlists : (vs = [] ∧ ws = []) ∨ i = j := by simpa [Value.identical] using h
      rcases hlists with ⟨rfl, rfl⟩ | rfl
      · exact .inr (.nil i j)
      · exact .inl (hid rfl rfl)
    | _ => cases h
  | closure c =>
    cases b with
    | closure d => exact .inl (hid rfl (congrArg some (beq_iff_eq.mp h).symm))
    | _ => cases h
  | builtin p =>
    cases b with
    | builtin q => exact .inr (.builtin (beq_iff_eq.mp h))
    | _ => cases h
  | float u =>
    cases b with
    | float v => exact .inl (congrArg _ (Float.toBits_inj.mp (beq_iff_eq.mp h)))
    | _ => cases h
  | _ => cases b <;> simp_all [Value.identical]

theorem identical_trans (hx : Reached x) (ha : x.Shows a) (hb : x.Shows b) (hc : x.Shows c)
    (h : a.identical b = true) (h' : b.identical c = true) : a.identical c = true := by
  rcases hx.identical_cases ha hb h with rfl | htwins
  · exact h'
  · rcases hx.identical_cases hb hc h' with rfl | htwins'
    · exact h
    · exact (htwins.trans htwins').identical

theorem equal_of_identical (hx : Reached x) (ha : x.Shows a) (hb : x.Shows b)
    (h : a.identical b = true) (hself : a.equal a = true) : a.equal b = true := by
  rcases hx.identical_cases ha hb h with rfl | htwins
  · exact hself
  · exact htwins.equal

end Reached

/-- Equality is symmetric and holds of a value and itself unless a NaN or an unspecified value is
somewhere in it. Identity is symmetric and transitive and holds of everything but the unspecified
value. And what is identical is equal, if it equals itself. -/
theorem identity_and_equality_agree {x : Situation} (hx : Reached x) {a b c : Value}
    (ha : x.Shows a) (hb : x.Shows b) (hc : x.Shows c) :
    a.equal b = b.equal a ∧
    (a.equal a = true ↔ ∀ u : Value, u.Part a → ¬ u.Unmatched) ∧
    a.identical b = b.identical a ∧
    (a.identical b = true → b.identical c = true → a.identical c = true) ∧
    (a.identical a = true ↔ a ≠ .unspecified) ∧
    (a.identical b = true → (∀ u : Value, u.Part a → ¬ u.Unmatched) → a.equal b = true) :=
  ⟨a.equal_comm b, Value.equal_self_iff, a.identical_comm b, hx.identical_trans ha hb hc,
    Value.identical_self_iff, fun h hparts =>
      hx.equal_of_identical ha hb h (Value.equal_self_iff.mpr hparts)⟩

/-- A list with NaN in it is not equal to itself, but identical. Two lists with nothing in them are
both. -/
theorem identity_and_equality_agree_nan :
    let nan : Value := .float Real.nan
    let one : Value := .list 0 [nan]
    let x : Situation := ⟨{ State.empty with fresh := 3 }, {.list 2 [], .list 1 [], one, nan}⟩
    Reached x ∧ x.Shows one ∧ one.identical one = true ∧ one.equal one = false ∧
      x.Shows (.list 1 []) ∧ x.Shows (.list 2 []) ∧
      (Value.list 1 []).identical (.list 2 []) = true ∧
      (Value.list 1 []).equal (.list 2 []) = true := by
  intro nan one x
  have hx : Reached x := by
    have hstart : Reached ⟨.empty, {nan}⟩ := by
      have hatom : Reached ⟨.empty, insert nan ∅⟩ := .single (.atom trivial)
      rwa [insert_empty_eq] at hatom
    have hone := hstart.tail (.make (d := .list [.value nan]) (.list fun d hd => by
      rw [List.mem_singleton.mp hd]
      exact .value (Set.mem_singleton nan)))
    have hfirst := hone.tail (.make (d := .list []) (.list nofun))
    exact hfirst.tail (.make (d := .list []) (.list nofun))
  have hone : x.Shows one := .held (by simp [x]) .self
  have hleft : x.Shows (.list 1 []) := .held (by simp [x]) .self
  have hright : x.Shows (.list 2 []) := .held (by simp [x]) .self
  have hnan : nan.Unmatched := .nan (by decide +kernel)
  obtain ⟨-, hself, -, -, hidentical, -⟩ := identity_and_equality_agree hx hone hone hone
  obtain ⟨-, -, -, -, -, hequal⟩ := identity_and_equality_agree hx hleft hright hright
  have hparts (u : Value) (hu : u.Part (.list 1 [])) : ¬ u.Unmatched := by
    cases hu with
    | self => exact nofun
    | item hv => cases hv
  have hitem : nan.Part one := .item (List.mem_singleton.mpr rfl) .self
  have hunequal : one.equal one = false := Bool.eq_false_iff.mpr fun h => hself.mp h nan hitem hnan
  exact ⟨hx, hone, hidentical.mpr nofun, hunequal, hleft, hright, rfl, hequal rfl hparts⟩

end MiniLisp
