import MiniLisp.Proofs.Eval.Primitive
import MiniLisp.Proofs.Number.Word
import Mathlib.Data.Nat.Factorial.Basic
import Mathlib.Logic.Relation
import Mathlib.Order.Bounds.Defs

/-!
# Factorials

The factors from two to `n` are multiplied one after the other (`Product.Step`), up to the last one
or to the first product that fits no word (`Product.Ends`). Every product on the way is a factorial
(`Product.Run.exact`), and factorials only grow. So one of them fits no word just if the last one
does not, and however large `n` is, the multiplications stop at the first factorial that is too
large (`factorial_is_exact`).
-/

namespace MiniLisp

namespace Product

/-- One multiplication. A pair holds the product of the factors so far and the factor that is due. -/
inductive Step (n : Nat) : Int64 × Nat → Int64 × Nat → Prop where
  | multiply {acc product : Int64} {i : Nat} (hi : i ≤ n)
      (hproduct : wordOr "factorial" (acc.toInt * i) = .ok product) :
      Step n (acc, i) (product, i + 1)

/-- Any number of multiplications. -/
abbrev Run (n : Nat) : Int64 × Nat → Int64 × Nat → Prop := Relation.ReflTransGen (Step n)

/-- Where there is nothing left to multiply, or the next product fits no word, and the result. -/
inductive Ends (n : Nat) : Int64 × Nat → Except Error Int64 → Prop where
  | product {acc : Int64} {i : Nat} (hi : n < i) : Ends n (acc, i) (.ok acc)
  | overflow {acc : Int64} {i : Nat} (hi : i ≤ n) (hbig : ¬ FitsWord (acc.toInt * i)) :
      Ends n (acc, i) (.error (.arithmetic (.overflow "factorial")))

/-- The product that comes next, the one that may fit no word, is the factorial of the factor that
is due. -/
def Exact (p : Int64 × Nat) : Prop := p.1.toInt * p.2 = p.2.factorial

variable {n : Nat} {p q q' : Int64 × Nat} {result : Except Error Int64}

namespace Step

theorem rightUnique : Relator.RightUnique (Step n) := by
  intro p q q' h h'
  cases h with
  | multiply hi hproduct =>
    cases h' with
    | multiply hi' hproduct' =>
      rw [hproduct] at hproduct'
      cases hproduct'
      rfl

theorem factor_le (h : Step n p q) : p.2 ≤ n := by
  cases h with
  | multiply hi => exact hi

theorem toInt_eq (h : Step n p q) : q.1.toInt = p.1.toInt * p.2 := by
  cases h with
  | @multiply acc product i hi hproduct =>
    rcases wordOr_cases "factorial" (acc.toInt * i) with ⟨w, hw, hword⟩ | ⟨-, hword⟩
    · rw [hproduct] at hword
      cases hword
      exact hw
    · rw [hproduct] at hword
      cases hword

theorem factor_eq (h : Step n p q) : q.2 = p.2 + 1 := by
  cases h with
  | multiply => rfl

theorem exact (h : Step n p q) (hp : Exact p) : Exact q := by
  unfold Exact at hp ⊢
  rw [h.toInt_eq, hp, h.factor_eq, Nat.factorial_succ, Int.natCast_mul, Int.mul_comm]

/-- A multiplication is one round of the loop, which goes on with the product. -/
theorem productTo_eq (h : Step n p q) : productTo n q.1 q.2 = productTo n p.1 p.2 := by
  cases h with
  | @multiply acc product i hi hproduct =>
    change productTo n product (i + 1) = productTo n acc i
    rw [productTo.eq_def n acc i, if_pos hi, hproduct]
    rfl

end Step

theorem Ends.not_step (h : Ends n p result) : ¬ Step n p q := by
  intro hstep
  cases h with
  | product hi =>
    cases hstep with
    | multiply hi' => exact absurd hi' (Nat.not_le.mpr hi)
  | overflow hi hbig =>
    have hfits := fitsWord_toInt q.1
    rw [hstep.toInt_eq] at hfits
    exact hbig hfits

namespace Run

theorem factor_le (h : Run n p q) : p.2 ≤ q.2 ∧ q.2 ≤ max p.2 (n + 1) := by
  induction h with
  | refl => simp
  | tail _ hstep ih =>
    have := hstep.factor_le
    have := hstep.factor_eq
    omega

theorem exact (h : Run n p q) (hp : Exact p) : Exact q := by
  induction h with
  | refl => exact hp
  | tail _ hstep ih => exact hstep.exact ih

theorem productTo_eq (h : Run n p q) : productTo n q.1 q.2 = productTo n p.1 p.2 := by
  induction h with
  | refl => rfl
  | tail _ hstep ih => rw [hstep.productTo_eq, ih]

/-- All multiplications that are made lie before the end. -/
theorem before_end (h : Run n p q) (h' : Run n p q') (hends : Ends n q' result) : Run n q q' := by
  rcases h.total_of_right_unique Step.rightUnique h' with hrun | hrun
  · exact hrun
  · cases hrun.cases_head with
    | inl heq => exact heq ▸ .refl
    | inr hstep =>
      obtain ⟨next, hnext, -⟩ := hstep
      exact absurd hnext hends.not_step

end Run

/-- The loop comes to an end, and its result is the one that belongs there. -/
theorem exists_run (n : Nat) (acc : Int64) (i : Nat) :
    ∃ p, Run n (acc, i) p ∧ Ends n p (productTo n acc i) := by
  fun_induction productTo n acc i with
  | case1 acc i hi ih =>
    rcases wordOr_cases "factorial" (acc.toInt * i) with ⟨w, -, hword⟩ | ⟨hbig, hword⟩
    · obtain ⟨p, hrun, hends⟩ := ih w
      rw [hword]
      exact ⟨p, .head (.multiply hi hword) hrun, hends⟩
    · rw [hword]
      exact ⟨(acc, i), .refl, .overflow hi hbig⟩
  | case2 acc i hi => exact ⟨(acc, i), .refl, .product (Nat.lt_of_not_le hi)⟩

/-- The first product due is `2!`. -/
theorem exact_start : Exact (1, 2) := by
  unfold Exact
  decide

/-- Before the factor `k + 1` stands the factorial of `k`. -/
theorem Exact.toInt_eq {acc : Int64} {k : Nat} (h : Exact (acc, k + 1)) :
    acc.toInt = k.factorial := by
  have hfactor : ((k + 1 : Nat) : Int) ≠ 0 := by omega
  apply Int.eq_of_mul_eq_mul_right hfactor
  rw [show acc.toInt * ((k + 1 : Nat) : Int) = (k + 1).factorial from h, Nat.factorial_succ,
    Int.natCast_mul, Int.mul_comm]

theorem fitsWord_of_le {a b : Nat} (h : a ≤ b) (hb : FitsWord b) : FitsWord a := by
  unfold FitsWord at hb ⊢
  omega

/-- The factorials before the one that is due fit words, as the last of them does. -/
theorem Exact.fits_of_lt {k : Nat} (h : Exact p) (hk : k < p.2) : FitsWord k.factorial := by
  obtain ⟨acc, i⟩ := p
  cases i with
  | zero => exact absurd hk (Nat.not_lt_zero k)
  | succ j =>
    have hlast : FitsWord j.factorial := h.toInt_eq ▸ fitsWord_toInt acc
    exact fitsWord_of_le (Nat.factorial_le (Nat.le_of_lt_succ hk)) hlast

theorem fitsWord_factorial_iff : FitsWord n.factorial ↔ n ≤ 20 := by
  constructor
  · intro h
    by_contra hn
    have hlarge : Nat.factorial 21 ≤ n.factorial := Nat.factorial_le (by omega)
    exact absurd (fitsWord_of_le hlarge h) (by decide)
  · intro h
    exact fitsWord_of_le (Nat.factorial_le h) (by decide)

/-- At the end all factors have been multiplied if the factorial fits a word. If it does not, the
factor that is due is the first whose factorial does not either. -/
theorem Ends.fits_or_first (h : Ends n p result) (hrun : Run n (1, 2) p) :
    (FitsWord n.factorial ∧ result = .ok p.1 ∧ p.1.toInt = n.factorial) ∨
      ¬ FitsWord n.factorial ∧ result = .error (.arithmetic (.overflow "factorial")) ∧
        p.2 ≤ n ∧ IsLeast {k : Nat | ¬ FitsWord k.factorial} p.2 := by
  obtain ⟨hlow, hhigh⟩ := hrun.factor_le
  have hexact := hrun.exact exact_start
  cases h with
  | @product acc i hi =>
    have hvalue : acc.toInt = n.factorial := by
      cases n with
      | zero =>
        -- There are no factors, and the factor two is not reached.
        obtain rfl : i = 2 := by simp only at hlow hhigh; omega
        exact hexact.toInt_eq
      | succ n =>
        obtain rfl : i = n + 1 + 1 := by simp only at hhigh; omega
        exact hexact.toInt_eq
    exact .inl ⟨hvalue ▸ fitsWord_toInt acc, rfl, hvalue⟩
  | @overflow acc i hi hbig =>
    rw [show acc.toInt * i = i.factorial from hexact] at hbig
    have hall : ¬ FitsWord n.factorial := mt (fitsWord_of_le (Nat.factorial_le hi)) hbig
    refine .inr ⟨hall, rfl, hi, hbig, fun k hk => ?_⟩
    by_contra hlt
    exact hk (hexact.fits_of_lt (Nat.lt_of_not_le hlt))

end Product

open Product

section Calls

variable {s : State} {f : FrameId} {depth : Nat} {n : Int64} {r : Except Error Value}

/-- Errors about the arithmetic name no form. -/
theorem Eval.inForm_of_numeric {form : Expr} {m : Eval Value} {t : State} (hr : Numeric r)
    (h : m s = some (r, t)) : Eval.inForm form m s = some (r, t) := by
  cases hr with
  | ok v => exact Eval.inForm_ok h
  | error cause => exact Eval.inForm_error h

/-- A primitive called by its name with an integer comes to what it comes to when it is applied. -/
theorem Call.outcome_call_int {p : Primitive}
    (hp : s.lookup f p.name = some (.builtin p.builtin)) (hd : depth + 1 < evalLimit)
    (hr : Numeric r)
    (h : (Call.apply (.builtin p.builtin) [.int n] depth).outcome s = (r, s)) :
    (Call.eval (.list [.symbol p.name, .int n]) f depth).outcome s = (r, s) := by
  have hargs : args ends f (depth + 1) [.int n] s = some (.ok [.int n], s) := by
    rw [args, List.mapM_cons, Eval.bind_ok (ends_int hd n)]
    rfl
  rw [← ends_eq_iff] at h ⊢
  rw [ends_named hp hd]
  exact Eval.inForm_of_numeric hr ((Eval.bind_ok hargs).trans h)

theorem outcome_factorial (s : State) (n : Int64) (depth : Nat) :
    (Call.apply (.builtin Primitive.factorial.builtin) [.int n] depth).outcome s =
      ((factorial n).map .int, s) := by
  refine Call.outcome_of_run rfl ?_ s depth
  change Answer.reply (factorial n) = _
  cases factorial n <;> rfl

theorem factorial_of_neg (h : n.toInt < 0) :
    factorial n = .error (.arithmetic .negativeFactorial) := by
  rw [factorial, if_pos (Int64.lt_iff_toInt_lt.mpr h)]

theorem factorial_of_toInt {m : Nat} (h : n.toInt = m) : factorial n = productTo m 1 2 := by
  have hn : ¬ n < 0 := by
    rw [Int64.lt_iff_toInt_lt, h]
    exact Int.not_lt.mpr (Int.natCast_nonneg m)
  rw [factorial, if_neg hn, h, Int.toNat_natCast]

end Calls

/-- Applied to any word in any state, or called with it by its name, the procedure answers with the
factorial if it fits a word, with an overflow if it does not, and with an error of its own if the
word is negative. The factors from two on are multiplied one after the other, each product on the
way is a factorial, and nothing is multiplied behind the first one that fits no word. -/
theorem factorial_is_exact (s : State) (n : Int64) (depth : Nat) :
    ∃ answer : Except Error Value,
      (Call.apply (.builtin Primitive.factorial.builtin) [.int n] depth).outcome s =
        (answer, s) ∧
      (∀ f, s.lookup f "factorial" = some (.builtin Primitive.factorial.builtin) →
        depth + 1 < evalLimit →
        (Call.eval (.list [.symbol "factorial", .int n]) f depth).outcome s = (answer, s)) ∧
      (n.toInt < 0 → answer = .error (.arithmetic .negativeFactorial)) ∧
      ∀ m : Nat, n.toInt = m →
        (FitsWord m.factorial → ∃ w : Int64, w.toInt = m.factorial ∧ answer = .ok (.int w)) ∧
        (¬ FitsWord m.factorial ↔ answer = .error (.arithmetic (.overflow "factorial"))) ∧
        (FitsWord m.factorial ↔ m ≤ 20) ∧
        ∃ p, Run m (1, 2) p ∧ Ends m p (productTo m 1 2) ∧
          answer = (productTo m 1 2).map .int ∧
          (∀ q, Run m (1, 2) q →
            Exact q ∧ Run m q p ∧ productTo m q.1 q.2 = productTo m 1 2) ∧
          (¬ FitsWord m.factorial →
            p.2 ≤ m ∧ IsLeast {k : Nat | ¬ FitsWord k.factorial} p.2) := by
  have happlied := outcome_factorial s n depth
  have hnumeric : Numeric ((factorial n).map Value.int) := (numeric_factorial n).map _
  refine ⟨_, happlied, fun f hf hd => ?_, fun hneg => ?_, ?_⟩
  · exact Call.outcome_call_int (p := .factorial) hf hd hnumeric happlied
  · rw [factorial_of_neg hneg]
    rfl
  intro m hm
  obtain ⟨p, hrun, hends⟩ := exists_run m 1 2
  have hway (q : Int64 × Nat) (hq : Run m (1, 2) q) :
      Exact q ∧ Run m q p ∧ productTo m q.1 q.2 = productTo m 1 2 :=
    ⟨hq.exact exact_start, hq.before_end hrun hends, hq.productTo_eq⟩
  rw [factorial_of_toInt hm]
  cases hends.fits_or_first hrun with
  | inl h =>
    obtain ⟨hfits, hok, hvalue⟩ := h
    have hanswer : (productTo m 1 2).map Value.int = .ok (.int p.1) := by rw [hok]; rfl
    have hno : (productTo m 1 2).map Value.int ≠ .error (.arithmetic (.overflow "factorial")) := by
      rw [hanswer]
      nofun
    exact ⟨fun _ => ⟨p.1, hvalue, hanswer⟩, iff_of_false (not_not_intro hfits) hno,
      fitsWord_factorial_iff, p, hrun, hends, rfl, hway, fun hbig => absurd hfits hbig⟩
  | inr h =>
    obtain ⟨hbig, herror, hfirst⟩ := h
    have hanswer : (productTo m 1 2).map Value.int =
        .error (.arithmetic (.overflow "factorial")) := by rw [herror]; rfl
    exact ⟨fun hfits => absurd hfits hbig, iff_of_true hbig hanswer,
      fitsWord_factorial_iff, p, hrun, hends, rfl, hway, fun _ => hfirst⟩

/-- The factorial of twenty is the last that fits a word. For the largest word only twenty products
are formed. -/
theorem factorial_is_exact_border :
    State.standard.lookup 0 "factorial" = some (.builtin Primitive.factorial.builtin) ∧
    State.standard.eval 0 (.list [.symbol "factorial", .int 20]) =
      (.ok (.int 2432902008176640000), .standard) ∧
    State.standard.eval 0 (.list [.symbol "factorial", .int 9223372036854775807]) =
      (.error (.arithmetic (.overflow "factorial")), .standard) := by
  have hknown : State.standard.lookup 0 "factorial" =
      some (.builtin Primitive.factorial.builtin) := State.knowsPrimitives_standard .empty .factorial
  refine ⟨hknown, ?_, ?_⟩
  · obtain ⟨answer, -, hcalled, -, hnatural⟩ := factorial_is_exact .standard 20 0
    obtain ⟨hfits, -⟩ := hnatural 20 (by decide)
    obtain ⟨w, hw, rfl⟩ := hfits (by decide)
    obtain rfl : w = 2432902008176640000 := Int64.toInt_inj.mp (hw.trans (by decide))
    exact hcalled 0 hknown (by decide)
  · obtain ⟨answer, -, hcalled, -, hnatural⟩ := factorial_is_exact .standard 9223372036854775807 0
    obtain ⟨-, hoverflow, hborder, -⟩ := hnatural 9223372036854775807 (by decide)
    obtain rfl := hoverflow.mp (mt hborder.mp (by decide))
    exact hcalled 0 hknown (by decide)

end MiniLisp
