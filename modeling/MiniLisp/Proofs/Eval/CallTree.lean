import MiniLisp.Eval.Halting
import Mathlib.Data.Set.Finite.Lattice
import Mathlib.Logic.Relation

/-!
# The calls of a run

A call makes another call in some state if it cannot end unless that one ends. So the calls made are
read off what the evaluator does and not listed a second time: `Plan.first` finds them for every
plan, `inside_of_makes` says what they look like. Below every call hangs a finite tree of calls
(`enters_finite`), no deeper than the fuel that the call needs (`run_of_makes`).
-/

namespace MiniLisp

namespace Call

open Eval

variable {α : Type} {E : Error → Prop} {P : Call → Prop}

/-- Every call runs to its end. -/
def ends : Runner := fun c s => some (c.outcome s)

/-- Every call runs to its end but `x`, a call in one state, which does not end. -/
noncomputable def without (x : Call × State) : Runner := fun c s =>
  open Classical in if (c, s) = x then none else some (c.outcome s)

/-- The call `x` makes the call `y`. -/
def Makes (x y : Call × State) : Prop := x.1.body (without y) x.2 = none

/-- The call `y` is made in the run of `x`, by `x` or by a call that is made there. -/
abbrev Enters : Call × State → Call × State → Prop := Relation.ReflTransGen Makes

@[simp] theorem without_self (c : Call) (s : State) : without (c, s) c s = none := if_pos rfl

theorem eq_of_without {x : Call × State} {c : Call} {s : State} (h : without x c s = none) :
    x = (c, s) := by
  unfold without at h
  split at h
  · rename_i he
    exact he.symm
  · cases h

theorem without_below (x : Call × State) (c : Call) : Below (without x c) (ends c) := by
  intro s r h
  unfold without at h
  split at h
  · cases h
  · exact h

theorem run_below_ends (n : Nat) (c : Call) : Below (run n c) (ends c) := by
  intro s r h
  have ho : c.outcome s = r := outcome_eq_iff.mpr ⟨n, h⟩
  simp only [ends, ho]

/-- Outcomes obey the rules of the evaluator, without any fuel. -/
theorem body_ends (c : Call) : c.body ends = ends c := by
  funext s
  obtain ⟨n, hn⟩ := outcome_eq_iff.mp (rfl : c.outcome s = c.outcome s)
  cases n with
  | zero => cases hn
  | succ n => exact body_below (run_below_ends n) c s _ hn

theorem outcome_eq_of_body {c : Call} {s : State} {r : Except Error Value × State}
    (h : c.body ends s = some r) : c.outcome s = r := by
  rw [body_ends] at h
  exact Option.some.inj h

/-- Leaving out one call, a plan does not end or ends as it always does. -/
theorem Plan.without_or {m : Runner → Eval α} (h : Plan E P m) (y : Call × State) (s : State) :
    m (without y) s = none ∨ m (without y) s = m ends s := by
  cases hm : m (without y) s with
  | none => exact .inl rfl
  | some r => exact .inr (h.mono (fun c _ => without_below y c) s r hm).symm

/-- A plan that does not end has come to a call that does not end; the calls before it are those
that are always made. -/
theorem Plan.first {m : Runner → Eval α} (h : Plan E P m) {recur : Runner}
    (hr : ∀ c, Below (recur c) (ends c)) {s : State} (hs : m recur s = none) :
    ∃ y : Call × State, P y.1 ∧ recur y.1 y.2 = none ∧ m (without y) s = none := by
  induction h generalizing s with
  | leaf h =>
    obtain ⟨r, t, hm, -⟩ := h s
    exact absurd (hm.symm.trans hs) nofun
  | @call c hc => exact ⟨(c, s), hc, hs, without_self c s⟩
  | @bind _ _ m k hm hk ihm ihk =>
    rcases bind_eq_none_iff.mp hs with hs | ⟨a, t, hms, hs⟩
    · obtain ⟨y, hP, hy, hw⟩ := ihm hs
      exact ⟨y, hP, hy, bind_eq_none_iff.mpr (.inl hw)⟩
    · obtain ⟨y, hP, hy, hw⟩ := ihk a hs
      have hend : m ends s = some (.ok a, t) := hm.mono (fun c _ => hr c) s _ hms
      refine ⟨y, hP, hy, bind_eq_none_iff.mpr ?_⟩
      rcases hm.without_or y s with h | h
      · exact .inl h
      · exact .inr ⟨a, t, h.trans hend, hw⟩
  | inForm form hm ih =>
    obtain ⟨y, hP, hy, hw⟩ := ih (inForm_eq_none_iff.mp hs)
    exact ⟨y, hP, hy, inForm_eq_none_iff.mpr hw⟩

/-- What the calls look like that a call makes. -/
theorem inside_of_makes {x y : Call × State} (h : Makes x y) : Inside x.1 y.1 := by
  obtain ⟨z, hz, hw, -⟩ := (body_plan x.1).first (without_below y) h
  rw [eq_of_without hw]
  exact hz

/-- A call that does not end, of calls that end as they do or not at all, makes one of those that do
not end. -/
theorem makes_of_stuck {x : Call × State} {recur : Runner} (hr : ∀ c, Below (recur c) (ends c))
    (hs : x.1.body recur x.2 = none) : ∃ y, Makes x y ∧ recur y.1 y.2 = none := by
  obtain ⟨y, -, hy, hw⟩ := (body_plan x.1).first hr hs
  exact ⟨y, hw, hy⟩

/-- A call of a run that ended ends with less fuel than the call that made it. -/
theorem run_of_makes {n : Nat} {x y : Call × State} {r : Except Error Value × State}
    (h : run (n + 1) x.1 x.2 = some r) (hy : Makes x y) : ∃ r', run n y.1 y.2 = some r' := by
  by_contra hnone
  have hbelow (c : Call) : Below (run n c) (without y c) := by
    intro s r' hr
    have hne : (c, s) ≠ y := fun he => hnone ⟨r', he ▸ hr⟩
    rw [without, if_neg hne]
    exact run_below_ends n c s r' hr
  have hend : x.1.body (without y) x.2 = some r := body_below hbelow x.1 x.2 r h
  rw [hy] at hend
  cases hend

theorem Plan.finite {m : Runner → Eval α} (h : Plan E P m) (s : State) :
    {y | m (without y) s = none}.Finite := by
  induction h generalizing s with
  | leaf h =>
    obtain ⟨r, t, hm, -⟩ := h s
    simp [hm]
  | @call c hc => exact (Set.finite_singleton (c, s)).subset fun y hy => eq_of_without hy
  | @bind _ _ m k hm hk ihm ihk =>
    -- What comes after `m` starts where `m` ends when nothing is left out.
    have hlater : {y | ∃ a t, m ends s = some (.ok a, t) ∧ k a (without y) t = none}.Finite := by
      rcases hms : m ends s with _ | ⟨e | a, t⟩
      · simp
      · simp
      · refine (ihk a t).subset fun y hy => ?_
        obtain ⟨_, _, he, hy⟩ := hy
        cases he
        exact hy
    refine ((ihm s).union hlater).subset fun y hy => ?_
    rcases bind_eq_none_iff.mp hy with hy | ⟨a, t, hms, hy⟩
    · exact .inl hy
    · rcases hm.without_or y s with h | h
      · exact .inl h
      · exact .inr ⟨a, t, h.symm.trans hms, hy⟩
  | inForm form hm ih => exact (ih s).subset fun y hy => inForm_eq_none_iff.mp hy

theorem makes_finite (x : Call × State) : {y | Makes x y}.Finite := (body_plan x.1).finite x.2

theorem makes_wellFounded : WellFounded fun y x => Makes x y :=
  Subrelation.wf (fun h => inside_of_makes h) (InvImage.wf Prod.fst inside_wellFounded)

/-- Every run consists of finitely many calls. -/
theorem enters_finite (x : Call × State) : {y | Enters x y}.Finite := by
  induction x using makes_wellFounded.induction with
  | _ x ih =>
    have hfin := (Set.finite_singleton x).union ((makes_finite x).biUnion fun y hy => ih y hy)
    refine hfin.subset fun z hz => ?_
    rcases Relation.ReflTransGen.cases_head hz with rfl | ⟨y, hy, hyz⟩
    · exact .inl rfl
    · exact .inr (Set.mem_biUnion hy hyz)

end Call

end MiniLisp
