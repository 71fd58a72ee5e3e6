import MiniLisp.Eval.Plan

/-!
# Every call ends

More fuel never changes how a call ends (`Call.run_mono`), and some amount of fuel suffices for
every call in every state (`Call.run_converges`). So a call has an outcome, `Call.outcome`, which
mentions no fuel.
-/

namespace MiniLisp

namespace Eval

variable {α β : Type}

/-- `m'` ends as `m` does wherever `m` ends. -/
def Below (m m' : Eval α) : Prop := ∀ s r, m s = some r → m' s = some r

theorem Below.refl (m : Eval α) : Below m m := fun _ _ h => h

theorem Below.trans {m m' m'' : Eval α} (h : Below m m') (h' : Below m' m'') : Below m m'' :=
  fun s r hr => h' s r (h s r hr)

theorem Below.bind {m m' : Eval α} {k k' : α → Eval β} (h : Below m m')
    (hk : ∀ a, Below (k a) (k' a)) : Below (m >>= k) (m' >>= k') := by
  intro s r hr
  rw [bind_apply] at hr ⊢
  cases hm : m s with
  | none => rw [hm] at hr; cases hr
  | some end' =>
    obtain ⟨e | a, t⟩ := end'
    · rw [hm] at hr
      rw [h s _ hm]
      exact hr
    · rw [hm] at hr
      rw [h s _ hm]
      exact hk a t r hr

theorem Below.inForm {m m' : Eval α} (form : Expr) (h : Below m m') :
    Below (inForm form m) (inForm form m') := by
  intro s r hr
  unfold Eval.inForm at hr ⊢
  cases hm : m s with
  | none => rw [hm] at hr; cases hr
  | some end' => rw [hm] at hr; rw [h s _ hm]; exact hr

/-- A family of computations, one for each amount of fuel, that never changes how it ends and ends
for some amount of fuel from every state. -/
structure Converges (m : Nat → Eval α) : Prop where
  below : ∀ n, Below (m n) (m (n + 1))
  ends : ∀ s, ∃ n r, m n s = some r

theorem below_of_le {m : Nat → Eval α} (h : ∀ n, Below (m n) (m (n + 1))) {i j : Nat}
    (hij : i ≤ j) : Below (m i) (m j) := by
  induction hij with
  | refl => exact .refl _
  | step _ ih => exact ih.trans (h _)

namespace Converges

/-- A computation that ends from every state ends whatever the fuel. -/
theorem const {m : Eval α} (h : ∀ s, (m s).isSome = true) : Converges fun _ => m :=
  ⟨fun _ => .refl _, fun s => ⟨0, _, (Option.some_get (h s)).symm⟩⟩

theorem bind {m : Nat → Eval α} {k : Nat → α → Eval β} (hm : Converges m)
    (hk : ∀ a, Converges fun n => k n a) : Converges fun n => m n >>= k n := by
  refine ⟨fun n => (hm.below n).bind fun a => (hk a).below n, fun s => ?_⟩
  obtain ⟨i, ⟨e | a, t⟩, hi⟩ := hm.ends s
  · exact ⟨i, (.error e, t), by rw [bind_apply, hi]⟩
  · obtain ⟨j, r, hj⟩ := (hk a).ends t
    refine ⟨max i j, r, ?_⟩
    rw [bind_apply, below_of_le hm.below (Nat.le_max_left i j) s _ hi]
    exact below_of_le (hk a).below (Nat.le_max_right i j) t _ hj

theorem inForm {m : Nat → Eval α} (form : Expr) (hm : Converges m) :
    Converges fun n => Eval.inForm form (m n) := by
  refine ⟨fun n => (hm.below n).inForm form, fun s => ?_⟩
  obtain ⟨i, r, hi⟩ := hm.ends s
  refine ⟨i, ?_⟩
  unfold Eval.inForm
  rw [hi]
  obtain ⟨e | a, t⟩ := r
  · exact ⟨_, rfl⟩
  · exact ⟨_, rfl⟩

end Converges

end Eval

namespace Call

open Eval

theorem Plan.mono {α : Type} {E : Error → Prop} {P : Call → Prop} {m : Runner → Eval α}
    (h : Plan E P m) {recur recur' : Runner} (hr : ∀ c, P c → Below (recur c) (recur' c)) :
    Below (m recur) (m recur') := by
  induction h with
  | leaf => exact .refl _
  | call hc => exact hr _ hc
  | bind _ _ ihm ihk => exact ihm.bind ihk
  | inForm form _ ih => exact ih.inForm form

theorem body_below {recur recur' : Runner} (h : ∀ c, Below (recur c) (recur' c)) (c : Call) :
    Below (c.body recur) (c.body recur') :=
  (body_plan c).mono fun c _ => h c

theorem run_below (n : Nat) (c : Call) : Below (run n c) (run (n + 1) c) := by
  induction n generalizing c with
  | zero => intro s r h; cases h
  | succ n ih => exact body_below ih c

/-- More fuel never changes how a call ends. -/
theorem run_mono {m n : Nat} (h : m ≤ n) (c : Call) : Below (run m c) (run n c) :=
  below_of_le (m := fun n => run n c) (fun n => run_below n c) h

theorem Plan.converges {α : Type} {E : Error → Prop} {P : Call → Prop} {m : Runner → Eval α}
    (h : Plan E P m) (hc : ∀ c, P c → Converges fun n => run n c) :
    Converges fun n => m (run n) := by
  induction h with
  | leaf h =>
    refine .const fun s => ?_
    obtain ⟨r, t, hs, -⟩ := h s
    rw [hs]
    rfl
  | call h => exact hc _ h
  | bind _ _ ihm ihk => exact ihm.bind ihk
  | inForm form _ ih => exact ih.inForm form

theorem converges_of_body {c : Call} (h : Converges fun n => c.body (run n)) :
    Converges fun n => run n c := by
  refine ⟨fun n => run_below n c, fun s => ?_⟩
  obtain ⟨n, r, hn⟩ := h.ends s
  exact ⟨n + 1, r, hn⟩

/-- The measure under which every call makes smaller calls only. Depth goes first, as far as it is
limited; beyond the limit only `apply` and `map` go on, on smaller and smaller arguments. -/
noncomputable def measure : Call → Nat × Nat × Nat
  | eval _ _ depth => (evalLimit - depth, if depth < evalLimit then 2 else 0, 0)
  | apply _ args depth => (evalLimit - depth, 1, 2 * sizeOf args + 1)
  | higher _ args depth => (evalLimit - depth, 1, 2 * sizeOf args)

/-- One measure is below another if its first part is smaller, or else its second, or else its
third. -/
abbrev Smaller : Nat × Nat × Nat → Nat × Nat × Nat → Prop :=
  Prod.Lex (· < ·) (Prod.Lex (· < ·) (· < ·))

theorem smaller_of {a a' b b' c c' : Nat}
    (h : a < a' ∨ a = a' ∧ (b < b' ∨ b = b' ∧ c < c')) : Smaller (a, b, c) (a', b', c') := by
  rcases h with h | ⟨rfl, h | ⟨rfl, h⟩⟩
  · exact .left _ _ h
  · exact .right _ (.left _ _ h)
  · exact .right _ (.right _ h)

theorem measure_smaller {c c' : Call} (h : Inside c c') : Smaller c'.measure c.measure := by
  cases h with
  | part hd => apply smaller_of; split <;> omega
  | procedure hd => apply smaller_of; simp [hd]
  | closure => apply smaller_of; split <;> omega
  | builtin => apply smaller_of; omega
  | argument hs => apply smaller_of; omega

theorem inside_wellFounded : WellFounded fun c' c => Inside c c' :=
  Subrelation.wf (fun h => measure_smaller h)
    (InvImage.wf measure (Prod.lex ⟨_, Nat.lt_wfRel.wf⟩ (Prod.lex Nat.lt_wfRel Nat.lt_wfRel)).wf)

/-- For every call and every state some amount of fuel suffices. -/
theorem run_converges (c : Call) : Converges fun n => run n c := by
  induction c using inside_wellFounded.induction with
  | _ c ih => exact converges_of_body ((body_plan c).converges ih)

/-- Searches for an amount of fuel that suffices, trying more and more. -/
def outcomeFrom (c : Call) (s : State) (fuel : Nat) : Except Error Value × State :=
  match h : run fuel c s with
  | some r => r
  | none => outcomeFrom c s (2 * fuel + 1)
termination_by Classical.choose ((run_converges c).ends s) - fuel
decreasing_by
  obtain ⟨r, hr⟩ := Classical.choose_spec ((run_converges c).ends s)
  have : fuel < Classical.choose ((run_converges c).ends s) := by
    refine Nat.lt_of_not_le fun hle => ?_
    rw [run_mono hle c s r hr] at h
    cases h
  omega

/-- How a call ends from a state, and the state it leaves. -/
def outcome (c : Call) (s : State) : Except Error Value × State := outcomeFrom c s 1000000

theorem outcomeFrom_eq {c : Call} {s : State} {r : Except Error Value × State} {n : Nat}
    (h : run n c s = some r) (fuel : Nat) : outcomeFrom c s fuel = r := by
  fun_induction outcomeFrom c s fuel with
  | case1 fuel r' h' =>
    have hn := run_mono (Nat.le_max_left n fuel) c s r h
    rw [run_mono (Nat.le_max_right n fuel) c s r' h'] at hn
    exact Option.some.inj hn
  | case2 fuel h' ih => exact ih

/-- The outcome is how the call ends with any fuel that suffices. -/
theorem outcome_eq_iff {c : Call} {s : State} {r : Except Error Value × State} :
    c.outcome s = r ↔ ∃ n, run n c s = some r := by
  constructor
  · rintro rfl
    obtain ⟨n, r, hn⟩ := (run_converges c).ends s
    exact ⟨n, by rw [hn, outcome, outcomeFrom_eq hn]⟩
  · rintro ⟨n, hn⟩
    exact outcomeFrom_eq hn _

/-- What is seen of a run with some fuel is seen of the outcome. -/
theorem seen_outcome_of_run {β : Type} {see : Except Error Value × State → β} {c : Call} {s : State}
    {n : Nat} {b : β} (h : (run n c s).map see = some b) : see (c.outcome s) = b := by
  obtain ⟨r, hr, hb⟩ := Option.map_eq_some_iff.mp h
  rw [outcome_eq_iff.mpr ⟨n, hr⟩, hb]

end Call

end MiniLisp
