import MiniLisp.Proofs.Eval.CallTree

/-!
# What the depth limit does

The limit cuts runs off and does nothing else. Started deeper, a call ends in the error of the limit
or exactly as it does started less deep (`outcome_of_deeper`): the two runs go the same way until
the deeper one is refused, and a refusal is never made good.
-/

namespace MiniLisp

open Eval

/-- Ended by the depth limit. -/
inductive Limited {α : Type} : Except Error α → Prop where
  | error {e : Error} (h : e.IsDepthLimit) : Limited (.error e)

@[simp] theorem limited_error {α : Type} {e : Error} :
    Limited (.error e : Except Error α) ↔ e.IsDepthLimit :=
  ⟨fun | .error h => h, .error⟩

@[simp] theorem not_limited_ok {α : Type} (a : α) : ¬ Limited (.ok a : Except Error α) := nofun

namespace Eval

variable {α β : Type}

/-- The computation `m` does what `m'` does unless the depth limit ends it. -/
def UpToLimit (m m' : Eval α) : Prop := ∀ s, m s = m' s ∨ ∃ r, m s = some r ∧ Limited r.1

theorem UpToLimit.refl (m : Eval α) : UpToLimit m m := fun _ => .inl rfl

theorem UpToLimit.bind {m m' : Eval α} {k k' : α → Eval β} (h : UpToLimit m m')
    (hk : ∀ a, UpToLimit (k a) (k' a)) : UpToLimit (m >>= k) (m' >>= k') := by
  intro s
  rw [bind_apply, bind_apply]
  rcases h s with h | ⟨⟨e | a, t⟩, h, hl⟩
  · rw [h]
    rcases m' s with _ | ⟨e | a, t⟩
    · exact .inl rfl
    · exact .inl rfl
    · exact hk a t
  · rw [h]
    exact .inr ⟨(.error e, t), rfl, .error (limited_error.mp hl)⟩
  · exact absurd hl (not_limited_ok a)

theorem UpToLimit.inForm {m m' : Eval α} (form : Expr) (h : UpToLimit m m') :
    UpToLimit (inForm form m) (inForm form m') := by
  intro s
  unfold Eval.inForm
  rcases h s with h | ⟨⟨e | a, t⟩, h, hl⟩
  · exact .inl (by rw [h])
  · rw [h]
    exact .inr ⟨_, rfl, .error ((Error.isDepthLimit_withContext _ e).mpr (limited_error.mp hl))⟩
  · exact absurd hl (not_limited_ok a)

end Eval

namespace Call

theorem Plan.upToLimit {α : Type} {E : Error → Prop} {P : Call → Prop} {m : Runner → Eval α}
    (h : Plan E P m) {recur recur' : Runner} (hr : ∀ c, P c → UpToLimit (recur c) (recur' c)) :
    UpToLimit (m recur) (m recur') := by
  induction h with
  | leaf => exact .refl _
  | call hc => exact hr _ hc
  | bind _ _ ihm ihk => exact ihm.bind ihk
  | inForm form _ ih => exact ih.inForm form

/-- The same call `extra` levels deeper. -/
def deeper (extra : Nat) : Call → Call
  | .eval e f depth => .eval e f (depth + extra)
  | .apply p args depth => .apply p args (depth + extra)
  | .higher h args depth => .higher h args (depth + extra)

variable (recur : Runner) (extra : Nat)

theorem form_deeper (f : FrameId) (depth : Nat) (x : Form) :
    form recur f (depth + extra) x = form (fun c => recur (c.deeper extra)) f depth x := by
  cases x <;> simp only [form, args, deeper, Nat.add_right_comm depth extra 1]

theorem expr_deeper (f : FrameId) (depth : Nat) (e : Expr) :
    expr recur f (depth + extra) e = expr (fun c => recur (c.deeper extra)) f depth e := by
  cases e with
  | list items => cases h : Form.ofList items <;> simp only [expr, h, form_deeper]
  | _ => rfl

theorem applyTo_deeper (args : List Value) (depth : Nat) (p : Value) :
    applyTo recur args (depth + extra) p =
      applyTo (fun c => recur (c.deeper extra)) args depth p := by
  cases p <;> simp only [applyTo, deeper, Nat.add_right_comm depth extra 1]

theorem higherBody_deeper (depth : Nat) (h : Higher) (args : List Value) :
    higherBody recur (depth + extra) h args =
      higherBody (fun c => recur (c.deeper extra)) depth h args := by
  unfold higherBody
  split <;> simp only [mapOver, deeper]

/-- A call that is not refused when deeper does the same there, with deeper calls. -/
theorem body_deeper (c : Call)
    (hc : ∀ e f depth, c = .eval e f depth → depth + extra < evalLimit) :
    (c.deeper extra).body recur = c.body fun c => recur (c.deeper extra) := by
  cases c with
  | eval e f depth =>
    have hd := hc e f depth rfl
    simp only [deeper, body, if_neg (show ¬ evalLimit ≤ depth + extra by omega),
      if_neg (show ¬ evalLimit ≤ depth by omega)]
    exact expr_deeper recur extra f depth e
  | apply p args depth => exact applyTo_deeper recur extra args depth p
  | higher h args depth => exact higherBody_deeper recur extra depth h args

/-- With the same fuel, a run started deeper goes as it goes less deep unless it is cut off. -/
theorem run_deeper (n : Nat) (c : Call) : UpToLimit (run n (c.deeper extra)) (run n c) := by
  induction n generalizing c with
  | zero => exact fun _ => .inl rfl
  | succ n ih =>
    by_cases h : ∃ e f depth, c = .eval e f depth ∧ evalLimit ≤ depth + extra
    · obtain ⟨e, f, depth, rfl, hd⟩ := h
      intro s
      have hrun : run (n + 1) (deeper extra (.eval e f depth)) s =
          some (.error (.eval .depthLimit none), s) := by
        simp [run, body, deeper, hd]
      exact .inr ⟨_, hrun, .error trivial⟩
    · have hrefused : ∀ e f depth, c = .eval e f depth → depth + extra < evalLimit :=
        fun e f depth hc => Nat.lt_of_not_le fun hd => h ⟨e, f, depth, hc, hd⟩
      simp only [run]
      rw [body_deeper (run n) extra c hrefused]
      exact (body_plan c).upToLimit fun c' _ => ih c'

theorem outcome_deeper (c : Call) (s : State) :
    Limited ((c.deeper extra).outcome s).1 ∨ c.outcome s = (c.deeper extra).outcome s := by
  obtain ⟨i, hi⟩ := outcome_eq_iff.mp (rfl : c.outcome s = c.outcome s)
  obtain ⟨j, hj⟩ := outcome_eq_iff.mp
    (rfl : (c.deeper extra).outcome s = (c.deeper extra).outcome s)
  have hi' := run_mono (Nat.le_max_left i j) c s _ hi
  have hj' := run_mono (Nat.le_max_right i j) (c.deeper extra) s _ hj
  rcases run_deeper extra (max i j) c s with h | ⟨r, h, hl⟩
  · rw [hi', hj'] at h
    exact .inr (Option.some.inj h).symm
  · rw [hj'] at h
    exact .inl (Option.some.inj h ▸ hl)

/-- The depth at which a run starts never changes what it computes: started deeper, an evaluation
or an application is cut off by the limit, or it ends in the same value or error and leaves the same
state. -/
theorem outcome_of_deeper (s : State) (depth extra : Nat) :
    (∀ e f, Limited ((eval e f (depth + extra)).outcome s).1 ∨
      (eval e f depth).outcome s = (eval e f (depth + extra)).outcome s) ∧
    (∀ p args, Limited ((apply p args (depth + extra)).outcome s).1 ∨
      (apply p args depth).outcome s = (apply p args (depth + extra)).outcome s) :=
  ⟨fun e f => outcome_deeper extra (eval e f depth) s,
    fun p args => outcome_deeper extra (apply p args depth) s⟩

end Call

end MiniLisp
