import MiniLisp.Proofs.Builtin.Selection
import MiniLisp.Proofs.Eval.Primitive
import MiniLisp.Proofs.Eval.Shape
import MiniLisp.Proofs.Scope.Resolution

/-!
# How values are handed on

When a call ends well and what it has done then: which value it has looked up, selected or bound
(`outcome_symbol_iff`, `outcome_cond_iff`, `outcome_define_iff`, `outcome_assign_iff`,
`outcome_selector_iff`), what it has applied to what (`outcome_call_iff`), or which draft it has
made its result of (`make_of_outcome`, `map_of_outcome`); and what the calls are that it makes
(`makes_apply_iff`, `makes_body_iff`). An assignment may fail although it has its value
(`outcome_assign_unbound`).
-/

namespace MiniLisp

namespace Call

open Eval

variable {s t : State} {f : FrameId} {depth : Nat} {v : Value}

theorem outcome_symbol_iff {name : String} :
    (Call.eval (.symbol name) f depth).outcome s = (.ok v, t) ↔
      depth < evalLimit ∧ s.lookup f name = some v ∧ t = s := by
  constructor
  · intro h
    have hd := lt_evalLimit_of_outcome h
    rw [← ends_eq_iff, ends_apply, body, if_neg (Nat.not_le.mpr hd), expr, Eval.lookup] at h
    cases hv : s.lookup f name with
    | none =>
      rw [hv] at h
      cases h
    | some u =>
      rw [hv] at h
      cases h
      exact ⟨hd, rfl, rfl⟩
  · rintro ⟨hd, hv, rfl⟩
    exact ends_eq_iff.mp (ends_symbol hd hv)

/-- A conditional has the value of the branch that its test chooses. -/
theorem outcome_cond_iff {test yes no : Expr} :
    (Call.eval (.list [.symbol "if", test, yes, no]) f depth).outcome s = (.ok v, t) ↔
      depth < evalLimit ∧ ∃ b s', (Call.eval test f (depth + 1)).outcome s = (.ok b, s') ∧
        (Call.eval (if b.isTruthy then yes else no) f (depth + 1)).outcome s' = (.ok v, t) := by
  have hcond : Form.ofList [.symbol "if", test, yes, no] = .ok (.cond test yes no) := rfl
  rw [outcome_list_iff hcond, form, bind_eq_ok_iff]
  simp only [ends_eq_iff]

theorem outcome_define_iff {name : String} {e : Expr} {r : Value} :
    (Call.eval (.list [.symbol "define", .symbol name, e]) f depth).outcome s = (.ok r, t) ↔
      depth < evalLimit ∧ r = .unspecified ∧ ∃ v s',
        (Call.eval e f (depth + 1)).outcome s = (.ok v, s') ∧ t = s'.define f name v := by
  have hdefine : Form.ofList [.symbol "define", .symbol name, e] = .ok (.define name e) := rfl
  rw [outcome_list_iff hdefine, form, bind_eq_ok_iff]
  simp only [ends_eq_iff]
  constructor
  · rintro ⟨hd, v, s', hvalue, hbind⟩
    cases hbind
    exact ⟨hd, rfl, v, s', hvalue, rfl⟩
  · rintro ⟨hd, rfl, v, s', hvalue, rfl⟩
    exact ⟨hd, v, s', hvalue, rfl⟩

theorem outcome_assign_iff {name : String} {e : Expr} {r : Value} :
    (Call.eval (.list [.symbol "set!", .symbol name, e]) f depth).outcome s = (.ok r, t) ↔
      depth < evalLimit ∧ r = .unspecified ∧ ∃ v s',
        (Call.eval e f (depth + 1)).outcome s = (.ok v, s') ∧
          s'.assign f name v = (.ok (), t) := by
  have hassign : Form.ofList [.symbol "set!", .symbol name, e] = .ok (.assign name e) := rfl
  rw [outcome_list_iff hassign, form, bind_eq_ok_iff]
  simp only [ends_eq_iff]
  constructor
  · rintro ⟨hd, v, s', hvalue, hbind⟩
    obtain ⟨_, _, hstep, hrest⟩ := bind_eq_ok_iff.mp hbind
    cases hrest
    exact ⟨hd, rfl, v, s', hvalue, Option.some.inj hstep⟩
  · rintro ⟨hd, rfl, v, s', hvalue, hstep⟩
    refine ⟨hd, v, s', hvalue, bind_eq_ok_iff.mpr ⟨(), t, congrArg some hstep, rfl⟩⟩

/-- An assignment to a name without a binding fails, once it has the value. -/
theorem outcome_assign_unbound {name : String} {e : Expr} (hd : depth < evalLimit)
    (hvalue : (Call.eval e f (depth + 1)).outcome s = (.ok v, t)) (hname : t.lookup f name = none) :
    (Call.eval (.list [.symbol "set!", .symbol name, e]) f depth).outcome s =
      (.error (.unbound name), t) := by
  have hassign : Form.ofList [.symbol "set!", .symbol name, e] = .ok (.assign name e) := rfl
  have hfail : Eval.assign f name v t = some (.error (.unbound name), t) :=
    congrArg some (State.assign_of_lookup_eq_none hname v)
  rw [← ends_eq_iff, ends_list hd hassign]
  refine inForm_error (e := .unbound name) ?_
  rw [form, bind_ok (ends_eq_iff.mpr hvalue)]
  exact bind_error hfail

/-- A call has the value of the procedure at its head, applied to the values of the operands. -/
theorem outcome_call_iff {items operands : List Expr} {head : Expr}
    (hcall : Form.ofList items = .ok (.call head operands)) :
    (Call.eval (.list items) f depth).outcome s = (.ok v, t) ↔
      depth < evalLimit ∧ ∃ p s' vs t', (Call.eval head f (depth + 1)).outcome s = (.ok p, s') ∧
        args ends f (depth + 1) operands s' = some (.ok vs, t') ∧
        (Call.apply p vs depth).outcome t' = (.ok v, t) := by
  rw [outcome_list_iff hcall, form, bind_eq_ok_iff]
  simp only [bind_eq_ok_iff, ends_eq_iff, exists_and_left]

theorem args_cons_iff {e : Expr} {es : List Expr} {vs : List Value} :
    args ends f depth (e :: es) s = some (.ok vs, t) ↔
      ∃ v s' rest, (Call.eval e f depth).outcome s = (.ok v, s') ∧
        args ends f depth es s' = some (.ok rest, t) ∧ vs = v :: rest := by
  have hargs : args ends f depth (e :: es) = do
      let v ← ends (.eval e f depth)
      let rest ← args ends f depth es
      return v :: rest := by
    rw [args, List.mapM_cons]
    rfl
  rw [hargs, bind_eq_ok_iff]
  simp only [bind_eq_ok_iff, ends_eq_iff]
  constructor
  · rintro ⟨v, s', hv, rest, u, hrest, hpure⟩
    cases hpure
    exact ⟨v, s', rest, hv, hrest, rfl⟩
  · rintro ⟨v, s', rest, hv, hrest, rfl⟩
    exact ⟨v, s', hv, rest, t, hrest, rfl⟩

/-- A builtin procedure that has a result was not refused. -/
theorem invoke_of_outcome {b : Builtin} {args : List Value}
    (h : (Call.apply (.builtin b) args depth).outcome s = (.ok v, t)) :
    s.invoke b args (depth + 1) = (.ok v, t) := by
  rw [outcome_builtin] at h
  split at h
  · exact h
  · cases h

/-- The result of a primitive is what becomes of the draft that it answers with. -/
theorem make_of_outcome {b : Builtin} {p : Primitive} {args : List Value}
    (hb : b.operation = .primitive p)
    (h : (Call.apply (.builtin b) args depth).outcome s = (.ok v, t)) :
    ∃ reply, p.entry.run args = .ok reply ∧
      (s.print reply.printed).make reply.draft = (v, t) := by
  have hrun := invoke_of_outcome h
  simp only [State.invoke, hb] at hrun
  cases hreply : p.entry.run args with
  | error e =>
    rw [hreply] at hrun
    cases hrun
  | ok reply =>
    rw [hreply] at hrun
    refine ⟨reply, rfl, ?_⟩
    cases hrun
    rfl

/-- A selector hands on what it selects, and changes nothing. -/
theorem outcome_selector_iff {b : Builtin} {p : Primitive} {args : List Value}
    (hb : b.operation = .primitive p) (hp : p.IsSelector) :
    (Call.apply (.builtin b) args depth).outcome s = (.ok v, t) ↔
      b.arity.accepts args.length ∧ p.Selects args v ∧ t = s := by
  rw [outcome_builtin]
  by_cases haccepts : b.arity.accepts args.length = true
  · rw [if_pos haccepts]
    simp only [State.invoke, hb, haccepts, true_and]
    constructor
    · intro h
      cases hreply : p.entry.run args with
      | error e =>
        rw [hreply] at h
        cases h
      | ok reply =>
        obtain ⟨u, rfl, hu⟩ := (Primitive.run_eq_ok_iff hp).mp hreply
        rw [hreply, State.accept_value] at h
        cases h
        exact ⟨hu, rfl⟩
    · rintro ⟨hv, rfl⟩
      rw [Primitive.run_of_selects hv, State.accept_value]
  · rw [if_neg haccepts]
    exact ⟨fun h => (by cases h), fun h => absurd h.1 haccepts⟩

theorem make_of_eval {d : Draft} (h : Eval.make d s = some (.ok v, t)) : s.make d = (v, t) := by
  unfold Eval.make at h
  generalize s.make d = out at h ⊢
  cases h
  rfl

/-- A result of `map` is a list that is made when all calls have ended. -/
theorem map_of_outcome {args : List Value} {depth : Nat}
    (h : (Call.higher .map args depth).outcome s = (.ok v, t)) :
    ∃ p vs lists results s', args = p :: vs ∧ listsOf vs = .ok lists ∧
      mapOver ends depth p lists s = some (.ok results, s') ∧
      s'.make (.ofList results) = (v, t) := by
  have hends : ends (.higher .map args depth) s = some (.ok v, t) := congrArg some h
  rw [ends_apply, body] at hends
  cases args with
  | nil => cases hends
  | cons p vs =>
    simp only [higherBody] at hends
    by_cases hp : p.isProcedure = true
    · simp only [hp, if_true] at hends
      cases hlists : listsOf vs with
      | error e =>
        rw [hlists] at hends
        cases hends
      | ok lists =>
        rw [hlists] at hends
        obtain ⟨results, s', hresults, hmake⟩ := bind_eq_ok_iff.mp hends
        exact ⟨p, vs, lists, results, s', rfl, hlists, hresults, make_of_eval hmake⟩
    · simp only [hp] at hends
      cases hends

/-- Forms come to their ends when all calls inside them do. -/
theorem form_ends_ne_none (hd : depth < evalLimit) {items : List Expr} {whole : Form}
    (h : Form.ofList items = .ok whole) : form ends f depth whole s ≠ none := by
  intro hnone
  have hends := ends_list hd h (s := s) (f := f)
  rw [inForm_eq_none_iff.mpr hnone] at hends
  cases hends

/-- A list makes the calls that the form makes that it is. -/
theorem form_of_makes {items : List Expr} {y : Call × State}
    (h : Makes (.eval (.list items) f depth, s) y) :
    depth < evalLimit ∧
      ∃ whole, Form.ofList items = .ok whole ∧ form (without y) f depth whole s = none := by
  unfold Makes at h
  simp only [body] at h
  by_cases hd : evalLimit ≤ depth
  · rw [if_pos hd] at h
    cases h
  · rw [if_neg hd] at h
    have hform := inForm_eq_none_iff.mp h
    cases hwhole : Form.ofList items with
    | error e =>
      rw [hwhole] at hform
      cases hform
    | ok whole =>
      rw [hwhole] at hform
      exact ⟨Nat.lt_of_not_le hd, whole, rfl, hform⟩

/-- Evaluations all come to their ends where only an application does not. -/
theorem without_eval (p : Value) (args : List Value) (d : Nat) (t : State) (e : Expr) (f : FrameId)
    (depth : Nat) : without (.apply p args d, t) (.eval e f depth) = ends (.eval e f depth) :=
  funext fun _ => if_neg nofun

/-- A procedure is applied to the values of the operands. -/
theorem makes_apply_iff {items : List Expr} {p : Value} {args : List Value} {d : Nat} :
    Makes (.eval (.list items) f depth, s) (.apply p args d, t) ↔
      depth < evalLimit ∧ d = depth ∧ ∃ head operands s',
        Form.ofList items = .ok (.call head operands) ∧
        (Call.eval head f (depth + 1)).outcome s = (.ok p, s') ∧
        Call.args ends f (depth + 1) operands s' = some (.ok args, t) := by
  constructor
  · intro h
    obtain ⟨hd, whole, hwhole, hform⟩ := form_of_makes h
    have hends := form_ends_ne_none (f := f) (s := s) hd hwhole
    cases whole with
    | call head operands =>
      simp only [form, Call.args, without_eval] at hform hends
      rcases bind_eq_none_iff.mp hform with hnone | ⟨p', s', hp, hrest⟩
      · exact absurd (bind_eq_none_iff.mpr (.inl hnone)) hends
      · rcases bind_eq_none_iff.mp hrest with hnone | ⟨vs, t', hvs, hlast⟩
        · refine absurd (bind_eq_none_iff.mpr (.inr ⟨p', s', hp, ?_⟩)) hends
          exact bind_eq_none_iff.mpr (.inl hnone)
        · cases eq_of_without hlast
          exact ⟨hd, rfl, head, operands, s', hwhole, Option.some.inj hp, hvs⟩
    | _ =>
      simp only [form, without_eval] at hform hends
      exact absurd hform hends
  · rintro ⟨hd, rfl, head, operands, s', hwhole, hp, hargs⟩
    unfold Makes
    simp only [body, if_neg (Nat.not_le.mpr hd), expr, inForm_eq_none_iff, hwhole, form, Call.args,
      without_eval]
    refine bind_eq_none_iff.mpr (.inr ⟨p, s', congrArg some hp, ?_⟩)
    exact bind_eq_none_iff.mpr (.inr ⟨args, t, hargs, without_self _ _⟩)

/-- The body of a closure is evaluated where its parameters are bound to the arguments, if there are
as many of these, and nothing else is. -/
theorem makes_body_iff {c : Closure} {args : List Value} {y : Call × State} :
    Makes (.apply (.closure c) args depth, s) y ↔
      c.params.length = args.length ∧ y = (.eval c.body s.frames.size (depth + 1),
        s.addFrame ⟨Std.TreeMap.ofList (c.params.zip args), some c.frame⟩) := by
  unfold Makes
  simp only [body, applyTo]
  by_cases hlength : c.params.length = args.length
  · rw [if_pos hlength]
    constructor
    · intro h
      rcases bind_eq_none_iff.mp h with hnone | ⟨g, u, henter, hbody⟩
      · cases hnone
      · cases henter
        exact ⟨hlength, eq_of_without hbody⟩
    · rintro ⟨-, rfl⟩
      exact bind_eq_none_iff.mpr (.inr ⟨_, _, rfl, without_self _ _⟩)
  · rw [if_neg hlength]
    exact ⟨fun h => (by cases h), fun h => absurd h.1 hlength⟩

end Call

end MiniLisp
