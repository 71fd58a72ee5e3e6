import MiniLisp.Proofs.Context.Mark
import MiniLisp.Proofs.Eval.DepthLimit
import MiniLisp.Proofs.Eval.Primitive

/-!
# Blocks

`begin` is a procedure like others: its operands are evaluated one level deeper than the block, and
the block names itself in their errors. None of this shows. A block comes to what its expressions
come to as separate requests of the host (`State.evalSteps`), because no evaluation depends on its
depth but through the limit, and because an error that leaves an evaluation takes no further name.
-/

namespace MiniLisp

/-- Once naming a form changes nothing, naming another one does not either. -/
theorem Error.withContext_of_eq {err : Error} {form : String} (h : err.withContext form = err)
    (form' : String) : err.withContext form' = err := by
  cases err with
  | type cause context =>
    simp only [withContext] at h ⊢
    split
    · rfl
    · rename_i hmarked
      rw [if_neg hmarked] at h
      cases h
      exact absurd rfl hmarked
  | eval cause context =>
    simp only [withContext] at h ⊢
    split
    · rfl
    · rename_i hmarked
      rw [if_neg hmarked] at h
      cases h
      exact absurd rfl hmarked
  | _ => rfl

namespace State

/-- Goes on in the state that an evaluation has left, unless it has failed. -/
def proceed (others : State → Outcome Value) : Outcome Value → Outcome Value
  | (.error err, t) => (.error err, t)
  | (.ok _, t) => others t

/-- Evaluates expressions one after the other, each as a request of its own. The first that fails
ends them, and the last one gives the answer. -/
def evalSteps (s : State) (f : FrameId) (e : Expr) : List Expr → Outcome Value
  | [] => s.eval f e
  | next :: rest => proceed (fun t => t.evalSteps f next rest) (s.eval f e)

variable {s t : State} {f : FrameId} {e next : Expr} {rest : List Expr}

theorem evalSteps_of_error {err : Error} (h : s.eval f e = (.error err, t)) (es : List Expr) :
    s.evalSteps f e es = (.error err, t) := by
  cases es with
  | nil => exact h
  | cons next rest => rw [evalSteps, h, proceed]

theorem evalSteps_of_ok {v : Value} (h : s.eval f e = (.ok v, t)) :
    s.evalSteps f e (next :: rest) = t.evalSteps f next rest := by
  rw [evalSteps, h, proceed]

end State

namespace Call

open Eval

variable {s t : State} {f : FrameId} {depth : Nat} {e : Expr} {es : List Expr} {v : Value}
  {err : Error}

/-- What the operands of a block come to, beside what they come to as steps. -/
inductive LikeSteps : Outcome (List Value) → Outcome Value → Prop where
  | limited {err : Error} (h : err.IsDepthLimit) (t : State) (steps : Outcome Value) :
      LikeSteps (.error err, t) steps
  | failed {err : Error} (h : ∀ form, err.withContext form = err) (t : State) :
      LikeSteps (.error err, t) (.error err, t)
  | done (vs : List Value) (v : Value) (t : State) : LikeSteps (.ok (vs ++ [v]), t) (.ok v, t)

theorem ends_at_limit (hd : evalLimit ≤ depth) (e : Expr) (s : State) :
    ends (.eval e f depth) s = some (.error (.eval .depthLimit none), s) := by
  rw [ends_apply, body, if_pos hd, fail_apply]

/-- An error that leaves an evaluation takes no further name. -/
theorem withContext_of_outcome (h : (Call.eval e f depth).outcome s = (.error err, t))
    (hlimit : ¬ err.IsDepthLimit) (form : String) : err.withContext form = err := by
  have hd : depth < evalLimit := by
    by_contra hd
    have hends := ends_at_limit (f := f) (Nat.le_of_not_lt hd) e s
    rw [ends_eq_iff, h] at hends
    cases hends
    exact hlimit trivial
  cases e with
  | list items =>
    exact Error.withContext_of_eq (withContext_eq_of_outcome hd (congrArg Prod.fst h)) form
  | symbol name =>
    rw [← ends_eq_iff, ends_apply, body, if_neg (Nat.not_le.mpr hd), expr, Eval.lookup] at h
    split at h
    · cases h
    · cases h
      rfl
  | _ =>
    rw [← ends_eq_iff, ends_apply, body, if_neg (Nat.not_le.mpr hd)] at h
    cases h

/-- An operand goes as the same expression does as a step, unless it is cut off. -/
theorem eval_like_step (e : Expr) (f : FrameId) (depth : Nat) (s : State) :
    Limited ((Call.eval e f depth).outcome s).1 ∨ (Call.eval e f depth).outcome s = s.eval f e := by
  have h := outcome_deeper depth (.eval e f 0) s
  rw [deeper, Nat.zero_add] at h
  exact h.imp_right Eq.symm

theorem step_of_ok (h : (Call.eval e f depth).outcome s = (.ok v, t)) :
    s.eval f e = (.ok v, t) := by
  have hstep := eval_like_step e f depth s
  rw [h] at hstep
  exact (hstep.resolve_left (not_limited_ok v)).symm

theorem like_steps_of_error (h : (Call.eval e f depth).outcome s = (.error err, t))
    (es : List Expr) : LikeSteps (.error err, t) (s.evalSteps f e es) := by
  by_cases hlimit : err.IsDepthLimit
  · exact .limited hlimit t _
  · have hstep := eval_like_step e f depth s
    rw [h] at hstep
    rw [State.evalSteps_of_error (hstep.resolve_left (mt limited_error.mp hlimit)).symm]
    exact .failed (withContext_of_outcome h hlimit) t

/-- By induction on the expressions: as long as none fails, operands and steps leave the same
states, so the next operand starts where the next step does. -/
theorem args_like_steps (f : FrameId) (depth : Nat) (e : Expr) (es : List Expr) (s : State) :
    ∃ out, args ends f depth (e :: es) s = some out ∧ LikeSteps out (s.evalSteps f e es) := by
  induction es generalizing e s with
  | nil =>
    rw [args, List.mapM_cons, List.mapM_nil]
    rcases hout : (Call.eval e f depth).outcome s with ⟨err | v, t⟩
    · exact ⟨_, bind_error (congrArg some hout), like_steps_of_error hout []⟩
    · rw [State.evalSteps, step_of_ok hout]
      exact ⟨_, bind_ok (congrArg some hout), .done [] v t⟩
  | cons next rest ih =>
    rw [args, List.mapM_cons]
    rcases hout : (Call.eval e f depth).outcome s with ⟨err | v, t⟩
    · exact ⟨_, bind_error (congrArg some hout), like_steps_of_error hout (next :: rest)⟩
    · rw [State.evalSteps_of_ok (step_of_ok hout), bind_ok (congrArg some hout)]
      obtain ⟨out, hrest, hlike⟩ := ih next t
      rw [args] at hrest
      generalize t.evalSteps f next rest = steps at hlike
      cases hlike with
      | limited hlimit u => exact ⟨_, bind_error hrest, .limited hlimit u _⟩
      | failed hnamed u => exact ⟨_, bind_error hrest, .failed hnamed u⟩
      | done vs w u => exact ⟨_, bind_ok hrest, .done (v :: vs) w u⟩

/-- `begin` takes one value or more and answers with the last. -/
theorem ends_begin (vs : List Value) (v : Value) (depth : Nat) (s : State) :
    ends (.apply (.builtin Primitive.sequence.builtin) (vs ++ [v]) depth) s = some (.ok v, s) := by
  have hcount : Primitive.sequence.entry.arity.accepts (vs ++ [v]).length = true := by
    simp [Primitive.entry, Entry.variadic, Arity.accepts]
  have hrun : Primitive.sequence.entry.run (vs ++ [v]) = .ok ⟨.value v, ""⟩ := by
    simp [Primitive.entry, Entry.variadic, Function.feed, Rest.convert, Builtin.sequence,
      Answer.reply]
  rw [ends_builtin .sequence hcount, hrun, State.accept_value]

/-- Next to the limit a call is cut off at its head. -/
theorem limited_of_head {items : List Expr} {head : Expr} {operands : List Expr}
    (hitems : Form.ofList items = .ok (.call head operands)) (hd : evalLimit ≤ depth + 1) :
    Limited ((Call.eval (.list items) f depth).outcome s).1 := by
  rcases Nat.lt_or_ge depth evalLimit with hdepth | hdepth
  · have hform : form ends f depth (.call head operands) s =
        some (.error (.eval .depthLimit none), s) := bind_error (ends_at_limit hd head s)
    rw [ends_eq_iff.mp ((ends_list hdepth hitems).trans (inForm_error hform))]
    exact limited_error.mpr ((Error.isDepthLimit_withContext _ _).mpr trivial)
  · rw [ends_eq_iff.mp (ends_at_limit hdepth _ s)]
    exact limited_error.mpr trivial

/-- In a frame where `begin` has its standard meaning, a block comes to what its expressions come to
as separate requests, one after the other up to the first that fails: the same value or the same
error with the same form named in it, the same frames and bindings, the same printed text. Only the
depth limit may end the block before. What the expressions do to `begin` or to each other's
variables makes no difference. -/
theorem block_comes_to_its_steps
    (h : s.lookup f "begin" = some (.builtin Primitive.sequence.builtin)) (e : Expr)
    (es : List Expr) (depth : Nat) :
    Limited ((Call.eval (.list (.symbol "begin" :: e :: es)) f depth).outcome s).1 ∨
      (Call.eval (.list (.symbol "begin" :: e :: es)) f depth).outcome s = s.evalSteps f e es := by
  rcases Nat.lt_or_ge (depth + 1) evalLimit with hd | hd
  · have hends : ends (.eval (.list (.symbol "begin" :: e :: es)) f depth) s = _ :=
      ends_named (p := .sequence) h hd (e :: es)
    obtain ⟨out, hargs, hlike⟩ := args_like_steps f (depth + 1) e es s
    generalize s.evalSteps f e es = steps at hlike ⊢
    cases hlike with
    | limited hlimit t =>
      rw [ends_eq_iff.mp (hends.trans (inForm_error (bind_error hargs)))]
      exact .inl (limited_error.mpr ((Error.isDepthLimit_withContext _ _).mpr hlimit))
    | failed hnamed t =>
      rw [ends_eq_iff.mp (hends.trans (inForm_error (bind_error hargs))), hnamed]
      exact .inr rfl
    | done vs v t =>
      refine .inr (ends_eq_iff.mp (hends.trans (inForm_ok ?_)))
      rw [bind_ok hargs, ends_begin]
  · exact .inl (limited_of_head (Form.ofList_primitive .sequence (e :: es)) hd)

/-- A block that binds a variable, takes its own name away and then fails. -/
theorem block_comes_to_its_steps_without_its_name :
    let s := (State.empty.addFrame (.empty none)).define 0 "begin"
      (.builtin Primitive.sequence.builtin)
    let first : Expr := .list [.symbol "define", .symbol "x", .int 5]
    let others : List Expr :=
      [.list [.symbol "set!", .symbol "begin", .symbol "x"], .list [.symbol "begin"]]
    let block : Expr := .list (.symbol "begin" :: first :: others)
    let err : Error := .type (.notProcedure (Value.int 5).shown) (some "(begin)")
    s.lookup 0 "begin" = some (.builtin Primitive.sequence.builtin) ∧
    ((Call.eval block 0 0).outcome s).1 = .error err ∧
    s.evalSteps 0 first others = (Call.eval block 0 0).outcome s := by
  intro s first others block err
  have hbegin : s.lookup 0 "begin" = some (.builtin Primitive.sequence.builtin) := rfl
  have hrun : (Call.run 9 (.eval block 0 0) s).map (·.1) = some (.error err) := rfl
  have herror : ((Call.eval block 0 0).outcome s).1 = .error err := seen_outcome_of_run hrun
  have hsame := block_comes_to_its_steps hbegin first others 0
  refine ⟨hbegin, herror, (hsame.resolve_left fun hlimit => ?_).symm⟩
  rw [herror] at hlimit
  exact limited_error.mp hlimit

end Call

end MiniLisp
