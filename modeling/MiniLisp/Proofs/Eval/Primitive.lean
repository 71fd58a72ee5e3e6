import MiniLisp.Proofs.Eval.CallTree
import MiniLisp.Proofs.Scope.Standard

/-!
# Calls of primitives

Where the names of the primitives mean what they do in a standard frame, a list with such a name at
its head evaluates its operands and hands them to the primitive (`Call.ends_primitive`). Outcomes
here are taken without fuel, by the rules of the evaluator (`Call.body_ends`).
-/

namespace MiniLisp

namespace State

/-- From the frame `f` the name of every primitive leads to the primitive. -/
def KnowsPrimitives (s : State) (f : FrameId) : Prop :=
  ∀ p : Primitive, s.lookup f p.name = some (.builtin p.builtin)

theorem knowsPrimitives_standard (s : State) :
    (s.addFrame .standard).KnowsPrimitives s.frames.size :=
  s.lookup_addFrame_standard

/-- A value that exists already is taken over as it is. -/
@[simp] theorem accept_value (s : State) (v : Value) :
    s.accept (.ok ⟨.value v, ""⟩) = (.ok v, s) := by
  simp [accept, print, make, Draft.finish]

@[simp] theorem accept_error (s : State) (e : Error) : s.accept (.error e) = (.error e, s) := rfl

end State

namespace Eval

variable {α β : Type} {m : Eval α} {k : α → Eval β} {s t : State}

theorem bind_ok {a : α} (h : m s = some (.ok a, t)) : (m >>= k) s = k a t := by
  rw [bind_apply, h]

theorem bind_error {e : Error} (h : m s = some (.error e, t)) :
    (m >>= k) s = some (.error e, t) := by
  rw [bind_apply, h]

theorem bind_eq_ok_iff {b : β} : (m >>= k) s = some (.ok b, t) ↔
    ∃ a u, m s = some (.ok a, u) ∧ k a u = some (.ok b, t) := by
  rw [bind_apply]
  generalize m s = out
  obtain _ | ⟨e | a, u⟩ := out
  · exact ⟨nofun, fun ⟨_, _, h, _⟩ => by cases h⟩
  · exact ⟨nofun, fun ⟨_, _, h, _⟩ => by cases h⟩
  · exact ⟨fun h => ⟨a, u, rfl, h⟩, fun ⟨_, _, h, hk⟩ => by cases h; exact hk⟩

theorem inForm_ok {form : Expr} {a : α} (h : m s = some (.ok a, t)) :
    inForm form m s = some (.ok a, t) := by
  unfold inForm
  rw [h]

theorem inForm_eq_ok_iff {form : Expr} {a : α} :
    inForm form m s = some (.ok a, t) ↔ m s = some (.ok a, t) := by
  unfold inForm
  generalize m s = out
  obtain _ | ⟨e | b, u⟩ := out
  · exact ⟨nofun, nofun⟩
  · exact ⟨fun h => (by cases h), fun h => (by cases h)⟩
  · exact Iff.rfl

theorem inForm_error {form : Expr} {e : Error} (h : m s = some (.error e, t)) :
    inForm form m s = some (.error (e.withContext form.text), t) := by
  unfold inForm
  rw [h]

theorem inForm_congr {form : Expr} {m' : Eval α} (h : m s = m' s) :
    inForm form m s = inForm form m' s := by
  unfold inForm
  rw [h]

end Eval

namespace Call

variable {s : State} {f : FrameId} {depth : Nat}

theorem ends_apply (c : Call) (s : State) : ends c s = c.body ends s := by rw [body_ends]

theorem ends_int (hd : depth < evalLimit) (n : Int64) :
    ends (.eval (.int n) f depth) s = some (.ok (.int n), s) := by
  rw [ends_apply, body, if_neg (Nat.not_le.mpr hd)]
  rfl

theorem ends_symbol (hd : depth < evalLimit) {name : String} {v : Value}
    (h : s.lookup f name = some v) : ends (.eval (.symbol name) f depth) s = some (.ok v, s) := by
  rw [ends_apply, body, if_neg (Nat.not_le.mpr hd), expr, Eval.lookup, h]

/-- A list is evaluated as the form that it is. -/
theorem ends_list (hd : depth < evalLimit) {items : List Expr} {whole : Form}
    (h : Form.ofList items = .ok whole) :
    ends (.eval (.list items) f depth) s =
      Eval.inForm (.list items) (form ends f depth whole) s := by
  rw [ends_apply, body, if_neg (Nat.not_le.mpr hd), expr, h]

theorem ends_eq_iff {c : Call} {r : Except Error Value × State} :
    ends c s = some r ↔ c.outcome s = r := by
  rw [ends, Option.some.injEq]

/-- Nothing has a value at the limit. -/
theorem lt_evalLimit_of_outcome {e : Expr} {v : Value} {t : State}
    (h : (Call.eval e f depth).outcome s = (.ok v, t)) : depth < evalLimit := by
  by_contra hd
  have hends := ends_eq_iff.mpr h
  rw [ends_apply, body, if_pos (Nat.le_of_not_lt hd)] at hends
  cases hends

/-- A list has the value of the form that it is. -/
theorem outcome_list_iff {items : List Expr} {whole : Form} {v : Value} {t : State}
    (hwhole : Form.ofList items = .ok whole) :
    (Call.eval (.list items) f depth).outcome s = (.ok v, t) ↔
      depth < evalLimit ∧ form ends f depth whole s = some (.ok v, t) := by
  constructor
  · intro h
    have hd := lt_evalLimit_of_outcome h
    rw [← ends_eq_iff, ends_list hd hwhole] at h
    exact ⟨hd, Eval.inForm_eq_ok_iff.mp h⟩
  · rintro ⟨hd, h⟩
    rw [← ends_eq_iff, ends_list hd hwhole]
    exact Eval.inForm_ok h

/-- A builtin procedure is refused for the number of its arguments, or run. -/
theorem outcome_builtin (b : Builtin) (s : State) (vs : List Value) (depth : Nat) :
    (Call.apply (.builtin b) vs depth).outcome s =
      if b.arity.accepts vs.length then s.invoke b vs (depth + 1)
      else (.error (.arity b.arity vs.length none), s) := by
  obtain ⟨name, arity, operation⟩ := b
  refine outcome_eq_of_body ?_
  simp only [body, applyTo]
  split
  · cases operation with
    | primitive => rfl
    | host index =>
      simp only [State.invoke, Eval.bind_apply, Eval.host]
      cases s.hosts[index]? with
      | none => rfl
      | some run => rfl
    | higher => rfl
  · rfl

theorem ends_builtin (p : Primitive) {vs : List Value} (h : p.entry.arity.accepts vs.length) :
    ends (.apply (.builtin p.builtin) vs depth) s = some (s.accept (p.entry.run vs)) := by
  have hrun : s.invoke p.builtin vs (depth + 1) = s.accept (p.entry.run vs) := rfl
  rw [ends, outcome_builtin, ← hrun]
  exact congrArg some (if_pos h)

/-- A primitive that makes nothing and prints nothing leaves the state as it is. -/
theorem outcome_of_run {p : Primitive} {vs : List Value} {r : Except Error Value}
    (hcount : p.entry.arity.accepts vs.length)
    (hrun : p.entry.run vs = r.map fun v => ⟨.value v, ""⟩) (s : State) (depth : Nat) :
    (Call.apply (.builtin p.builtin) vs depth).outcome s = (r, s) := by
  rw [← ends_eq_iff, ends_builtin p hcount, hrun]
  cases r with
  | ok v => exact congrArg some (s.accept_value v)
  | error e => rfl

/-- A list with the name of a primitive at its head evaluates its operands one after the other and
applies the primitive to them. -/
theorem ends_named {p : Primitive} (hp : s.lookup f p.name = some (.builtin p.builtin))
    (hd : depth + 1 < evalLimit) (operands : List Expr) :
    ends (.eval (.list (.symbol p.name :: operands)) f depth) s =
      Eval.inForm (.list (.symbol p.name :: operands))
        (args ends f (depth + 1) operands >>= fun vs => ends (.apply (.builtin p.builtin) vs depth))
        s := by
  have hlimit : depth < evalLimit := Nat.lt_of_succ_lt hd
  rw [ends_list hlimit (Form.ofList_primitive p operands)]
  refine Eval.inForm_congr ?_
  rw [form, Eval.bind_ok (ends_symbol hd hp)]

theorem ends_primitive (hs : s.KnowsPrimitives f) (hd : depth + 1 < evalLimit) (p : Primitive)
    (operands : List Expr) :
    ends (.eval (.list (.symbol p.name :: operands)) f depth) s =
      Eval.inForm (.list (.symbol p.name :: operands))
        (args ends f (depth + 1) operands >>= fun vs => ends (.apply (.builtin p.builtin) vs depth))
        s :=
  ends_named (hs p) hd operands

end Call

end MiniLisp
