import MiniLisp.Eval.Call

/-!
# The plan of a call

What a call does is put together from few parts: steps that need no other call, calls one after the
other, and the naming of a form in errors. `Call.body_plan` says so once, with the calls that a call
may make (`Call.Inside`) and the errors that it may raise by itself (`Call.Raises`). What holds of
the parts holds of every call by induction on its plan.
-/

namespace MiniLisp

namespace Call

/-- How calls run. -/
abbrev Runner := Call → Eval Value

/-- The calls that a call may make, as far as the call itself tells. -/
inductive Inside : Call → Call → Prop where
  | part {e e' : Expr} {f : FrameId} {depth : Nat} (h : depth < evalLimit) :
      Inside (.eval e f depth) (.eval e' f (depth + 1))
  | procedure {e : Expr} {f : FrameId} {p : Value} {vs : List Value} {depth : Nat}
      (h : depth < evalLimit) : Inside (.eval e f depth) (.apply p vs depth)
  | closure {c : Closure} {args : List Value} {f : FrameId} {depth : Nat}
      (h : c.params.length = args.length) :
      Inside (.apply (.closure c) args depth) (.eval c.body f (depth + 1))
  | builtin {b : Builtin} {h : Higher} {args : List Value} {depth : Nat}
      (hb : b.operation = .higher h) (ha : b.arity.accepts args.length = true) :
      Inside (.apply (.builtin b) args depth) (.higher h args (depth + 1))
  | argument {h : Higher} {args : List Value} {p : Value} {vs : List Value} {depth : Nat}
      (hs : sizeOf vs < sizeOf args) : Inside (.higher h args depth) (.apply p vs depth)

/-- The errors that a call may raise by itself. The depth limit is the matter of evaluations alone,
unless a procedure of the host answers with its error. -/
def Raises : Call → Error → Prop
  | .eval _ _ depth, e => e.IsDepthLimit → evalLimit ≤ depth
  | .apply (.builtin b) _ _, e => e.IsDepthLimit → ∀ h, b.operation ≠ .higher h
  | .apply _ _ _, e => ¬ e.IsDepthLimit
  | .higher _ _ _, e => ¬ e.IsDepthLimit

variable {α β : Type} {E : Error → Prop} {P : Call → Prop}

/-- Computations that run calls of the kind `P` one after the other and raise no error by
themselves but those of the kind `E`. -/
inductive Plan (E : Error → Prop) (P : Call → Prop) : {α : Type} → (Runner → Eval α) → Prop where
  | leaf {α : Type} {m : Eval α}
      (h : ∀ s, ∃ r t, m s = some (r, t) ∧ ∀ e, r = .error e → E e) : Plan E P fun _ => m
  | call {c : Call} (h : P c) : Plan E P fun recur => recur c
  | bind {α β : Type} {m : Runner → Eval α} {k : α → Runner → Eval β} (hm : Plan E P m)
      (hk : ∀ a, Plan E P (k a)) : Plan E P fun recur => m recur >>= fun a => k a recur
  | inForm {α : Type} {m : Runner → Eval α} (form : Expr) (hm : Plan E P m) :
      Plan E P fun recur => Eval.inForm form (m recur)

namespace Plan

theorem finish {r : Except Error α} (h : ∀ e, r = .error e → E e) :
    Plan E P fun _ => Eval.finish r :=
  .leaf fun s => ⟨r, s, rfl, h⟩

theorem fail {e : Error} (h : E e) : Plan E P fun _ => (Eval.fail e : Eval α) :=
  .finish fun e' he => by cases he; exact h

theorem ret (a : α) : Plan E P fun _ => (pure a : Eval α) :=
  .finish (r := .ok a) fun e he => by cases he

theorem mapM {k : β → Runner → Eval α} {xs : List β} (h : ∀ x ∈ xs, Plan E P (k x)) :
    Plan E P fun recur => xs.mapM fun x => k x recur := by
  induction xs with
  | nil => exact .ret []
  | cons x xs ih =>
    simp only [List.mapM_cons]
    have hrest := ih fun y hy => h y (.tail _ hy)
    exact (h x (.head _)).bind fun v => hrest.bind fun vs => .ret (v :: vs)

end Plan

theorem error_of_map {r : Except Error α} {g : α → β} {e : Error} (h : r.map g = .error e) :
    r = .error e := by
  cases r with
  | ok a => cases h
  | error e' => cases h; rfl

theorem not_isDepthLimit_of_paramsFrom {seen : List String} {items : List Expr} {e : Error}
    (h : Form.paramsFrom seen items = .error e) : ¬ e.IsDepthLimit := by
  induction items generalizing seen with
  | nil => cases h
  | cons item items ih =>
    simp only [Form.paramsFrom] at h
    split at h
    · cases h
      exact id
    · split at h
      · cases h
        exact id
      · exact ih (error_of_map h)

theorem not_isDepthLimit_of_params {item : Expr} {e : Error} (h : Form.params item = .error e) :
    ¬ e.IsDepthLimit := by
  unfold Form.params at h
  split at h
  · exact not_isDepthLimit_of_paramsFrom h
  · cases h
    exact id

theorem not_isDepthLimit_of_target {keyword : String} {item : Expr} {e : Error}
    (h : Form.target keyword item = .error e) : ¬ e.IsDepthLimit := by
  unfold Form.target at h
  split at h
  · cases h
  · cases h
    exact id

theorem not_isDepthLimit_of_ofList {items : List Expr} {e : Error}
    (h : Form.ofList items = .error e) : ¬ e.IsDepthLimit := by
  unfold Form.ofList at h
  split at h
  · cases h
    exact id
  · split at h
    · cases h
    · split at h
      · cases h
      · cases h
      · exact not_isDepthLimit_of_target (error_of_map h)
      · exact not_isDepthLimit_of_target (error_of_map h)
      · exact not_isDepthLimit_of_params (error_of_map h)
      · cases h
        exact id

theorem form_plan (f : FrameId) {depth : Nat} (hd : depth < evalLimit) {e : Expr} (x : Form) :
    Plan (Raises (.eval e f depth)) (Inside (.eval e f depth)) fun recur =>
      form recur f depth x := by
  have hpart (e' : Expr) : Plan (Raises (.eval e f depth)) (Inside (.eval e f depth))
      fun recur => recur (.eval e' f (depth + 1)) := .call (.part hd)
  cases x with
  | quote datum => exact .leaf fun s => ⟨_, _, rfl, fun e he => by cases he⟩
  | cond test yes no => exact (hpart test).bind fun v => hpart _
  | define name value =>
    exact (hpart value).bind fun v =>
      (Plan.leaf fun s => ⟨_, _, rfl, fun e he => by cases he⟩).bind fun _ => .ret _
  | assign name value =>
    refine (hpart value).bind fun v => (Plan.leaf fun s => ⟨_, _, rfl, fun e he => ?_⟩).bind
      fun _ => .ret _
    split at he
    · cases he
    · cases he
      exact False.elim
  | lambda params body => exact .leaf fun s => ⟨_, _, rfl, fun e he => by cases he⟩
  | call head operands =>
    exact (hpart head).bind fun p =>
      (Plan.mapM fun e' _ => hpart e').bind fun vs => .call (.procedure hd)

theorem expr_plan (f : FrameId) {depth : Nat} (hd : depth < evalLimit) (e : Expr) :
    Plan (Raises (.eval e f depth)) (Inside (.eval e f depth)) fun recur =>
      expr recur f depth e := by
  cases e with
  | int n => exact .ret _
  | float x => exact .ret _
  | symbol name =>
    refine .leaf fun s => ?_
    cases s.lookup f name with
    | none => exact ⟨_, _, rfl, fun e he => by cases he; exact False.elim⟩
    | some v => exact ⟨_, _, rfl, fun e he => by cases he⟩
  | list items =>
    refine Plan.inForm _ ?_
    cases hx : Form.ofList items with
    | error e => exact .fail fun he => absurd he (not_isDepthLimit_of_ofList hx)
    | ok x => exact form_plan f hd x

theorem applyTo_plan (args : List Value) (depth : Nat) (p : Value) :
    Plan (Raises (.apply p args depth)) (Inside (.apply p args depth)) fun recur =>
      applyTo recur args depth p := by
  cases p with
  | builtin b =>
    simp only [applyTo]
    split
    · rename_i ha
      cases hb : b.operation with
      | primitive p => exact .leaf fun s => ⟨_, _, rfl, fun e _ _ h => by simp [hb]⟩
      | host index =>
        have hraise (e : Error) : Raises (.apply (.builtin b) args depth) e :=
          fun _ h => by simp [hb]
        refine Plan.bind (.leaf fun s => ?_) fun run =>
          .leaf fun s => ⟨_, _, rfl, fun e _ => hraise e⟩
        unfold Eval.host
        cases s.hosts[index]? with
        | none => exact ⟨_, _, rfl, fun e _ => hraise e⟩
        | some run => exact ⟨_, _, rfl, fun e _ => hraise e⟩
      | higher h => exact .call (.builtin hb ha)
    · exact .fail fun he => absurd he id
  | closure c =>
    simp only [applyTo]
    split
    · rename_i hc
      exact (Plan.leaf fun s => ⟨_, _, rfl, fun e he => by cases he⟩).bind
        fun f => .call (.closure hc)
    · exact .fail id
  | _ => exact .fail id

theorem sizeOf_row_le {lists : List (List Value)} {i : Nat} {vs : List Value}
    (h : ((lists.map List.toArray).mapM fun items : Array Value => items[i]?) = some vs) :
    sizeOf vs ≤ sizeOf lists := by
  induction lists generalizing vs with
  | nil =>
    cases h
    simp
  | cons items lists ih =>
    rw [List.map_cons, List.mapM_cons] at h
    simp only [List.getElem?_toArray, Option.bind_eq_bind, Option.bind_eq_some_iff,
      Option.pure_def, Option.some.injEq] at h
    obtain ⟨v, hv, ws, hws, rfl⟩ := h
    have := List.sizeOf_lt_of_mem (List.mem_of_getElem? hv)
    have := ih hws
    simp only [List.cons.sizeOf_spec]
    omega

theorem sizeOf_listsOf_le {vs : List Value} {lists : List (List Value)}
    (h : listsOf vs = .ok lists) : sizeOf lists ≤ sizeOf vs := by
  induction vs generalizing lists with
  | nil =>
    cases h
    simp
  | cons v vs ih =>
    unfold listsOf at h ih
    rw [List.mapM_cons] at h
    cases v with
    | list id items =>
      simp only [bind, Except.bind] at h
      split at h
      · cases h
      · rename_i rest hrest
        cases h
        have := ih hrest
        simp only [List.cons.sizeOf_spec, Value.list.sizeOf_spec]
        omega
    | _ => cases h

theorem sizeOf_args_lt {p : Value} {vs ws : List Value} {lists : List (List Value)} {i : Nat}
    (hl : listsOf vs = .ok lists) (hr : row (lists.map List.toArray) i = .ok ws) :
    sizeOf ws < sizeOf (p :: vs) := by
  have hrow : ((lists.map List.toArray).mapM fun items : Array Value => items[i]?) = some ws := by
    unfold row at hr
    split at hr
    · rename_i us hus
      cases hr
      exact hus
    · cases hr
  have := sizeOf_row_le hrow
  have := sizeOf_listsOf_le hl
  simp only [List.cons.sizeOf_spec]
  omega

theorem not_isDepthLimit_of_listsOf {vs : List Value} {e : Error} (h : listsOf vs = .error e) :
    ¬ e.IsDepthLimit := by
  induction vs with
  | nil => cases h
  | cons v vs ih =>
    unfold listsOf at h ih
    rw [List.mapM_cons] at h
    cases v with
    | list id items =>
      simp only [bind, Except.bind] at h
      split at h
      · rename_i hrest
        cases h
        exact ih hrest
      · cases h
    | _ =>
      cases h
      exact id

theorem not_isDepthLimit_of_row {lists : List (Array Value)} {i : Nat} {e : Error}
    (h : row lists i = .error e) : ¬ e.IsDepthLimit := by
  unfold row at h
  split at h
  · cases h
  · cases h
    exact id

theorem higherBody_plan (depth : Nat) (h : Higher) (args : List Value) :
    Plan (Raises (.higher h args depth)) (Inside (.higher h args depth)) fun recur =>
      higherBody recur depth h args := by
  unfold higherBody
  split
  · refine .call (.argument ?_)
    simp only [List.cons.sizeOf_spec, Value.list.sizeOf_spec]
    omega
  · exact .fail id
  · exact .fail id
  · exact .fail id
  · split
    · split
      · rename_i hlists
        exact .fail (not_isDepthLimit_of_listsOf hlists)
      · rename_i lists hlists
        refine Plan.bind (Plan.mapM fun i _ => ?_) fun results =>
          .leaf fun s => ⟨_, _, rfl, fun e he => by cases he⟩
        cases hr : row (lists.map List.toArray) i with
        | error e => exact .fail (not_isDepthLimit_of_row hr)
        | ok ws => exact .call (.argument (sizeOf_args_lt hlists hr))
    · exact .fail id

/-- What a call does, as a plan. -/
theorem body_plan (c : Call) : Plan c.Raises c.Inside fun recur => c.body recur := by
  cases c with
  | eval e f depth =>
    simp only [body]
    split
    · rename_i hd
      exact .fail fun _ => hd
    · rename_i hd
      exact expr_plan f (Nat.lt_of_not_le hd) e
  | apply p args depth => exact applyTo_plan args depth p
  | higher h args depth => exact higherBody_plan depth h args

end Call

end MiniLisp
