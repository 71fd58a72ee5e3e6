import MiniLisp.Proofs.Eval.CallTree

/-!
# Kinds of computations

What holds of every step that needs no call, and of whatever is put together from computations that
it holds of, holds of every run (`Eval.Kind.run`). So runs neither make nor lose procedures of the
host, wherever they come to (`Call.hosts_outcome`, `Call.hosts_of_enters`).
-/

namespace MiniLisp

/-- A kind that all steps are of, and that what is put together from its computations is of. -/
structure Eval.Kind where
  has : {α : Type} → Eval α → Prop
  finish {α : Type} (r : Except Error α) : has (Eval.finish r)
  bind {α β : Type} {m : Eval α} {k : α → Eval β} : has m → (∀ a, has (k a)) → has (m >>= k)
  inForm {α : Type} (form : Expr) {m : Eval α} : has m → has (Eval.inForm form m)
  lookup (f : FrameId) (name : String) : has (Eval.lookup f name)
  define (f : FrameId) (name : String) (v : Value) : has (Eval.define f name v)
  assign (f : FrameId) (name : String) (v : Value) : has (Eval.assign f name v)
  enter (outer : FrameId) (bindings : List (String × Value)) : has (Eval.enter outer bindings)
  make (d : Draft) : has (Eval.make d)
  close (params : List String) (body : Expr) (f : FrameId) : has (Eval.close params body f)
  accept (r : Except Error Reply) : has (Eval.accept r)
  host (index : Nat) : has (Eval.host index)

namespace Eval.Kind

variable {K : Eval.Kind} {recur : Call.Runner} {α β : Type}

theorem fail (K : Eval.Kind) (e : Error) : K.has (Eval.fail e : Eval α) := K.finish (.error e)

theorem ret (K : Eval.Kind) (a : α) : K.has (pure a : Eval α) := K.finish (.ok a)

theorem mapM {k : α → Eval β} (h : ∀ a, K.has (k a)) (as : List α) : K.has (as.mapM k) := by
  induction as with
  | nil => exact K.ret []
  | cons a as ih =>
    rw [List.mapM_cons]
    exact K.bind (h a) fun b => K.bind ih fun bs => K.ret (b :: bs)

section Calls

variable (h : ∀ c, K.has (recur c))

include h

theorem form (f : FrameId) (depth : Nat) (x : Form) : K.has (Call.form recur f depth x) := by
  cases x with
  | quote datum => exact K.make _
  | cond test yes no => exact K.bind (h _) fun v => h _
  | define name value =>
    exact K.bind (h _) fun v => K.bind (K.define f name v) fun _ => K.ret _
  | assign name value =>
    exact K.bind (h _) fun v => K.bind (K.assign f name v) fun _ => K.ret _
  | lambda params body => exact K.close params body f
  | call head operands =>
    exact K.bind (h _) fun p => K.bind (mapM (fun _ => h _) operands) fun vs => h _

theorem expr (f : FrameId) (depth : Nat) (e : Expr) : K.has (Call.expr recur f depth e) := by
  cases e with
  | int n => exact K.ret _
  | float x => exact K.ret _
  | symbol name => exact K.lookup f name
  | list items =>
    refine K.inForm _ ?_
    cases Form.ofList items with
    | error e => exact K.fail e
    | ok x => exact form h f depth x

theorem applyTo (args : List Value) (depth : Nat) (p : Value) :
    K.has (Call.applyTo recur args depth p) := by
  cases p with
  | builtin b =>
    simp only [Call.applyTo]
    split
    · split
      · exact K.accept _
      · exact K.bind (K.host _) fun run => K.accept _
      · exact h _
    · exact K.fail _
  | closure c =>
    simp only [Call.applyTo]
    split
    · exact K.bind (K.enter _ _) fun f => h _
    · exact K.fail _
  | _ => exact K.fail _

theorem mapOver (depth : Nat) (p : Value) (lists : List (List Value)) :
    K.has (Call.mapOver recur depth p lists) := by
  refine mapM (fun i => ?_) _
  split
  · exact K.fail _
  · exact h _

theorem higherBody (depth : Nat) (hh : Higher) (args : List Value) :
    K.has (Call.higherBody recur depth hh args) := by
  unfold Call.higherBody
  split
  · exact h _
  · exact K.fail _
  · exact K.fail _
  · exact K.fail _
  · split
    · split
      · exact K.fail _
      · exact K.bind (mapOver h depth _ _) fun results => K.make _
    · exact K.fail _

/-- A call is of the kind if the calls inside it are. -/
theorem body (c : Call) : K.has (c.body recur) := by
  cases c with
  | eval e f depth =>
    simp only [Call.body]
    split
    · exact K.fail _
    · exact expr h f depth e
  | apply p args depth => exact applyTo h args depth p
  | higher hh args depth => exact higherBody h depth hh args

end Calls

/-- Every run is of the kind if running out of fuel is. -/
theorem run (h : ∀ {α : Type}, K.has fun _ => (none : Option (Except Error α × State))) (n : Nat)
    (c : Call) : K.has (Call.run n c) := by
  induction n generalizing c with
  | zero => exact h
  | succ n ih => exact body ih c

end Eval.Kind

namespace Call

/-- From states with the procedures `hosts` of the host the computation comes to such states, or it
does not end and `stuck` holds. -/
def KeepsHosts (hosts : Array HostFunction) (stuck : Prop) {α : Type} (m : Eval α) : Prop :=
  ∀ s, s.hosts = hosts → (m s).elim stuck fun r => r.2.hosts = hosts

def keepsHosts (hosts : Array HostFunction) (stuck : Prop) : Eval.Kind where
  has := KeepsHosts hosts stuck
  finish _ _ hs := hs
  bind {α β m k} hm hk s hs := by
    have h := hm s hs
    rw [Eval.bind_apply]
    generalize m s = o at h ⊢
    obtain _ | ⟨e | a, t⟩ := o
    · exact h
    · exact h
    · exact hk a t h
  inForm {α} form {m} hm s hs := by
    have h := hm s hs
    unfold Eval.inForm
    generalize m s = o at h ⊢
    obtain _ | ⟨e | a, t⟩ := o
    · exact h
    · exact h
    · exact h
  lookup f name s hs := by
    unfold Eval.lookup
    split
    · exact hs
    · exact hs
  define _ _ _ _ hs := hs
  assign f name v s hs := by
    simp only [Eval.assign, State.assign]
    split
    · exact hs
    · exact hs
  enter _ _ _ hs := hs
  make _ _ hs := hs
  close _ _ _ _ hs := hs
  accept r s hs := by
    cases r with
    | error e => exact hs
    | ok reply => exact hs
  host index s hs := by
    unfold Eval.host
    split
    · exact hs
    · exact hs

/-- Runs neither make nor lose procedures of the host. -/
theorem hosts_outcome (c : Call) (s : State) : (c.outcome s).2.hosts = s.hosts := by
  obtain ⟨n, hn⟩ := outcome_eq_iff.mp (rfl : c.outcome s = c.outcome s)
  have h := (keepsHosts s.hosts True).run (fun _ _ => trivial) n c s rfl
  rwa [hn] at h

theorem hosts_of_makes {x y : Call × State} (h : Makes x y) : y.2.hosts = x.2.hosts := by
  by_contra hno
  -- Were there other procedures at `y`, the call would end without it.
  have hwithout (c : Call) : (keepsHosts x.2.hosts False).has (without y c) := by
    intro s hs
    unfold without
    split
    · rename_i heq
      exact hno (heq ▸ hs)
    · exact (hosts_outcome c s).trans hs
  have hbody := Eval.Kind.body hwithout x.1 x.2 rfl
  unfold Makes at h
  rw [h] at hbody
  exact hbody

theorem hosts_of_enters {x y : Call × State} (h : Enters x y) : y.2.hosts = x.2.hosts := by
  induction h with
  | refl => rfl
  | tail _ hmakes ih => rw [hosts_of_makes hmakes, ih]

end Call

end MiniLisp
