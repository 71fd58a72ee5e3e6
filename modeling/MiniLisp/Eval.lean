import MiniLisp.State

/-!
# Computations

An `Eval α` transforms the state and ends in an `α` or in an error, or does not end within the
fuel it was given. Effects made before an error stay.
-/

namespace MiniLisp

/-- `none` stands for a computation that ran out of fuel. -/
def Eval (α : Type) : Type := State → Option (Except Error α × State)

namespace Eval

variable {α β : Type}

/-- Ends at once, with a value or an error. -/
def finish (r : Except Error α) : Eval α := fun s => some (r, s)

def fail (e : Error) : Eval α := finish (.error e)

def andThen (m : Eval α) (k : α → Eval β) : Eval β := fun s =>
  match m s with
  | none => none
  | some (.error e, s) => some (.error e, s)
  | some (.ok a, s) => k a s

instance : Monad Eval where
  pure a := finish (.ok a)
  bind := andThen

@[simp] theorem pure_apply (a : α) (s : State) : (pure a : Eval α) s = some (.ok a, s) := rfl

@[simp] theorem finish_apply (r : Except Error α) (s : State) : finish r s = some (r, s) := rfl

@[simp] theorem fail_apply (e : Error) (s : State) : (fail e : Eval α) s = some (.error e, s) := rfl

theorem bind_apply (m : Eval α) (k : α → Eval β) (s : State) :
    (m >>= k) s = match m s with
      | none => none
      | some (.error e, s) => some (.error e, s)
      | some (.ok a, s) => k a s := rfl

/-- A sequence does not end if its first part does not, or else its second. -/
theorem bind_eq_none_iff {m : Eval α} {k : α → Eval β} {s : State} :
    (m >>= k) s = none ↔ m s = none ∨ ∃ a t, m s = some (.ok a, t) ∧ k a t = none := by
  rw [bind_apply]
  rcases m s with _ | ⟨e | a, t⟩
  · simp
  · simp
  · simp only [Option.some.injEq, Prod.mk.injEq, Except.ok.injEq, reduceCtorEq, false_or]
    exact ⟨fun h => ⟨a, t, ⟨rfl, rfl⟩, h⟩, fun ⟨_, _, ⟨ha, ht⟩, h⟩ => ha ▸ ht ▸ h⟩

instance : LawfulMonad Eval := LawfulMonad.mk' _
  (fun m => by
    funext s
    change andThen m (fun a => finish (.ok a)) s = m s
    unfold andThen
    rcases m s with _ | ⟨_ | _, _⟩ <;> rfl)
  (fun _ _ => rfl)
  (fun m k l => by
    funext s
    change andThen (andThen m k) l s = andThen m (fun a => andThen (k a) l) s
    unfold andThen
    rcases m s with _ | ⟨_ | _, _⟩ <;> rfl)

def lookup (f : FrameId) (name : String) : Eval Value := fun s =>
  match s.lookup f name with
  | some v => some (.ok v, s)
  | none => some (.error (.unbound name), s)

def define (f : FrameId) (name : String) (v : Value) : Eval Unit := fun s =>
  some (.ok (), s.define f name v)

def assign (f : FrameId) (name : String) (v : Value) : Eval Unit := fun s =>
  some (s.assign f name v)

/-- Makes a frame inside `outer` that holds the given bindings, later ones over earlier ones. -/
def enter (outer : FrameId) (bindings : List (String × Value)) : Eval FrameId := fun s =>
  some (.ok s.frames.size, s.addFrame ⟨Std.TreeMap.ofList bindings, some outer⟩)

def make (d : Draft) : Eval Value := fun s =>
  let (v, s) := s.make d
  some (.ok v, s)

/-- Makes a closure with an identity of its own. -/
def close (params : List String) (body : Expr) (f : FrameId) : Eval Value := fun s =>
  some (.ok (.closure ⟨s.fresh, params, body, f⟩), { s with fresh := s.fresh + 1 })

def accept (r : Except Error Reply) : Eval Value := fun s => some (s.accept r)

/-- The registered host function with the given number. -/
def host (index : Nat) : Eval HostFunction := fun s =>
  match s.hosts[index]? with
  | some run => some (.ok run, s)
  | none => some (.error (.internal .hostMissing), s)

/-- Names `form` in the errors of a computation that do not name a form yet. -/
def inForm (form : Expr) (m : Eval α) : Eval α := fun s =>
  match m s with
  | some (.error e, s) => some (.error (e.withContext form.text), s)
  | r => r

@[simp] theorem inForm_eq_none_iff {form : Expr} {m : Eval α} {s : State} :
    inForm form m s = none ↔ m s = none := by
  unfold inForm
  rcases m s with _ | ⟨e | a, t⟩ <;> simp

end Eval

end MiniLisp
