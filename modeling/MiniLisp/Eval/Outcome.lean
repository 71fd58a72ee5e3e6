import MiniLisp.Eval.Halting

/-!
# Evaluation

What a host program asks of the language: evaluating expressions and texts, applying procedures, and
running builtin procedures directly. Every request has an outcome and leaves a state, also when it
fails.
-/

namespace MiniLisp

abbrev Outcome (α : Type) : Type := Except Error α × State

namespace State

/-- Evaluates an expression in the frame `f`. -/
def eval (s : State) (f : FrameId) (e : Expr) : Outcome Value := (Call.eval e f 0).outcome s

/-- Applies a procedure to values. -/
def apply (s : State) (p : Value) (args : List Value) : Outcome Value :=
  (Call.apply p args 0).outcome s

/-- Runs a builtin procedure at the given depth without comparing the number of arguments with its
arity. -/
def invoke (s : State) (b : Builtin) (args : List Value) (depth : Nat) : Outcome Value :=
  match b.operation with
  | .primitive p => s.accept (p.entry.run args)
  | .host index =>
    match s.hosts[index]? with
    | some run => s.accept (run args)
    | none => (.error (.internal .hostMissing), s)
  | .higher h => (Call.higher h args depth).outcome s

/-- Reads a text and evaluates its first expression. -/
def evalText (s : State) (f : FrameId) (source : String) (strict : Bool) : Outcome Value :=
  match Expr.parse source strict with
  | .error e => (.error (.malformed e), s)
  | .ok e => s.eval f e

/-- Evaluates texts one after the other, up to the first that fails. -/
def evalTexts (s : State) (f : FrameId) : List String → Outcome (List Value)
  | [] => (.ok [], s)
  | source :: rest =>
    match s.evalText f source false with
    | (.error e, s) => (.error e, s)
    | (.ok v, s) =>
      match s.evalTexts f rest with
      | (.error e, s) => (.error e, s)
      | (.ok vs, s) => (.ok (v :: vs), s)

/-- A state that holds nothing but one standard frame, number 0. -/
def standard : State := empty.addFrame .standard

end State

end MiniLisp
