import MiniLisp.Eval.Outcome
import MiniLisp.Text.Quoted

/-!
# Sessions

A session is what a host program does with the language: it holds frames by number, evaluates texts
in them, reads and writes their bindings, and registers procedures of its own. A step that fails
leaves the effects it had, and the session goes on.
-/

namespace MiniLisp

/-- What a host program asks; `frame` counts the frames that it holds. -/
inductive Step where
  | eval (frame : Nat) (source : String) (strict : Bool)
  | lookup (frame : Nat) (name : String)
  | define (frame : Nat) (name source : String)
  | assign (frame : Nat) (name source : String)
  | apply (frame : Nat) (source : String) (args : List String)
  | bindings (frame : Nat)
  | names (frame : Nat)
  | teardown (frame : Nat)
  | root
  | standard
  | child (frame : Nat)
  | register (frame : Nat) (name : String) (entry : Entry)

inductive Response where
  | value (v : Value)
  | done
  | bindings (entries : List (String × Value))
  | text (description : String)
  | frame (index : Nat)

/-- Makes something else of the result. -/
def Outcome.map {α β : Type} (k : α → β) (o : Outcome α) : Outcome β := (o.1.map k, o.2)

structure Session where
  state : State
  /-- The frames that the host program holds. -/
  held : Array FrameId

namespace State

/-- A frame as a diagnostic text shows it: its own names alone, for its values may refer to it. -/
def describe (s : State) (f : FrameId) : String :=
  let inside := match s.frames[f]? with
    | some frame => frame.outer.isSome
    | none => false
  "Environment \x7b bindings: " ++ quotedList (s.names f) ++ ", has_outer: " ++ toString inside ++
    " \x7d"

/-- Evaluates a text in `f` and hands the value on. -/
def withValue (s : State) (f : FrameId) (source : String)
    (k : Value → State → Outcome Response) : Outcome Response :=
  match s.evalText f source false with
  | (.error e, s) => (.error e, s)
  | (.ok v, s) => k v s

/-- Evaluates texts in `f` and hands the values on. -/
def withValues (s : State) (f : FrameId) (sources : List String)
    (k : List Value → State → Outcome Response) : Outcome Response :=
  match s.evalTexts f sources with
  | (.error e, s) => (.error e, s)
  | (.ok vs, s) => k vs s

end State

namespace Session

/-- A session that holds one standard frame. -/
def start : Session := ⟨.standard, #[0]⟩

/-- The frame held under a number. -/
def frameAt (x : Session) (index : Nat) : FrameId := x.held[index]?.getD 0

/-- Makes a frame and holds it. -/
def hold (x : Session) (frame : Frame) : Except Error Response × Session :=
  (.ok (.frame x.held.size),
    ⟨x.state.addFrame frame, x.held.push x.state.frames.size⟩)

/-- Takes over an answer and the state that goes with it. -/
def leave (x : Session) (o : Outcome Response) : Except Error Response × Session :=
  (o.1, { x with state := o.2 })

/-- Performs a step. -/
def perform (x : Session) : Step → Except Error Response × Session
  | .eval frame source strict =>
    x.leave <| Outcome.map .value (x.state.evalText (x.frameAt frame) source strict)
  | .lookup frame name =>
    match x.state.lookup (x.frameAt frame) name with
    | some v => (.ok (.value v), x)
    | none => (.error (.unbound name), x)
  | .define frame name source =>
    x.leave <| x.state.withValue (x.frameAt frame) source fun v s =>
      (.ok .done, s.define (x.frameAt frame) name v)
  | .assign frame name source =>
    x.leave <| x.state.withValue (x.frameAt frame) source fun v s =>
      Outcome.map (fun _ => .done) (s.assign (x.frameAt frame) name v)
  | .apply frame source args =>
    x.leave <| x.state.withValue (x.frameAt frame) source fun p s =>
      s.withValues (x.frameAt frame) args fun vs s =>
        Outcome.map .value (s.apply p vs)
  | .bindings frame => (.ok (.bindings (x.state.visible (x.frameAt frame))), x)
  | .names frame => (.ok (.text (x.state.describe (x.frameAt frame))), x)
  | .teardown frame => x.leave (.ok .done, x.state.teardown (x.frameAt frame))
  | .root => x.hold (.empty none)
  | .standard => x.hold .standard
  | .child frame => x.hold (.empty (some (x.frameAt frame)))
  | .register frame name entry =>
    x.leave (.ok .done, x.state.register (x.frameAt frame) name entry.arity entry.run)

/-- Performs a step, and takes the text that it printed out of the session. -/
def step (x : Session) (step : Step) : (Except Error Response × String) × Session :=
  let (r, x) := perform { x with state.output := "" } step
  ((r, x.state.output), { x with state.output := "" })

/-- The answers to all steps in order. -/
def run (x : Session) : List Step → List (Except Error Response × String)
  | [] => []
  | first :: rest =>
    let (answer, x) := x.step first
    answer :: x.run rest

end Session

end MiniLisp
