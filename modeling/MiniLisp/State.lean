import MiniLisp.Value.Draft
import Std.Data.TreeMap

/-!
# Frames and state

A frame binds names to values and may lie inside an outer frame. The state of a computation holds
all frames that were ever made, so that closures can refer to theirs by number. A name means what
the first frame on the way outward says that binds it.
-/

namespace MiniLisp

abbrev Bindings : Type := Std.TreeMap String Value

structure Frame where
  bindings : Bindings
  outer : Option FrameId

/-- An empty frame. -/
def Frame.empty (outer : Option FrameId) : Frame := ⟨∅, outer⟩

/-- What a host program may register as a procedure: a function of the arguments alone. -/
abbrev HostFunction := List Value → Except Error Reply

structure State where
  frames : Array Frame
  /-- The first identity that no list and no closure has yet. -/
  fresh : Nat
  hosts : Array HostFunction
  /-- Everything printed so far. -/
  output : String

namespace State

def empty : State := ⟨#[], 0, #[], ""⟩

/-- What the frame `f` itself binds `name` to. -/
def binding? (s : State) (f : FrameId) (name : String) : Option Value :=
  s.frames[f]?.bind (·.bindings[name]?)

/-- The frames from `f` outward, at most `limit` of them. -/
def chainFrom (s : State) : Nat → FrameId → List FrameId
  | 0, _ => []
  | limit + 1, f =>
    match s.frames[f]? with
    | none => []
    | some frame =>
      match frame.outer with
      | none => [f]
      | some o => f :: s.chainFrom limit o

/-- The frames from `f` outward. A chain without repetition is no longer than there are frames. -/
def chain (s : State) (f : FrameId) : List FrameId := s.chainFrom s.frames.size f

def lookup (s : State) (f : FrameId) (name : String) : Option Value :=
  (s.chain f).findSome? (s.binding? · name)

/-- The first frame from `f` outward that binds `name`. -/
def owner? (s : State) (f : FrameId) (name : String) : Option FrameId :=
  (s.chain f).find? fun g => (s.binding? g name).isSome

/-- Binds `name` in the frame `f` itself. -/
def define (s : State) (f : FrameId) (name : String) (v : Value) : State :=
  { s with frames := s.frames.modify f fun frame =>
      { frame with bindings := frame.bindings.insert name v } }

theorem binding?_define (s : State) (f g : FrameId) (x y : String) (v : Value) :
    (s.define f x v).binding? g y =
      if f = g ∧ x = y then s.frames[f]?.map fun _ => v else s.binding? g y := by
  simp only [binding?, define, Array.getElem?_modify]
  by_cases hf : f = g
  · subst hf
    cases s.frames[f]? with
    | none => simp
    | some frame =>
      by_cases hx : x = y
      · simp [hx]
      · simp [hx, Std.TreeMap.getElem?_insert]
  · simp [hf]

/-- Rebinds `name` in the first frame that binds it; never makes a binding. -/
def assign (s : State) (f : FrameId) (name : String) (v : Value) : Except Error Unit × State :=
  match s.owner? f name with
  | some g => (.ok (), s.define g name v)
  | none => (.error (.unbound name), s)

/-- Removes all bindings of the frame `f` itself. -/
def teardown (s : State) (f : FrameId) : State :=
  { s with frames := s.frames.modify f fun frame => { frame with bindings := ∅ } }

theorem binding?_teardown (s : State) (f g : FrameId) (x : String) :
    (s.teardown f).binding? g x = if f = g then none else s.binding? g x := by
  simp only [binding?, teardown, Array.getElem?_modify]
  by_cases hf : f = g
  · subst hf
    cases s.frames[f]? <;> simp
  · simp [hf]

/-- The bindings of the frame `f` itself laid over those seen further outward. -/
def overlay (s : State) (f : FrameId) (seen : Bindings) : Bindings :=
  match s.frames[f]? with
  | none => seen
  | some frame => seen.insertMany frame.bindings.toList

/-- All names visible from `f` with their values, in ascending order; inner frames win. -/
def visible (s : State) (f : FrameId) : List (String × Value) :=
  ((s.chain f).foldr s.overlay (∅ : Bindings)).toList

/-- The names that the frame `f` itself binds, in ascending order. -/
def names (s : State) (f : FrameId) : List String :=
  match s.frames[f]? with
  | none => []
  | some frame => frame.bindings.keys

/-- Adds a frame; its number is the number of frames before. -/
def addFrame (s : State) (frame : Frame) : State := { s with frames := s.frames.push frame }

theorem binding?_addFrame {s : State} {g : FrameId} (hg : g < s.frames.size) (frame : Frame)
    (x : String) : (s.addFrame frame).binding? g x = s.binding? g x := by
  simp [binding?, addFrame, Array.getElem?_push, Nat.ne_of_lt hg]

/-- Adds to what was printed. -/
def print (s : State) (text : String) : State := { s with output := s.output ++ text }

/-- Gives a draft its identities. -/
def make (s : State) (d : Draft) : Value × State :=
  let (v, fresh) := d.finish s.fresh
  (v, { s with fresh })

/-- Takes over what a builtin procedure answers: its printed text and its result. -/
def accept (s : State) : Except Error Reply → Except Error Value × State
  | .error e => (.error e, s)
  | .ok reply =>
    let (v, s) := (s.print reply.printed).make reply.draft
    (.ok v, s)

/-- Registers a host function as a procedure called `name` in the frame `f`. -/
def register (s : State) (f : FrameId) (name : String) (arity : Arity) (run : HostFunction) :
    State :=
  { s with hosts := s.hosts.push run }.define f name
    (.builtin ⟨name, arity, .host s.hosts.size⟩)

end State

end MiniLisp
