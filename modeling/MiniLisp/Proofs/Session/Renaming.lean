import MiniLisp.Session
import MiniLisp.Proofs.Likeness.Host
import MiniLisp.Proofs.Scope.Isolation
import MiniLisp.Proofs.Scope.Visible

/-!
# Sessions up to numbers

What a session answers does not depend on which numbers its frames, identities and host functions
have. A link relates them to the numbers in another state; performing the same step in both states
gives answers that differ in numbers only, and a link for the states it leaves
(`Link.perform_alike`).
-/

namespace MiniLisp

section Anonymous

/-- The operation without the number that a host function has. -/
def Operation.anonymous : Operation → Operation
  | primitive p => primitive p
  | host _ => host 0
  | higher h => higher h

namespace Value

mutual

/-- The value without all identities and numbers of frames and host functions. -/
def anonymous : Value → Value
  | int n => int n
  | float x => float x
  | symbol name => symbol name
  | bool b => bool b
  | list _ items => list 0 (anonymousAll items)
  | builtin b => builtin { b with operation := b.operation.anonymous }
  | closure c => closure { c with id := 0, frame := 0 }
  | unspecified => unspecified

def anonymousAll : List Value → List Value
  | [] => []
  | v :: rest => anonymous v :: anonymousAll rest

end

@[simp] theorem anonymousAll_eq_map (items : List Value) :
    anonymousAll items = items.map anonymous := by
  induction items with
  | nil => rfl
  | cons v rest ih => simp [anonymousAll, ih]

theorem Alike.anonymous_eq {L : Likeness} {st : Stage} {v w : Value} (h : v.Alike L st w) :
    v.anonymous = w.anonymous := by
  induction h with
  | list hid hlength _ ih =>
    simp only [anonymous, anonymousAll_eq_map]
    rw [map_eq_of_zip hlength ih]
  | builtin hid ho => cases ho <;> rfl
  | _ => rfl

end Value

namespace Response

/-- What can be seen of a response by a host program that sees no numbers. -/
def anonymous : Response → Response
  | value v => value v.anonymous
  | done => done
  | bindings entries => bindings (entries.map fun b => (b.1, b.2.anonymous))
  | text description => text description
  | frame index => frame index

inductive Alike (L : Likeness) (st : Stage) : Response → Response → Prop where
  | value {v w : Value} (h : v.Alike L st w) : Alike L st (.value v) (.value w)
  | done : Alike L st .done .done
  | bindings {bs cs : List (String × Value)}
      (h : List.Forall₂ (fun b c => b.1 = c.1 ∧ b.2.Alike L st c.2) bs cs) :
      Alike L st (.bindings bs) (.bindings cs)
  | text (description : String) : Alike L st (.text description) (.text description)
  | frame (index : Nat) : Alike L st (.frame index) (.frame index)

theorem Alike.anonymous_eq {L : Likeness} {st : Stage} {a b : Response} (h : a.Alike L st b) :
    a.anonymous = b.anonymous := by
  cases h with
  | value h => exact congrArg Response.value h.anonymous_eq
  | bindings h =>
    refine congrArg Response.bindings ?_
    induction h with
    | nil => rfl
    | cons hpq _ ih => rw [List.map_cons, List.map_cons, ih, hpq.1, hpq.2.anonymous_eq]
  | _ => rfl

end Response

end Anonymous

/-- The likeness of runs that differ in numbers only. -/
def Likeness.renaming (frame id : Pairing) (host : Nat → Nat → Prop) : Likeness :=
  .ofCode frame id host (fun _ => True) fun _ _ => trivial

/-- A host function that answers alike to arguments that differ in numbers only. -/
def Uniform (run : HostFunction) : Prop :=
  ∀ frame id host, (Likeness.renaming frame id host).Answers run run

theorem uniform_entry {kind : String} {entry : Entry} (h : Host.entry? kind = some entry) :
    Uniform entry.run :=
  fun _ _ _ => Host.answers_entry h _

/-- Which frames, identities and host functions of two states belong together. -/
structure Link (s t : State) where
  frame : Pairing
  id : Pairing
  host : Nat → Nat → Prop
  frameStarts : frame.Starts s.frames.size t.frames.size
  idStarts : id.Starts s.fresh t.fresh
  frames {f g : FrameId} : frame.old f g →
    Option.Rel (Frame.Alike (.renaming frame id host) s.stage) s.frames[f]? t.frames[g]?
  hosts {i j : Nat} : host i j →
    ∃ run, s.hosts[i]? = some run ∧ t.hosts[j]? = some run ∧ Uniform run

namespace Link

variable {s t : State}

/-- What belongs together under the link. -/
abbrev likeness (k : Link s t) : Likeness := .renaming k.frame k.id k.host

theorem states (k : Link s t) (houtput : s.output = t.output) : k.likeness.States s t where
  frames := k.frameStarts.inStep
  ids := k.idStarts.inStep
  frame hf := k.frames (k.frameStarts.upto_iff.mp hf)
  host hi := by
    obtain ⟨run, hleft, hright, huniform⟩ := k.hosts hi
    rw [hleft, hright]
    exact .some (huniform _ _ _)
  output := houtput

theorem frame_grow {L L' : Likeness} {st st' : Stage} {a b : Frame} (h : a.Alike L st b)
    (hname : ∀ x, L.name x) (hgrows : L.Grows st L' st') : a.Alike L' st' b where
  outer := rel_imp h.outer fun _ _ h => hgrows.frame h
  binding _ := rel_imp (h.binding (hname _)) fun _ _ h => h.grow hgrows

/-- The link between the states that two runs come to that started from linked states. -/
def advance (k : Link s t) {s' t' : State} (hstates : k.likeness.States s' t')
    (hs : s'.hosts = s.hosts) (ht : t'.hosts = t.hosts) : Link s' t' where
  frame := k.frame.advance k.frameStarts hstates.frames
  id := k.id.advance k.idStarts hstates.ids
  host := k.host
  frameStarts := Pairing.starts_advance k.frameStarts hstates.frames
  idStarts := Pairing.starts_advance k.idStarts hstates.ids
  frames hf := rel_imp (hstates.frame hf) fun _ _ h =>
    frame_grow h (fun _ => trivial)
      ⟨fun hf => .inl hf, fun hid => .inl hid, fun h => h, fun h => h, fun h => h, fun h => h⟩
  hosts hi := by
    rw [hs, ht]
    exact k.hosts hi

/-- The same link where others have gone on in the left state meanwhile. -/
def delay (k : Link s t) {s' : State} (hsize : s.frames.size ≤ s'.frames.size)
    (hfresh : s.fresh ≤ s'.fresh)
    (hframes : ∀ {f g}, k.frame.old f g → s'.frames[f]? = s.frames[f]?)
    (hhosts : ∀ {i : Nat} {run : HostFunction}, s.hosts[i]? = some run →
      s'.hosts[i]? = some run) : Link s' t where
  frame := k.frame.delay k.frameStarts hsize
  id := k.id.delay k.idStarts hfresh
  host := k.host
  frameStarts := Pairing.starts_delay k.frameStarts hsize
  idStarts := Pairing.starts_delay k.idStarts hfresh
  frames {f g} hf := by
    rw [hframes hf]
    refine rel_imp (k.frames hf) fun _ _ h => frame_grow h (fun _ => trivial) ?_
    exact ⟨fun hf => .inl (k.frameStarts.upto_iff.mp hf),
      fun hid => .inl (k.idStarts.upto_iff.mp hid), fun h => h, fun h => h, fun h => h,
      fun h => h⟩
  hosts hi := by
    obtain ⟨run, hleft, hright, huniform⟩ := k.hosts hi
    exact ⟨run, hhosts hleft, hright, huniform⟩

/-- The link says nothing of what was printed. -/
def withOutput (k : Link s t) (a b : String) :
    Link { s with output := a } { t with output := b } :=
  ⟨k.frame, k.id, k.host, k.frameStarts, k.idStarts, k.frames, k.hosts⟩

end Link

end MiniLisp
