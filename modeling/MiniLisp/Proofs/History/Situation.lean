import MiniLisp.Proofs.Eval.CallTree
import MiniLisp.Eval.Outcome
import MiniLisp.Proofs.Builtin.HandsOn
import MiniLisp.Session

/-!
# Histories

A host program holds values and a state with frames in it. What it may do next is told by
`Advance`: make frames, change bindings, register procedures, run calls to their ends, or look at
the middle of a run. What it holds afterwards is what it held before and what it was answered. All
that can come about starts with nothing (`Reached`). Sessions are histories
(`Session.reached_after`).
-/

namespace MiniLisp

namespace Value

/-- The first value is found in the second one, at some depth of lists. -/
inductive Part (u : Value) : Value → Prop where
  | self : Part u u
  | item {id : Nat} {items : List Value} {v : Value} (hv : v ∈ items) (h : Part u v) :
      Part u (.list id items)

/-- The identity of a value that has one. -/
def id? : Value → Option Nat
  | list id _ => some id
  | closure c => some c.id
  | _ => none

theorem id?_of_isAtom {v : Value} (h : v.IsAtom) : v.id? = none := by
  cases v with
  | list => exact absurd h id
  | closure => exact absurd h id
  | _ => rfl

/-- Atoms are made of nothing else. -/
theorem Part.eq_of_isAtom {u v : Value} (h : u.Part v) (hv : v.IsAtom) : u = v := by
  cases h with
  | self => rfl
  | item => exact absurd hv id

/-- All lists and closures found in the value are in the set. -/
def Within (K : Set Value) (v : Value) : Prop := ∀ u i, u.Part v → u.id? = some i → u ∈ K

theorem hereditary_within (K : Set Value) : Hereditary (Within K) where
  atom := by
    intro v hv u i hu hi
    rw [hu.eq_of_isAtom hv, id?_of_isAtom hv] at hi
    cases hi
  item := fun h v hv u i hu => h u i (.item hv hu)

theorem Within.mono {K K' : Set Value} (h : K ⊆ K') {v : Value} (hv : v.Within K) : v.Within K' :=
  fun u i hu hi => h (hv u i hu hi)

end Value

/-- What a host program may come to: a state, and the values that it holds. -/
structure Situation where
  state : State
  hand : Set Value

/-- Besides atoms and new lists, the procedure hands out only what it is handed and what is at
hand. -/
def HandsOut (hand : Set Value) (run : HostFunction) : Prop :=
  ∀ args reply, run args = .ok reply →
    reply.draft.All (Value.Within {u | ∃ v, (v ∈ args ∨ v ∈ hand) ∧ u.Part v})

theorem HandsOn.handsOut {run : HostFunction} (h : HandsOn run) (hand : Set Value) :
    HandsOut hand run := by
  intro args reply hreply
  refine h _ (Value.hereditary_within _) args (fun v hv u i hu _ => ?_) reply hreply
  exact ⟨v, .inl hv, hu⟩

namespace Situation

/-- The call is made of a frame that exists and of values at hand. -/
def MayMake (x : Situation) : Call → Prop
  | .eval _ f _ => f < x.state.frames.size
  | .apply p args _ => p ∈ x.hand ∧ ∀ v ∈ args, v ∈ x.hand
  | .higher _ args _ => ∀ v ∈ args, v ∈ x.hand

/-- The value is found in a binding or at hand. -/
inductive Shows (x : Situation) (u : Value) : Prop where
  | bound {f : FrameId} {name : String} {v : Value} (hv : x.state.binding? f name = some v)
      (hu : u.Part v) : Shows x u
  | held {v : Value} (hv : v ∈ x.hand) (hu : u.Part v) : Shows x u

/-- A host program before it does anything. -/
def start : Situation := ⟨.empty, ∅⟩

end Situation

/-- The values that a call is made of. -/
def Call.values : Call → Set Value
  | eval _ _ _ => ∅
  | apply p args _ => {v | v = p ∨ v ∈ args}
  | higher _ args _ => {v | v ∈ args}

/-- What a host program does next. -/
inductive Advance (x : Situation) : Situation → Prop where
  | root : Advance x ⟨x.state.addFrame (.empty none), x.hand⟩
  | standard : Advance x ⟨x.state.addFrame .standard, x.hand⟩
  | child {f : FrameId} (hf : f < x.state.frames.size) :
      Advance x ⟨x.state.addFrame (.empty (some f)), x.hand⟩
  | atom {v : Value} (hv : v.IsAtom) : Advance x ⟨x.state, insert v x.hand⟩
  | item {id : Nat} {items : List Value} {v : Value} (hlist : .list id items ∈ x.hand)
      (hv : v ∈ items) : Advance x ⟨x.state, insert v x.hand⟩
  | lookup {f : FrameId} {name : String} {v : Value} (hv : x.state.lookup f name = some v) :
      Advance x ⟨x.state, insert v x.hand⟩
  | make {d : Draft} (hd : d.All (· ∈ x.hand)) :
      Advance x ⟨(x.state.make d).2, insert (x.state.make d).1 x.hand⟩
  | define (f : FrameId) (name : String) {v : Value} (hv : v ∈ x.hand) :
      Advance x ⟨x.state.define f name v, x.hand⟩
  | assign (f : FrameId) (name : String) {v : Value} (hv : v ∈ x.hand) :
      Advance x ⟨(x.state.assign f name v).2, x.hand⟩
  | teardown (f : FrameId) : Advance x ⟨x.state.teardown f, x.hand⟩
  | register (f : FrameId) (name : String) (arity : Arity) {run : HostFunction}
      (hrun : HandsOut x.hand run) : Advance x ⟨x.state.register f name arity run, x.hand⟩
  | output (text : String) : Advance x ⟨{ x.state with output := text }, x.hand⟩
  | call {c : Call} (hc : x.MayMake c) :
      Advance x ⟨(c.outcome x.state).2, x.hand ∪ {v | (c.outcome x.state).1 = .ok v}⟩
  | inside {c c' : Call} {s : State} (hc : x.MayMake c)
      (h : Call.Enters (c, x.state) (c', s)) : Advance x ⟨s, x.hand ∪ c'.values⟩

theorem Advance.of_outcome {x : Situation} {c : Call} {v : Value} {t : State} (hc : x.MayMake c)
    (h : c.outcome x.state = (.ok v, t)) : Advance x ⟨t, insert v x.hand⟩ := by
  have hstep := Advance.call hc
  rw [h] at hstep
  have hhand : x.hand ∪ {u | (Except.ok v : Except Error Value) = .ok u} = insert v x.hand := by
    ext u
    rw [Set.mem_union, Set.mem_insert_iff, or_comm, Set.mem_ofPred_eq, Except.ok.injEq, eq_comm]
  rwa [hhand] at hstep

/-- From the first situation a host program may come to the second. -/
abbrev History : Situation → Situation → Prop := Relation.ReflTransGen Advance

/-- All situations that a host program may come to. -/
def Reached (x : Situation) : Prop := History .start x

theorem Reached.trans {x y : Situation} (hx : Reached x) (hxy : History x y) : Reached y :=
  Relation.ReflTransGen.trans hx hxy

end MiniLisp
