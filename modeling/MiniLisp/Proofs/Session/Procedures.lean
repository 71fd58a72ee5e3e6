import MiniLisp.Proofs.History.Identity
import MiniLisp.Proofs.History.Session
import MiniLisp.Proofs.Scope.Handed
import MiniLisp.Proofs.Scope.Writes
import MiniLisp.Proofs.Session.Offered

/-!
# Identical procedures

Identical closures are the same closure, but builtin procedures are told apart by their names alone,
and a host program may give a name to several of them. A session finds no other procedures than its
registrations offer, and may come to find all of these at once (`Session.shows_shelves`). So
identical procedures are interchangeable in all sessions with some registrations if and only if
these give no name to two procedures (`identical_procedures_iff`).
-/

namespace MiniLisp

/-- What a builtin procedure does with its arguments. -/
inductive Implementation where
  | function (run : HostFunction)
  | higher (h : Higher)

/-- What the procedure does where these are the procedures of the host. -/
def Builtin.implementation? (hosts : List HostFunction) (b : Builtin) : Option Implementation :=
  match b.operation with
  | .primitive p => some (.function p.entry.run)
  | .host index => hosts[index]?.map .function
  | .higher h => some (.higher h)

/-- The same closure, or builtin procedures of the same arity that do the same. -/
inductive Value.SameProcedure (hosts : List HostFunction) : Value → Value → Prop where
  | closure (c : Closure) : SameProcedure hosts (.closure c) (.closure c)
  | builtin {a b : Builtin} {i : Implementation} (harity : a.arity = b.arity)
      (ha : a.implementation? hosts = some i) (hb : b.implementation? hosts = some i) :
      SameProcedure hosts (.builtin a) (.builtin b)

section Interchangeable

variable {hosts : List HostFunction} {s : State}

theorem Builtin.implementation?_of_prefix {hosts' : List HostFunction} (h : hosts <+: hosts')
    {b : Builtin} {i : Implementation} (hb : b.implementation? hosts = some i) :
    b.implementation? hosts' = some i := by
  obtain ⟨later, rfl⟩ := h
  obtain ⟨id, arity, operation⟩ := b
  cases operation with
  | host index =>
    simp only [implementation?] at hb ⊢
    obtain ⟨run, hrun, rfl⟩ := Option.map_eq_some_iff.mp hb
    rw [List.getElem?_append_left (List.getElem?_eq_some_iff.mp hrun).1, hrun, Option.map_some]
  | _ => exact hb

/-- What a builtin procedure does is told by its implementation. -/
def Implementation.invoke (s : State) (args : List Value) (depth : Nat) :
    Implementation → Outcome Value
  | function run => s.accept (run args)
  | higher h => (Call.higher h args depth).outcome s

theorem Builtin.invoke_eq {b : Builtin} {i : Implementation}
    (hb : b.implementation? s.hosts.toList = some i) (args : List Value) (depth : Nat) :
    s.invoke b args depth = i.invoke s args depth := by
  obtain ⟨id, arity, operation⟩ := b
  cases operation with
  | host index =>
    obtain ⟨run, hrun, rfl⟩ := Option.map_eq_some_iff.mp hb
    rw [Array.getElem?_toList] at hrun
    simp only [State.invoke, hrun]
    rfl
  | _ =>
    cases hb
    rfl

/-- Applying the same procedure to the same arguments has the same result and effects, wherever all
procedures of the host are there. -/
theorem Value.SameProcedure.outcome_eq {u v : Value} (h : u.SameProcedure hosts v)
    (hs : hosts <+: s.hosts.toList) (args : List Value) (depth : Nat) :
    (Call.apply u args depth).outcome s = (Call.apply v args depth).outcome s := by
  cases h with
  | closure c => rfl
  | @builtin a b i harity ha hb =>
    rw [Call.outcome_builtin, Call.outcome_builtin, harity,
      a.invoke_eq (Builtin.implementation?_of_prefix hs ha),
      b.invoke_eq (Builtin.implementation?_of_prefix hs hb)]

end Interchangeable

/-- Where a session may be that has performed its steps: between two steps, or in the evaluation of
an expression in a frame that it holds, where a call is made or where the evaluation has ended. -/
inductive Session.Point (x : Session) : Situation → Prop where
  | between : Point x ⟨x.state, ∅⟩
  | inside {e : Expr} {index : Nat} {c : Call} {s : State}
      (h : Call.Enters (.eval e (x.frameAt index) 0, x.state) (c, s)) : Point x ⟨s, c.values⟩
  | ended {e : Expr} {index : Nat} {v : Value} {t : State}
      (h : x.state.eval (x.frameAt index) e = (.ok v, t)) : Point x ⟨t, {v}⟩

theorem Situation.Shows.of_subset {s : State} {hand hand' : Set Value} {u : Value}
    (h : Situation.Shows ⟨s, hand⟩ u) (hsubset : hand ⊆ hand') : Situation.Shows ⟨s, hand'⟩ u := by
  cases h with
  | bound hv hu => exact .bound hv hu
  | held hv hu => exact .held (hsubset hv) hu

namespace Session.Point

variable {R : List Registration} {x : Session} {y : Situation}

/-- All builtin procedures that are found there are offered. -/
theorem offers (hy : x.Point y) (h : x.state.Offers R) (hR : HandOver R) :
    y.state.Offers R ∧ ∀ b, y.Shows (.builtin b) → Offers R b := by
  have hshown {s : State} {hand : Set Value} (hs : s.Offers R) (hhand : ∀ v ∈ hand, v.Offered R) :
      s.Offers R ∧ ∀ b, Situation.Shows ⟨s, hand⟩ (.builtin b) → Offers R b := by
    refine ⟨hs, fun b hb => ?_⟩
    cases hb with
    | bound hv hu => exact hs.bound _ _ _ hv b hu
    | held hv hu => exact hhand _ hv b hu
  cases hy with
  | between => exact hshown h nofun
  | @inside e index c s henters =>
    obtain ⟨hs, hready⟩ := h.of_enters hR (c := .eval e _ 0) trivial henters
    refine hshown hs fun v hv => ?_
    cases c with
    | eval => exact absurd hv (Set.notMem_empty v)
    | apply p args depth =>
      rcases hv with rfl | hv
      · exact hready.1
      · exact hready.2 v hv
    | higher => exact hready v hv
  | @ended e index v t hends =>
    obtain ⟨hs, hvalue, -⟩ := h.outcome hR (c := .eval e (x.frameAt index) 0) trivial
    rw [State.eval] at hends
    rw [hends] at hs hvalue
    exact hshown hs fun u hu => hvalue u (congrArg _ (Set.mem_singleton_iff.mp hu).symm)

/-- A host program may come there, holding what is at hand there and more. -/
theorem reached (hy : x.Point y) {hand : Set Value} (h : x.Reached hand) :
    ∃ hand', y.hand ⊆ hand' ∧ MiniLisp.Reached ⟨y.state, hand'⟩ := by
  cases hy with
  | between => exact ⟨hand, Set.empty_subset hand, h.situation⟩
  | @inside e index c s henters =>
    exact ⟨_, Set.subset_union_right,
      h.situation.tail (.inside (c := .eval e _ 0) (h.frames index) henters)⟩
  | @ended e index v t hends =>
    exact ⟨_, Set.singleton_subset_iff.mpr (Set.mem_insert v hand),
      h.situation.tail (.of_outcome (c := .eval e _ 0) (h.frames index) hends)⟩

end Session.Point

namespace Session

variable {R : List Registration} {x : Session}

/-- Makes each registration in a frame of its own, the first of which has the given number. -/
def shelves : Nat → List Registration → List Step
  | _, [] => []
  | index, (name, entry) :: R => .root :: .register index name entry :: shelves (index + 1) R

@[simp] theorem registrations_shelves (index : Nat) (R : List Registration) :
    registrations (shelves index R) = R := by
  induction R generalizing index with
  | nil => rfl
  | cons r R ih => exact congrArg (r :: ·) (ih (index + 1))

/-- Registers a procedure in a frame made for it. -/
def shelve (x : Session) (r : Registration) : Session where
  state :=
    let made := x.state.addFrame (.empty none)
    { made.register x.state.frames.size r.1 r.2.arity r.2.run with output := "" }
  held := x.held.push x.state.frames.size

section Shelve

variable (x : Session) (r : Registration)

theorem after_shelve : x.after [.root, .register x.held.size r.1 r.2] = x.shelve r := by
  simp [after, step, perform, leave, hold, frameAt, shelve, State.addFrame, State.register,
    State.define]

theorem size_frames_shelve : (x.shelve r).state.frames.size = x.state.frames.size + 1 := by
  simp [shelve, State.register, State.define, State.addFrame]

theorem size_hosts_shelve : (x.shelve r).state.hosts.size = x.state.hosts.size + 1 :=
  Array.size_push _

theorem binding?_shelve_new : (x.shelve r).state.binding? x.state.frames.size r.1 =
    some (.builtin ⟨r.1, r.2.arity, .host x.state.hosts.size⟩) := by
  change State.binding? (State.define _ _ _ _) _ _ = _
  rw [State.binding?_define, if_pos ⟨rfl, rfl⟩]
  simp [State.addFrame]

theorem binding?_shelve {g : FrameId} (hg : g < x.state.frames.size) (name : String) :
    (x.shelve r).state.binding? g name = x.state.binding? g name := by
  change State.binding? (State.define _ _ _ _) _ _ = _
  rw [State.binding?_define, if_neg fun h => hg.ne' h.1]
  exact State.binding?_addFrame hg _ name

end Shelve

/-- The procedures registered in frames of their own are all there afterwards, and no other frame
has changed. -/
theorem after_shelves (R : List Registration) (x : Session) :
    (∀ g < x.state.frames.size, ∀ name,
      (x.after (shelves x.held.size R)).state.binding? g name = x.state.binding? g name) ∧
    ∀ i name entry, R[i]? = some (name, entry) →
      (x.after (shelves x.held.size R)).state.binding? (x.state.frames.size + i) name =
        some (.builtin ⟨name, entry.arity, .host (x.state.hosts.size + i)⟩) := by
  induction R generalizing x with
  | nil => exact ⟨fun _ _ _ => rfl, nofun⟩
  | cons r R ih =>
    have hafter : x.after (shelves x.held.size (r :: R)) =
        (x.shelve r).after (shelves (x.shelve r).held.size R) := by
      rw [shelve, Array.size_push, ← shelve, ← after_shelve]
      rfl
    obtain ⟨hold, hnew⟩ := ih (x.shelve r)
    rw [size_frames_shelve] at hold hnew
    rw [size_hosts_shelve] at hnew
    rw [hafter]
    refine ⟨fun g hg name => ?_, fun i name entry hi => ?_⟩
    · rw [hold g (Nat.lt_succ_of_lt hg), binding?_shelve x r hg]
    · cases i with
      | zero =>
        cases hi
        exact (hold _ (Nat.lt_succ_self _) name).trans (binding?_shelve_new x (name, entry))
      | succ i =>
        simpa [Nat.add_assoc, Nat.add_comm 1] using hnew i name entry hi

end Session

/-- No name is offered for two procedures. -/
def Unambiguous (R : List Registration) : Prop :=
  ∀ a b, Offers R a → Offers R b → a.id = b.id →
    (Value.builtin a).SameProcedure (R.map fun r => r.2.run) (.builtin b)

/-- Procedures that are identical there have the same arity and do the same, so that applying them
to the same arguments makes no difference wherever the procedures of the host are there. -/
def Situation.IdenticalInterchangeable (y : Situation) : Prop :=
  ∀ u v, y.Shows u → y.Shows v → u.isProcedure → v.isProcedure → u.identical v = true →
    u.SameProcedure y.state.hosts.toList v ∧
      ∀ s : State, y.state.hosts.toList <+: s.hosts.toList → ∀ args depth,
        (Call.apply u args depth).outcome s = (Call.apply v args depth).outcome s

section Identical

variable {R : List Registration}

theorem Offers.same_self {b : Builtin} (h : Offers R b) :
    (Value.builtin b).SameProcedure (R.map fun r => r.2.run) (.builtin b) := by
  have himplementation : ∃ i, b.implementation? (R.map fun r => r.2.run) = some i := by
    cases h with
    | language h =>
      rcases List.mem_append.mp h with h | h
      · obtain ⟨p, -, rfl⟩ := List.mem_map.mp h
        exact ⟨_, rfl⟩
      · obtain ⟨higher, -, rfl⟩ := List.mem_map.mp h
        exact ⟨_, rfl⟩
    | @registered index name entry h =>
      exact ⟨.function entry.run, by simp [Builtin.implementation?, h]⟩
  obtain ⟨i, hi⟩ := himplementation
  exact .builtin rfl hi hi

/-- Names that are all different stand for one procedure each. -/
theorem unambiguous_of_nodup (h : (builtins.map Builtin.id ++ R.map Prod.fst).Nodup) :
    Unambiguous R := by
  rw [List.nodup_append] at h
  obtain ⟨hlanguage, hregistered, hapart⟩ := h
  have hname {index : Nat} {name : String} {entry : Entry}
      (hr : R[index]? = some (name, entry)) : name ∈ R.map Prod.fst :=
    List.mem_map_of_mem (List.mem_of_getElem? hr)
  have hne {a : Builtin} {index : Nat} {name : String} {entry : Entry} (ha : a ∈ builtins)
      (hr : R[index]? = some (name, entry)) : a.id ≠ name :=
    hapart a.id (List.mem_map_of_mem ha) name (hname hr)
  intro a b ha hb hid
  suffices heq : a = b from heq ▸ ha.same_self
  cases ha with
  | language ha =>
    cases hb with
    | language hb => exact List.inj_on_of_nodup_map hlanguage ha hb hid
    | registered hb => exact absurd hid (hne ha hb)
  | @registered i name entry ha =>
    cases hb with
    | language hb => exact absurd hid.symm (hne hb ha)
    | @registered j name' entry' hb =>
      obtain rfl : name = name' := hid
      have hi : (R.map Prod.fst)[i]? = some name := by rw [List.getElem?_map, ha]; rfl
      have hj : (R.map Prod.fst)[j]? = some name := by rw [List.getElem?_map, hb]; rfl
      obtain rfl : i = j := by
        obtain ⟨hlt, -⟩ := List.getElem?_eq_some_iff.mp hi
        exact (List.getElem?_inj hlt hregistered).mp (hi.trans hj.symm)
      cases ha.symm.trans hb
      rfl

theorem Session.handsOn_of_handOver {steps : List Step} (h : HandOver (registrations steps)) :
    ∀ step ∈ steps, step.HandsOn := by
  intro step hstep
  cases step with
  | register frame name entry =>
    exact (h (name, entry) (List.mem_flatMap.mpr ⟨_, hstep, .head _⟩)).handsOn
  | _ => trivial

/-- Closures that are identical are the same closure. -/
theorem Session.Point.closure_eq {steps : List Step} (h : HandOver (registrations steps))
    {y : Situation} (hy : (start.after steps).Point y) {c d : Closure} (hc : y.Shows (.closure c))
    (hd : y.Shows (.closure d)) (hidentical : (Value.closure c).identical (.closure d) = true) :
    c = d := by
  obtain ⟨hand, hreached⟩ := Session.reached_after steps (Session.handsOn_of_handOver h)
  obtain ⟨hand', hsubset, hsituation⟩ := hy.reached hreached
  have hid : c.id = d.id := beq_iff_eq.mp hidentical
  exact Value.closure.inj (hsituation.eq_of_id .refl (hc.of_subset hsubset) (hd.of_subset hsubset)
    rfl (congrArg some hid.symm))

/-- All procedures offered by registrations are found in some session at the same time. -/
theorem Session.shows_shelves {b : Builtin} (h : Offers R b) :
    Situation.Shows ⟨(start.after (shelves 1 R)).state, ∅⟩ (.builtin b) := by
  obtain ⟨hold, hnew⟩ := after_shelves R start
  cases h with
  | language h =>
    exact .bound ((hold 0 Nat.one_pos b.id).trans (Frame.getElem?_standard h)) .self
  | @registered index name entry h =>
    have hbound := hnew index name entry h
    rw [show start.state.hosts.size = 0 from rfl, Nat.zero_add] at hbound
    exact .bound hbound .self

/-- In all sessions with the given registrations, identical closures are the same closure. Identical
procedures are interchangeable in all of them if and only if no name is offered for two
procedures. -/
theorem identical_procedures_iff (hR : HandOver R) :
    (∀ steps, Session.registrations steps = R → ∀ y, (Session.start.after steps).Point y →
      ∀ c d, y.Shows (.closure c) → y.Shows (.closure d) →
        (Value.closure c).identical (.closure d) = true → c = d) ∧
    ((∀ steps, Session.registrations steps = R → ∀ y, (Session.start.after steps).Point y →
      y.IdenticalInterchangeable) ↔ Unambiguous R) := by
  have hoffers {steps : List Step} (hsteps : Session.registrations steps = R) :
      (Session.start.after steps).state.Offers R := by
    subst hsteps
    exact Session.offers_after Session.offers_start steps hR
  refine ⟨fun steps hsteps y hy c d => hy.closure_eq (hsteps ▸ hR), fun hall a b ha hb hid => ?_,
    fun hone steps hsteps y hy u v hu hv hup hvp hidentical => ?_⟩
  · have hsteps := Session.registrations_shelves 1 R
    have hidentical : (Value.builtin a).identical (.builtin b) = true := beq_iff_eq.mpr hid
    obtain ⟨hsame, -⟩ := hall _ hsteps _ .between _ _ (Session.shows_shelves ha)
      (Session.shows_shelves hb) rfl rfl hidentical
    rwa [(hoffers hsteps).hosts] at hsame
  · obtain ⟨hstate, hoffered⟩ := hy.offers (hoffers hsteps) hR
    have hsame : u.SameProcedure y.state.hosts.toList v := by
      cases u with
      | builtin a =>
        cases v with
        | builtin b =>
          rw [hstate.hosts]
          exact hone a b (hoffered a hu) (hoffered b hv) (beq_iff_eq.mp hidentical)
        | _ => cases hidentical
      | closure c =>
        cases v with
        | closure d =>
          obtain rfl := hy.closure_eq (hsteps ▸ hR) hu hv hidentical
          exact .closure c
        | _ => cases hidentical
      | _ => cases hup
    exact ⟨hsame, fun s hs args depth => hsame.outcome_eq hs args depth⟩

/-- A name of its own for a procedure of the host. -/
theorem identical_procedures_iff_second : ∃ entry, Host.entry? "second" = some entry ∧
    HandOver [("second", entry)] ∧
    ∀ steps, Session.registrations steps = [("second", entry)] →
      ∀ y, (Session.start.after steps).Point y → y.IdenticalInterchangeable := by
  refine ⟨_, rfl, ?_⟩
  have hhand : HandOver [("second", _)] := List.forall_mem_singleton.mpr
    (Host.handsOver_entry (rfl : Host.entry? "second" = _))
  refine ⟨hhand, (identical_procedures_iff hhand).2.mpr (unambiguous_of_nodup ?_)⟩
  decide +kernel

theorem Session.step_define {x : Session} (index : Nat) (name : String) {source : String}
    {v : Value} {s : State}
    (h : State.evalText { x.state with output := "" } (x.frameAt index) source false = (.ok v, s)) :
    (x.step (.define index name source)).2 =
      { x with state := { s.define (x.frameAt index) name v with output := "" } } := by
  simp only [frameAt] at h
  simp only [step, perform, State.withValue, frameAt, h, leave]

/-- A primitive is bound to another name, and its own name is given to a procedure of the host. -/
def Session.rebinding (entry : Entry) : List Step := [.define 0 "old" "+", .register 0 "+" entry]

theorem Session.state_after_rebinding (entry : Entry) : (start.after (rebinding entry)).state =
    (State.standard.define 0 "old" (.builtin Primitive.add.builtin)).register 0 "+" entry.arity
      entry.run := by
  have hplus : State.standard.evalText 0 "+" false =
      (.ok (.builtin Primitive.add.builtin), .standard) := by
    have hparse : Expr.parse "+" false = .ok (.symbol "+") := rfl
    rw [State.evalText, hparse]
    exact Call.ends_eq_iff.mp
      (Call.ends_symbol (by decide) (State.knowsPrimitives_standard .empty .add))
  have hdefine : (start.step (.define 0 "old" "+")).2 =
      ⟨State.standard.define 0 "old" (.builtin Primitive.add.builtin), #[0]⟩ :=
    step_define 0 "old" (x := .start) hplus
  change ((start.step (.define 0 "old" "+")).2.step (.register 0 "+" entry)).2.state = _
  rw [hdefine]
  rfl

theorem Session.binding?_rebinding (entry : Entry) :
    (start.after (rebinding entry)).state.binding? 0 "old" =
        some (.builtin Primitive.add.builtin) ∧
      (start.after (rebinding entry)).state.binding? 0 "+" =
        some (.builtin ⟨"+", entry.arity, .host 0⟩) := by
  rw [state_after_rebinding, State.register, State.binding?_define, State.binding?_define,
    if_neg (by decide), if_pos ⟨rfl, rfl⟩]
  refine ⟨?_, rfl⟩
  change State.binding? (State.define _ _ _ _) _ _ = _
  rw [State.binding?_define, if_pos ⟨rfl, rfl⟩]
  rfl

/-- Two procedures that are identical and differ: the sum of the arguments, and the second one. -/
theorem identical_procedures_differ : ∃ entry, Host.entry? "second" = some entry ∧
    HandOver (Session.registrations (Session.rebinding entry)) ∧
    ∃ y u v, (Session.start.after (Session.rebinding entry)).Point y ∧ y.Shows u ∧ y.Shows v ∧
      u.isProcedure ∧ v.isProcedure ∧ u.identical v = true ∧
      (y.state.apply u [.int 1, .int 2]).1 = .ok (.int 3) ∧
      (y.state.apply v [.int 1, .int 2]).1 = .ok (.int 2) := by
  refine ⟨_, rfl,
    List.forall_mem_singleton.mpr (Host.handsOver_entry (rfl : Host.entry? "second" = _)),
    _, .builtin Primitive.add.builtin, .builtin ⟨"+", .exactly 2, .host 0⟩, .between, ?_, ?_,
    rfl, rfl, rfl, ?_, ?_⟩
  · exact .bound (Session.binding?_rebinding _).1 .self
  · exact .bound (Session.binding?_rebinding _).2 .self
  · rw [State.apply, Call.ends_eq_iff.mp (Call.ends_builtin .add rfl)]
    rfl
  · rw [State.apply, Call.outcome_builtin, Session.state_after_rebinding]
    rfl

end Identical

end MiniLisp
