import MiniLisp.Proofs.History.Known
import MiniLisp.Proofs.Likeness.Besides
import MiniLisp.Proofs.Scope.Handed

/-!
# Names that are not mentioned

A program that does not mention a name, and comes to no closure that does, goes the same way
whatever the name means in any frame: it neither looks it up nor binds it
(`unmentioned_names_do_not_matter`).
-/

namespace MiniLisp

variable {s t : State} {x y : String} {f g : FrameId} {e : Expr}

theorem Value.Holds.part {v : Value} {c : Closure} (h : v.Holds c) : (closure c).Part v := by
  induction h with
  | self => exact .self
  | item hv _ ih => exact .item hv ih

namespace State

section Reachability

/-- The frames that a program evaluated in `f` may come to without passing through a binding of
`x`. -/
inductive ReachableBesides (s : State) (x : String) (f : FrameId) : FrameId → Prop where
  | self : ReachableBesides s x f f
  | outer {g o : FrameId} (h : ReachableBesides s x f g) (ho : s.LiesIn g o) :
      ReachableBesides s x f o
  | captured {g : FrameId} {y : String} {v : Value} {c : Closure} (h : ReachableBesides s x f g)
      (hy : y ≠ x) (hv : s.binding? g y = some v) (hc : v.Holds c) : ReachableBesides s x f c.frame

/-- The closures that a program evaluated in `f` may come to without passing through a binding of
`x`. -/
inductive ReachableClosureBesides (s : State) (x : String) (f : FrameId) : Closure → Prop where
  | bound {g : FrameId} {y : String} {v : Value} {c : Closure} (h : s.ReachableBesides x f g)
      (hy : y ≠ x) (hv : s.binding? g y = some v) (hc : v.Holds c) :
      ReachableClosureBesides s x f c

/-- The name occurs neither in the expression nor in a closure that a program may come to without
passing through a binding of that name. -/
structure Unmentioned (s : State) (x : String) (f : FrameId) (e : Expr) : Prop where
  expr : ¬ e.Mentions x
  closure {c : Closure} (hc : s.ReachableClosureBesides x f c) :
    x ∉ c.params ∧ ¬ c.body.Mentions x

/-- All frames that lie around frames, and all identities and frames in bound values, have been
given out. -/
structure Numbered (s : State) : Prop where
  outer {g o : FrameId} (ho : s.LiesIn g o) : o < s.frames.size
  bound {g : FrameId} {y : String} {v : Value} (hv : s.binding? g y = some v) : v.Numbered s.stage

/-- The second state has all frames of the first, with the same bindings of names other than `x`.
Either both have counted equally far, or the second further; then all numbers in the first must have
been given out, and its procedures of the host must not depend on numbers. -/
structure DiffersAt (x : String) (s t : State) : Prop where
  frame {g : FrameId} {a : Frame} (ha : s.frames[g]? = some a) : ∃ b, t.frames[g]? = some b ∧
    b.outer = a.outer ∧ ∀ y, y ≠ x → b.bindings[y]? = a.bindings[y]?
  hosts : t.hosts = s.hosts
  output : t.output = s.output
  counted : s.stage = t.stage ∨
    s.stage ≤ t.stage ∧ s.Numbered ∧ ∀ run ∈ s.hosts, Uniform run

/-- All numbers have been given out in whatever state a host program comes to. -/
theorem numbered_of_reached {x : Situation} (hx : Reached x) : x.state.Numbered := by
  obtain ⟨w, hw⟩ := hx.known
  refine ⟨fun {g o} ho => ?_, fun {g y v} hv u i hu hi => ?_⟩
  · obtain ⟨frame, hframe, ho⟩ := ho
    have hlink : w.links[g]? = some (some o) := by
      rw [hw.links, getElem?_links, hframe, Option.map_some, ho]
    exact (hw.sound.outward g o hlink).trans (lt_size_of_getElem? hframe)
  · have hknown := hw.state.bound g y v hv u i hu hi
    refine ⟨hw.sound.used u hknown i hi, ?_⟩
    rintro c rfl
    have hframe := (hw.sound.closure c hknown).1
    rwa [hw.length_links] at hframe

theorem DiffersAt.refl (x : String) (s : State) : DiffersAt x s s :=
  ⟨fun {_ a} ha => ⟨a, ha, rfl, fun _ _ => rfl⟩, rfl, rfl, .inl rfl⟩

theorem Numbered.reachable_lt (hs : s.Numbered) (hf : f < s.frames.size)
    (h : s.ReachableBesides x f g) : g < s.frames.size := by
  cases h with
  | self => exact hf
  | outer _ ho => exact hs.outer ho
  | captured _ _ hv hc => exact (hs.bound hv _ _ hc.part rfl).2 _ rfl

namespace DiffersAt

theorem settled_frames (h : DiffersAt x s t) (hf : f < s.frames.size) :
    Settled (s.ReachableBesides x f) s.stage.frames t.stage.frames := by
  rcases h.counted with heq | ⟨hle, hs, -⟩
  · have hsize : s.frames.size = t.frames.size := congrArg Stage.frames heq
    exact ⟨Nat.le_of_eq hsize, fun _ => .inl hsize⟩
  · exact ⟨hle.1, fun hg => .inr (hs.reachable_lt hf hg)⟩

theorem settled_ids (h : DiffersAt x s t) :
    Settled (fun i => s.fresh = t.fresh ∨ i < s.fresh) s.stage.ids t.stage.ids := by
  refine ⟨?_, fun h => h⟩
  rcases h.counted with heq | ⟨hle, -, -⟩
  · exact Nat.le_of_eq (congrArg Stage.ids heq)
  · exact hle.2

/-- The frames of the first state are there in both. -/
theorem frame_rel (h : DiffersAt x s t) (hg : s.frames.size = t.frames.size ∨ g < s.frames.size) :
    Option.Rel (fun a b : Frame => b.outer = a.outer ∧
      ∀ y, y ≠ x → b.bindings[y]? = a.bindings[y]?) s.frames[g]? t.frames[g]? := by
  cases ha : s.frames[g]? with
  | some a =>
    obtain ⟨b, hb, hab⟩ := h.frame ha
    rw [hb]
    exact .some hab
  | none =>
    have hsize : s.frames.size ≤ g := by simpa using ha
    rcases hg with heq | hlt
    · rw [Array.getElem?_eq_none (heq ▸ hsize)]
      exact .none
    · exact absurd hlt (Nat.not_lt_of_le hsize)

theorem binding?_eq (h : DiffersAt x s t) (hg : s.frames.size = t.frames.size ∨ g < s.frames.size)
    (hy : y ≠ x) : t.binding? g y = s.binding? g y := by
  have hframe := h.frame_rel hg
  unfold binding?
  generalize s.frames[g]? = o at hframe ⊢
  generalize t.frames[g]? = o' at hframe ⊢
  cases hframe with
  | none => rfl
  | some hab => exact hab.2 y hy

/-- What a program may come to is there in both states. -/
theorem there (h : DiffersAt x s t) (hf : f < s.frames.size) (hg : s.ReachableBesides x f g) :
    s.frames.size = t.frames.size ∨ g < s.frames.size := (h.settled_frames hf).old hg

/-- The other bindings of the name lead nowhere. -/
theorem reachable (h : DiffersAt x s t) (hf : f < s.frames.size) (hg : t.ReachableBesides x f g) :
    s.ReachableBesides x f g := by
  -- Each step of the way was there before, for it goes on from a frame of the first state.
  induction hg with
  | self => exact .self
  | @outer g o _ ho ih =>
    obtain ⟨b, hb, hbo⟩ := ho
    have hframe := h.frame_rel (h.there hf ih)
    rw [hb] at hframe
    cases ha : s.frames[g]? with
    | none =>
      rw [ha] at hframe
      cases hframe
    | some a =>
      rw [ha] at hframe
      cases hframe with
      | some hab => exact .outer ih ⟨a, ha, hab.1 ▸ hbo⟩
  | captured _ hy hv hc ih =>
    rw [h.binding?_eq (h.there hf ih) hy] at hv
    exact .captured ih hy hv hc

theorem unmentioned (h : DiffersAt x s t) (hf : f < s.frames.size) (hs : s.Unmentioned x f e) :
    t.Unmentioned x f e := by
  refine ⟨hs.expr, fun {c} hc => ?_⟩
  obtain ⟨hg, hy, hv, hc⟩ := hc
  have hg := h.reachable hf hg
  rw [h.binding?_eq (h.there hf hg) hy] at hv
  exact hs.closure (.bound hg hy hv hc)

end DiffersAt

end Reachability

end State

namespace State.DiffersAt

/-- The likeness of two runs of a program in `f`. -/
abbrev likeness (h : DiffersAt x s t) (hf : f < s.frames.size) : Likeness :=
  .besides x (h.settled_frames hf) h.settled_ids

theorem answers (h : DiffersAt x s t) (hf : f < s.frames.size) {run : HostFunction}
    (hrun : run ∈ s.hosts) (hclosures : MakesNoClosures run) :
    (h.likeness hf).Answers run run := by
  rcases h.counted with heq | ⟨-, -, huniform⟩
  · exact answers_besides_of_eq heq (fun _ => .inl (congrArg Stage.ids heq)) hclosures
  · exact answers_besides hclosures (huniform run hrun _ _ _) id .rfl

/-- What is bound where a program comes to is alike in both states. -/
theorem alike_of_binding? (h : DiffersAt x s t) (hf : f < s.frames.size) (hs : s.Unmentioned x f e)
    (hg : s.ReachableBesides x f g) (hy : y ≠ x) {v : Value} (hv : s.binding? g y = some v) :
    v.Alike (h.likeness hf) s.stage v := by
  refine Value.alike_of_parts rfl (fun _ => trivial) (fun u i hu hi => ?_) fun c hc => ?_
  · refine .inl ⟨rfl, ?_⟩
    rcases h.counted with heq | ⟨-, hnumbered, -⟩
    · exact .inl (congrArg Stage.ids heq)
    · exact .inr (hnumbered.bound hv u i hu hi).1
  · obtain ⟨hparams, hbody⟩ := hs.closure (.bound hg hy hv hc)
    exact ⟨fun z hz hzx => hparams (hzx ▸ hz), hbody, .inl ⟨rfl, .captured hg hy hv hc⟩⟩

theorem states (h : DiffersAt x s t) (hf : f < s.frames.size) (hs : s.Unmentioned x f e)
    (hhosts : ∀ run ∈ s.hosts, MakesNoClosures run) : (h.likeness hf).States s t where
  frames := ⟨Nat.le_refl _, Nat.add_comm _ _⟩
  ids := ⟨Nat.le_refl _, Nat.add_comm _ _⟩
  frame {g g'} hg := by
    obtain ⟨rfl, hkind⟩ := (Pairing.upto_shifted_iff (h := h.settled_frames hf)).mp hg
    have hg : s.ReachableBesides x f g := by
      rcases hkind with hg | ⟨hge, hlt⟩
      · exact hg
      · exact absurd hlt (Nat.not_lt_of_le hge)
    rw [(h.settled_frames hf).shift_eq hg]
    have hrel := h.frame_rel (h.there hf hg)
    cases ha : s.frames[g]? with
    | none =>
      rw [ha] at hrel
      generalize t.frames[g]? = o at hrel ⊢
      cases hrel
      exact .none
    | some a =>
      obtain ⟨b, hb, houter, hbindings⟩ := h.frame ha
      rw [hb]
      refine .some ⟨?_, fun {y} hy => ?_⟩
      · rw [houter]
        cases ho : a.outer with
        | none => exact .none
        | some o => exact .some (.inl ⟨rfl, .outer hg ⟨a, ha, ho⟩⟩)
      · rw [hbindings y hy]
        cases hv : a.bindings[y]? with
        | none => exact .none
        | some v =>
          refine .some (h.alike_of_binding? hf hs hg hy ?_)
          rw [binding?, ha]
          exact hv
  host {i j} hi := by
    cases hi
    rw [h.hosts]
    cases hrun : s.hosts[i]? with
    | none => exact .none
    | some run =>
      have hmem := Array.mem_of_getElem? hrun
      exact .some (h.answers hf hmem (hhosts run hmem))
  output := h.output.symm

/-- The same program goes the same way from both states, whatever is watched. -/
theorem ends (h : DiffersAt x s t) (hf : f < s.frames.size) (hs : s.Unmentioned x f e)
    (hhosts : ∀ run ∈ s.hosts, MakesNoClosures run) (W : Watch (h.likeness hf)) (hholds : W.holds s)
    (htask : W.task e f) (depth : Nat) :
    W.Ends s t (Value.Alike (h.likeness hf)) ((Call.eval e f depth).outcome s)
      ((Call.eval e f depth).outcome t) :=
  Call.outcome_relates W (h.states hf hs hhosts) hholds (.eval hs.expr (.inl ⟨rfl, .self⟩) htask)

end State.DiffersAt

/-- A run leaves all bindings of a name that it does not mention as they are, and all frames that it
does not come to. -/
theorem State.Unmentioned.keeps (hs : s.Unmentioned x f e) (hf : f < s.frames.size)
    (hhosts : ∀ run ∈ s.hosts, MakesNoClosures run) (depth : Nat) :
    s.Untouched x ((Call.eval e f depth).outcome s).2 ∧
    ∀ g, g < s.frames.size → ¬ s.ReachableBesides x f g →
      ((Call.eval e f depth).outcome s).2.frames[g]? = s.frames[g]? := by
  have hrefl := State.DiffersAt.refl x s
  have huntouched := hrefl.ends hf hs hhosts (.untouched s) ⟨Nat.le_refl _, fun _ => rfl⟩ hs.expr
    depth
  have hothers := hrefl.ends hf hs hhosts (.others _ s (fun _ => trivial) rfl) (.refl _ s) trivial
    depth
  refine ⟨huntouched.watched, fun g hg hreach => ?_⟩
  exact hothers.watched.frame hg fun _ hold => hreach hold.2

/-- What was bound before keeps its numbers. -/
theorem State.DiffersAt.shifted_eq_self (h : DiffersAt x s t) {v : Value}
    (hv : s.binding? g y = some v) : v.shifted s.stage t.stage = v := by
  rcases h.counted with heq | ⟨-, hs, -⟩
  · rw [← heq, Value.shifted_self]
  · exact Value.shifted_eq_self (hs.bound hv)

/-- What frames bind after the two runs, where what is not come to stays as it is. -/
theorem State.DiffersAt.binding?_shift (h : DiffersAt x s t) (hf : f < s.frames.size)
    {u u' : State} (hstates : (h.likeness hf).States u u')
    (hleft : ∀ g, g < s.frames.size → ¬ s.ReachableBesides x f g → u.frames[g]? = s.frames[g]?)
    (hright : ∀ g, g < t.frames.size → ¬ t.ReachableBesides x f g → u'.frames[g]? = t.frames[g]?)
    (hy : y ≠ x) (g : FrameId) : u'.binding? (shift s.frames.size t.frames.size g) y =
      (u.binding? g y).map (Value.shifted s.stage t.stage) := by
  have hsettled := h.settled_frames hf
  obtain ⟨hstarted, hsize⟩ := Pairing.InStep.eq_add (h := hsettled) hstates.frames
  -- Either the runs come to the frame or have made it, or it is as it was, or there is none.
  by_cases hin : s.ReachableBesides x f g ∨ s.frames.size ≤ g ∧ g < u.frames.size
  · refine eq_map_shifted_of_rel Likeness.shifts_besides (hstates.binding ?_ hy)
    exact (Pairing.upto_shifted_iff (h := hsettled)).mpr ⟨rfl, hin⟩
  · obtain ⟨hreach, hold⟩ := not_or.mp hin
    by_cases hg : g < s.frames.size
    · have hgt : g < t.frames.size := Nat.lt_of_lt_of_le hg hsettled.le
      have hframe := hleft g hg hreach
      have hframe' := hright g hgt fun hreach' => hreach (h.reachable hf hreach')
      have hbinding : t.binding? g y = s.binding? g y := h.binding?_eq (.inr hg) hy
      rw [shift_of_lt hg, binding?, hframe', ← binding?, hbinding, binding?.eq_def u, hframe,
        ← binding?]
      cases hv : s.binding? g y with
      | none => rfl
      | some v => rw [Option.map_some, h.shifted_eq_self hv]
    · have hge : u.frames.size ≤ g := Nat.le_of_not_lt fun hlt => hold ⟨Nat.le_of_not_lt hg, hlt⟩
      have hge' : u'.frames.size ≤ g + (t.frames.size - s.frames.size) :=
        hsize ▸ Nat.add_le_add_right hge _
      rw [shift_of_le (Nat.le_of_not_lt hg), binding?, binding?, Array.getElem?_eq_none hge,
        Array.getElem?_eq_none hge']
      rfl

/-- What the two runs come to, however long they are. -/
theorem State.DiffersAt.same_up_to_numbers (h : DiffersAt x s t) (hf : f < s.frames.size)
    {W : Watch (h.likeness hf)} {out out' : Outcome Value}
    (hends : W.Ends s t (Value.Alike (h.likeness hf)) out out')
    (hleft : ∀ g, g < s.frames.size → ¬ s.ReachableBesides x f g →
      out.2.frames[g]? = s.frames[g]?)
    (hright : ∀ g, g < t.frames.size → ¬ t.ReachableBesides x f g →
      out'.2.frames[g]? = t.frames[g]?) :
    out'.1 = out.1.map (Value.shifted s.stage t.stage) ∧
    out'.2.output = out.2.output ∧
    (∀ g y, y ≠ x → out'.2.binding? (shift s.frames.size t.frames.size g) y =
      (out.2.binding? g y).map (Value.shifted s.stage t.stage)) ∧
    ∀ g, s.frames.size ≤ g → g < t.frames.size → out'.2.frames[g]? = t.frames[g]? := by
  refine ⟨hends.agrees.eq_shifted Likeness.shifts_besides, hends.states.output.symm,
    fun g y hy => h.binding?_shift hf hends.states hleft hright hy g, fun g hge hlt => ?_⟩
  refine hright g hlt fun hreach => ?_
  rcases h.there hf (h.reachable hf hreach) with heq | hold
  · omega
  · exact absurd hold (Nat.not_lt_of_le hge)

/-- A name that a program does not mention does not matter: with other bindings of it, in any
frames, the program ends in the same error or in the same value up to the numbers of what is new, it
prints the same, and it binds other names to the same values up to such numbers. It leaves the
bindings of the name as they are. -/
theorem unmentioned_names_do_not_matter (hf : f < s.frames.size) (hst : State.DiffersAt x s t)
    (hs : s.Unmentioned x f e) (hhosts : ∀ run ∈ s.hosts, MakesNoClosures run) (depth : Nat) :
    let out := (Call.eval e f depth).outcome s
    let out' := (Call.eval e f depth).outcome t
    (out'.1 = out.1.map (Value.shifted s.stage t.stage) ∧
      out'.2.output = out.2.output ∧
      (∀ g y, y ≠ x → out'.2.binding? (shift s.frames.size t.frames.size g) y =
        (out.2.binding? g y).map (Value.shifted s.stage t.stage)) ∧
      ∀ g, s.frames.size ≤ g → g < t.frames.size → out'.2.frames[g]? = t.frames[g]?) ∧
    ∀ g, out.2.binding? g x = s.binding? g x ∧ out'.2.binding? g x = t.binding? g x := by
  have hft : f < t.frames.size := Nat.lt_of_lt_of_le hf (hst.settled_frames hf).le
  have hends := hst.ends hf hs hhosts (.nothing _ fun _ _ => trivial) trivial trivial depth
  have hleft := hs.keeps hf hhosts depth
  have hright := (hst.unmentioned hf hs).keeps hft (hst.hosts ▸ hhosts) depth
  exact ⟨hst.same_up_to_numbers hf hends hleft.2 hright.2,
    fun g => ⟨hleft.1.binding g, hright.1.binding g⟩⟩

/-- A closure that makes a list. -/
def shelfClosure : Closure := ⟨0, ["a"], .list [.symbol "quote", .list []], 0⟩

/-- A frame that binds `keep` to a closure and `x` to something, and a procedure of the host. -/
def State.shelf (run : HostFunction) (v : Value) (fresh : Nat) : State where
  frames := #[⟨Std.TreeMap.ofList [("keep", .closure shelfClosure), ("x", v)], none⟩]
  fresh := fresh
  hosts := #[run]
  output := ""

section Shelf

variable {run : HostFunction} {v : Value} {fresh : Nat}

theorem State.not_liesIn_shelf {o : FrameId} : ¬ (shelf run v fresh).LiesIn g o := by
  rintro ⟨frame, hframe, ho⟩
  cases g with
  | zero =>
    cases hframe
    cases ho
  | succ g => cases hframe

theorem State.binding?_shelf {u : Value} (h : (shelf run v fresh).binding? g y = some u) :
    (y, u) = ("keep", .closure shelfClosure) ∨ (y, u) = ("x", v) := by
  cases g with
  | zero => simpa using Frame.mem_of_getElem?_ofList h
  | succ g => cases h

theorem State.unmentioned_shelf :
    (shelf run v fresh).Unmentioned "x" 0 (.list [.symbol "keep", .int 2]) := by
  refine ⟨by simp, fun {c} hc => ?_⟩
  obtain ⟨-, hy, hv, hc⟩ := hc
  rcases binding?_shelf hv with heq | heq
  · cases heq
    cases hc
    simp [shelfClosure]
  · cases heq
    exact absurd rfl hy

theorem State.numbered_shelf (hv : v.Numbered ⟨1, 1⟩) : (shelf run v 1).Numbered := by
  refine ⟨fun ho => absurd ho not_liesIn_shelf, fun {g y u} hu => ?_⟩
  rcases binding?_shelf hu with heq | heq
  · cases heq
    intro u i hu hi
    cases hu
    cases hi
    refine ⟨Nat.one_pos, fun c hc => ?_⟩
    cases hc
    exact Nat.one_pos
  · cases heq
    exact hv

theorem State.getElem?_shelf (v w : Value) (hy : y ≠ "x") :
    (Std.TreeMap.ofList [("keep", .closure shelfClosure), ("x", w)] : Bindings)[y]? =
      (Std.TreeMap.ofList [("keep", .closure shelfClosure), ("x", v)] : Bindings)[y]? := by
  have hx : ¬ "x" = y := fun h => hy h.symm
  simp [Std.TreeMap.ofList_eq_insertMany_empty, Std.TreeMap.insertMany_cons,
    Std.TreeMap.getElem?_insert, hx]

end Shelf

theorem unmentioned_names_do_not_matter_shelf : ∃ entry, Host.entry? "second" = some entry ∧
    let s := State.shelf entry.run (.int 1) 1
    let t := State.shelf entry.run (.list 1 []) 2
    let e : Expr := .list [.symbol "keep", .int 2]
    0 < s.frames.size ∧ State.DiffersAt "x" s t ∧ s.Unmentioned "x" 0 e ∧
    (∀ run ∈ s.hosts, MakesNoClosures run) ∧
    ((Call.eval e 0 0).outcome s).1 = .ok (.list 1 []) ∧
    ((Call.eval e 0 0).outcome t).1 = .ok (.list 2 []) := by
  refine ⟨_, rfl, ?_⟩
  intro s t e
  have hentry {run : HostFunction} (hrun : run ∈ s.hosts) :
      MakesNoClosures run ∧ Uniform run := by
    rw [List.mem_singleton.mp (Array.mem_toList_iff.mpr hrun)]
    have hsecond : Host.entry? "second" = _ := rfl
    exact ⟨Host.makesNoClosures_entry hsecond, uniform_entry hsecond⟩
  have hnumbered : s.Numbered := State.numbered_shelf fun u i hu hi => by
    cases hu
    cases hi
  have hst : State.DiffersAt "x" s t := by
    refine ⟨fun {g a} ha => ?_, rfl, rfl, .inr ⟨⟨Nat.le_refl 1, Nat.le_succ 1⟩, hnumbered,
      fun run hrun => (hentry hrun).2⟩⟩
    cases g with
    | zero =>
      cases ha
      exact ⟨_, rfl, rfl, fun y hy => State.getElem?_shelf _ _ hy⟩
    | succ g => cases ha
  have hs : s.Unmentioned "x" 0 e := State.unmentioned_shelf
  have hout : ((Call.eval e 0 0).outcome s).1 = .ok (.list 1 []) := by
    have hrun : (Call.run 5 (.eval e 0 0) s).map Prod.fst = some (.ok (.list 1 [])) := rfl
    exact Call.seen_outcome_of_run hrun
  have hhosts : ∀ run ∈ s.hosts, MakesNoClosures run := fun run hrun => (hentry hrun).1
  refine ⟨Nat.one_pos, hst, hs, hhosts, hout, ?_⟩
  have hsame := (unmentioned_names_do_not_matter Nat.one_pos hst hs hhosts 0).1.1
  rw [hsame, hout]
  rfl

end MiniLisp
