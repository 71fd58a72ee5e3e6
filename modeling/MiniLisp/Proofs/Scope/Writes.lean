import MiniLisp.Proofs.Likeness.Within
import MiniLisp.Proofs.Scope.Handed

/-!
# Where programs write

A program makes bindings only in the frame that it is evaluated in, or in frames that it makes
itself, and only of names that one of its `define` forms is about. Bindings that exist it changes
only by `define` as well, or by `set!`: by a form of its own or of a closure that it can come to.
Calling a procedure makes no binding in any frame that exists (`writes_stay`).
-/

namespace MiniLisp

namespace Expr

/-- A `set!` form about the name occurs in the expression. -/
def Sets (x : String) (e : Expr) : Prop :=
  ∃ value, Within (.list [.symbol "set!", .symbol x, value]) e

/-- Lists that `lambda` or `quote` stand at the head of. -/
def Shields : List Expr → Prop
  | .symbol name :: _ => name = "lambda" ∨ name = "quote"
  | _ => False

/-- A `define` form about the name occurs in the expression, outside all `lambda` and `quote`
forms. -/
inductive Defines (x : String) : Expr → Prop where
  | form (value : Expr) : Defines x (.list [.symbol "define", .symbol x, value])
  | item {items : List Expr} {e : Expr} (hopen : ¬ Shields items) (he : e ∈ items)
      (h : Defines x e) : Defines x (.list items)

theorem Sets.item {x : String} {items : List Expr} {e : Expr} (he : e ∈ items) (h : Sets x e) :
    Sets x (.list items) := by
  obtain ⟨value, h⟩ := h
  exact ⟨value, .item he h⟩

/-- What a form evaluates in its own frame is outside all `lambda` and `quote` forms. -/
theorem Defines.part {x : String} {items : List Expr} {form : Form} (hform : form.Shape items)
    {e : Expr} (he : e ∈ form.parts) (h : Defines x e) : Defines x (.list items) := by
  refine .item ?_ (hform.mem_of_mem_parts he) h
  cases hform with
  | quote => cases he
  | cond => simp [Shields]
  | define => simp [Shields]
  | assign => simp [Shields]
  | lambda => cases he
  | @call head operands hhead =>
    cases head with
    | symbol name =>
      rintro (rfl | rfl) <;> cases hhead
    | _ => exact id

end Expr

section Watching

variable {L : Likeness}

/-- What may have become of the bindings of the frames of `s`, if `defined` names may be defined in
`f` and `assigned` names be rebound anywhere. -/
structure State.WritesWithin (s : State) (f : FrameId) (defined assigned : String → Prop)
    (t : State) : Prop where
  size : s.frames.size ≤ t.frames.size
  kept {g : FrameId} {x : String} (hg : g < s.frames.size) :
    (s.binding? g x).isSome → (t.binding? g x).isSome
  gained {g : FrameId} {x : String} (hg : g < s.frames.size) :
    (t.binding? g x).isSome → (s.binding? g x).isSome ∨ g = f ∧ defined x
  changed {g : FrameId} {x : String} (hg : g < s.frames.size) :
    t.binding? g x ≠ s.binding? g x → assigned x ∨ g = f ∧ defined x

namespace State

variable {s t : State} {f : FrameId} {defined assigned : String → Prop}

theorem WritesWithin.refl (s : State) (f : FrameId) (defined assigned : String → Prop) :
    s.WritesWithin f defined assigned s :=
  ⟨Nat.le_refl _, fun _ h => h, fun _ h => .inl h, fun _ h => absurd rfl h⟩

theorem WritesWithin.of_frames {t' : State} (h : s.WritesWithin f defined assigned t)
    (ht : t.frames = t'.frames) : s.WritesWithin f defined assigned t' := by
  have hbinding (g : FrameId) (x : String) : t'.binding? g x = t.binding? g x := by
    rw [binding?, binding?, ht]
  refine ⟨ht ▸ h.size, fun hg hx => ?_, fun hg hx => ?_, fun hg hx => ?_⟩
  · rw [hbinding]
    exact h.kept hg hx
  · rw [hbinding] at hx
    exact h.gained hg hx
  · rw [hbinding] at hx
    exact h.changed hg hx

theorem WritesWithin.addFrame (h : s.WritesWithin f defined assigned t) (frame : Frame) :
    s.WritesWithin f defined assigned (t.addFrame frame) := by
  have hbinding {g : FrameId} (hg : g < s.frames.size) (x : String) :
      (t.addFrame frame).binding? g x = t.binding? g x :=
    binding?_addFrame (Nat.lt_of_lt_of_le hg h.size) frame x
  refine ⟨?_, fun hg hx => ?_, fun hg hx => ?_, fun hg hx => ?_⟩
  · have hsize := h.size
    simp only [State.addFrame, Array.size_push]
    omega
  · rw [hbinding hg]
    exact h.kept hg hx
  · rw [hbinding hg] at hx
    exact h.gained hg hx
  · rw [hbinding hg] at hx
    exact h.changed hg hx

/-- A binding may be made in a frame that is new, or where it is one that exists and may be
assigned, or in the frame `f` where it may be defined. -/
theorem WritesWithin.define (h : s.WritesWithin f defined assigned t) {f' : FrameId} {x : String}
    (v : Value) (hx : s.frames.size ≤ f' ∨ assigned x ∧ (t.binding? f' x).isSome ∨
      f' = f ∧ defined x) : s.WritesWithin f defined assigned (t.define f' x v) := by
  refine ⟨?_, fun {g y} hg hy => ?_, fun {g y} hg hy => ?_, fun {g y} hg hy => ?_⟩
  · simpa [State.define] using h.size
  · rw [binding?_define]
    split
    · rename_i heq
      have hexists : f' < t.frames.size := heq.1 ▸ Nat.lt_of_lt_of_le hg h.size
      simp [hexists]
    · exact h.kept hg hy
  · rw [binding?_define] at hy
    split at hy
    · rename_i heq
      obtain ⟨rfl, rfl⟩ := heq
      rcases hx with hnew | ⟨-, hbound⟩ | hdefined
      · exact absurd hg (Nat.not_lt_of_le hnew)
      · exact h.gained hg hbound
      · exact .inr hdefined
    · exact h.gained hg hy
  · rw [binding?_define] at hy
    split at hy
    · rename_i heq
      obtain ⟨rfl, rfl⟩ := heq
      rcases hx with hnew | ⟨hassigned, -⟩ | hdefined
      · exact absurd hg (Nat.not_lt_of_le hnew)
      · exact .inl hassigned
      · exact .inr hdefined
    · exact h.changed hg hy

end State

/-- Watches that writes stay within the given names, in a run whose new frames are those that `s`
does not have. -/
def Watch.writes (s : State) (f : FrameId) (defined assigned : String → Prop)
    (herror : ∀ e, L.error e) (hleft : L.frame.left = s.frames.size)
    (hcode : ∀ {e : Expr} {x : String}, L.code e → e.Sets x → assigned x) : Watch L where
  holds t := s.WritesWithin f defined assigned t
  task e g := ∀ x, e.Defines x → s.frames.size ≤ g ∨ g = f ∧ defined x
  error_withContext := @L.error_of_all herror
  task_part htask hshape he x hx := htask x (hx.part hshape he)
  task_code _ hg _ _ := .inl (hleft ▸ hg)
  holds_of_frames hframes h := h.of_frames hframes
  holds_addFrame _ _ h := h.addFrame _
  holds_define {t f' g name value} v h _ htask := by
    refine h.define v ?_
    rcases htask name (.form value) with hnew | hdefined
    · exact .inl hnew
    · exact .inr (.inr hdefined)
  holds_assign {t f' g name value} v h _ hset hbound :=
    h.define v (.inr (.inl ⟨hcode hset ⟨value, .self _⟩, hbound⟩))

end Watching

section Runs

/-- The code whose assignments are all about names of a kind. -/
def SetsOnly (assigned : String → Prop) (e : Expr) : Prop := ∀ x, e.Sets x → assigned x

theorem SetsOnly.item {assigned : String → Prop} {items : List Expr} {e : Expr}
    (h : SetsOnly assigned (.list items)) (he : e ∈ items) : SetsOnly assigned e :=
  fun x hx => h x (hx.item he)

variable {s : State} {f : FrameId} {kind : FrameId → Prop} {defined assigned : String → Prop}

/-- States that have frames of a kind in common, whose code assigns only some names. -/
abbrev Likeness.assigning (s : State) (kind : FrameId → Prop) (assigned : String → Prop) :
    Likeness :=
  .within kind s.stage (SetsOnly assigned) SetsOnly.item

/-- Watches a run that starts in `s`. -/
abbrev Watch.writesFrom (s : State) (f : FrameId) (kind : FrameId → Prop)
    (defined assigned : String → Prop) : Watch (.assigning s kind assigned) :=
  .writes s f defined assigned (fun _ => trivial) rfl fun {_ x} he hx => he x hx

theorem writesWithin_outcome (hclosed : s.Closed kind (SetsOnly assigned))
    (hanswers : ∀ run ∈ s.hosts, (Likeness.assigning s kind assigned).Answers run run) {c : Call}
    (hc : c.Alike (.writesFrom s f kind defined assigned) s.stage c) :
    s.WritesWithin f defined assigned (c.outcome s).2 := by
  have hstates : (Likeness.assigning s kind assigned).States s s :=
    states_within hclosed rfl rfl rfl rfl (fun _ _ => rfl) hanswers
  exact (Call.outcome_relates (.writesFrom s f kind defined assigned) hstates
    (.refl s f defined assigned) hc).watched

/-- Evaluation in a frame of a closed kind. -/
theorem writesWithin_eval (hclosed : s.Closed kind (SetsOnly assigned))
    (hanswers : ∀ run ∈ s.hosts, (Likeness.assigning s kind assigned).Answers run run)
    (hf : kind f) {e : Expr} (he : SetsOnly assigned e) (depth : Nat) :
    s.WritesWithin f (fun x => e.Defines x) assigned ((Call.eval e f depth).outcome s).2 :=
  writesWithin_outcome hclosed hanswers
    (.eval he (Pairing.upto_same_iff.mpr ⟨rfl, .inl hf⟩) fun _ hx => .inr ⟨rfl, hx⟩)

theorem closed_all (s : State) : s.Closed (fun _ => True) (SetsOnly fun _ => True) :=
  ⟨fun _ _ => trivial, fun _ _ _ => ⟨fun _ _ => trivial, trivial⟩⟩

theorem answers_all (s : State) (run : HostFunction) :
    (Likeness.assigning s (fun _ => True) fun _ => True).Answers run run :=
  answers_of_all fun _ => ⟨fun _ _ => trivial, trivial⟩

/-- Evaluation makes no bindings but those that a `define` form outside all `lambda` and `quote`
forms makes in its own frame, and it removes none. What it rebinds are names that a `set!` form is
about, its own or one of a closure that it can reach, or names that it defines. Applying a procedure
makes and removes no bindings at all. Only frames that existed before are spoken of. -/
theorem writes_stay (s : State) :
    (∀ (f : FrameId) (e : Expr) (depth : Nat) (g : FrameId) (x : String), g < s.frames.size →
      ((s.binding? g x).isSome → (((Call.eval e f depth).outcome s).2.binding? g x).isSome) ∧
      ((((Call.eval e f depth).outcome s).2.binding? g x).isSome →
        (s.binding? g x).isSome ∨ g = f ∧ e.Defines x) ∧
      ((∀ run ∈ s.hosts, MakesNoClosures run) →
        ((Call.eval e f depth).outcome s).2.binding? g x ≠ s.binding? g x →
        e.Sets x ∨ (∃ c, s.ReachableClosure f c ∧ c.body.Sets x) ∨ g = f ∧ e.Defines x)) ∧
    ∀ (p : Value) (args : List Value) (depth : Nat) (g : FrameId) (x : String),
      g < s.frames.size →
      ((((Call.apply p args depth).outcome s).2.binding? g x).isSome ↔
        (s.binding? g x).isSome) := by
  refine ⟨fun f e depth g x hg => ?_, fun p args depth g x hg => ?_⟩
  · have hall := writesWithin_eval (closed_all s) (fun run _ => answers_all s run)
      (f := f) (e := e) trivial (fun _ _ => trivial) depth
    refine ⟨hall.kept hg, hall.gained hg, fun hhosts hx => ?_⟩
    have hreachable : s.WritesWithin f (fun x => e.Defines x)
        (fun x => e.Sets x ∨ ∃ c, s.ReachableClosure f c ∧ c.body.Sets x)
        ((Call.eval e f depth).outcome s).2 :=
      writesWithin_eval (s.closed_reachable f fun c hc x hx => .inr ⟨c, hc, hx⟩)
        (fun run hrun => answers_of_makesNoClosures (hhosts run hrun)) .self
        (fun x hx => .inl hx) depth
    rcases hreachable.changed hg hx with (hsets | hclosure) | hdefines
    · exact .inl hsets
    · exact .inr (.inl hclosure)
    · exact .inr (.inr hdefines)
  · have hstays (v : Value) : v.Stays (fun _ => True) s.stage s.stage (SetsOnly fun _ => True) :=
      fun _ _ => ⟨fun _ _ => trivial, .inl trivial⟩
    have hall : s.WritesWithin 0 (fun _ => False) (fun _ => True)
        ((Call.apply p args depth).outcome s).2 :=
      writesWithin_outcome (closed_all s) (fun run _ => answers_all s run)
        (.apply (Value.alike_of_stays (hstays p))
          (Value.allAlike_of_stays fun v _ => hstays v))
    refine ⟨fun hx => ?_, hall.kept hg⟩
    rcases hall.gained hg hx with hbound | ⟨-, hfalse⟩
    · exact hbound
    · exact absurd hfalse id

/-- A frame that binds a number, a closure that rebinds it, and a procedure of the host. -/
def State.cell (run : HostFunction) : State where
  frames := #[⟨Std.TreeMap.ofList [("x", Value.int 1),
    ("set", Value.closure ⟨0, [], .list [.symbol "set!", .symbol "x", .int 2], 0⟩),
    ("second", Value.builtin ⟨"second", .exactly 2, .host 0⟩)], none⟩]
  fresh := 1
  hosts := #[run]
  output := ""

theorem writes_stay_cell : ∃ entry, Host.entry? "second" = some entry ∧
    let s := State.cell entry.run
    let e : Expr := .list [.list [.symbol "second", .int 1, .symbol "set"]]
    0 < s.frames.size ∧ (∀ run ∈ s.hosts, MakesNoClosures run) ∧
    ((Call.eval e 0 0).outcome s).2.binding? 0 "x" ≠ s.binding? 0 "x" ∧
    (e.Sets "x" ∨ (∃ c, s.ReachableClosure 0 c ∧ c.body.Sets "x") ∨ 0 = 0 ∧ e.Defines "x") := by
  refine ⟨_, rfl, ?_⟩
  intro s e
  have hrun : (Call.run 6 (.eval e 0 0) s).map (fun r => r.2.binding? 0 "x") =
      some (some (.int 2)) := rfl
  have hchanged : ((Call.eval e 0 0).outcome s).2.binding? 0 "x" ≠ s.binding? 0 "x" := by
    rw [Call.seen_outcome_of_run hrun]
    intro h
    cases h
  have hsize : 0 < s.frames.size := Nat.one_pos
  have hhosts : ∀ run ∈ s.hosts, MakesNoClosures run := by
    intro run hrun
    rw [List.mem_singleton.mp (Array.mem_toList_iff.mpr hrun)]
    exact Host.makesNoClosures_entry (rfl : Host.entry? "second" = _)
  exact ⟨hsize, hhosts, hchanged, ((writes_stay s).1 0 e 0 0 "x" hsize).2.2 hhosts hchanged⟩

end Runs

end MiniLisp
