import MiniLisp.Proofs.Likeness.Within

/-!
# What cannot be reached

Evaluation leaves the frames unchanged that cannot be reached from the frame it happens in, and it
does not depend on them: from states that have all else in common it goes the same way.
-/

namespace MiniLisp

/-- The frames of `s` that do not belong to the run are still what they were. -/
structure State.KeepsOthers (L : Likeness) (s t : State) : Prop where
  size : s.frames.size ≤ t.frames.size
  frame {g : FrameId} (hg : g < s.frames.size) (hold : ∀ h, ¬ L.frame.old g h) :
    t.frames[g]? = s.frames[g]?

namespace State.KeepsOthers

variable {L : Likeness} {s t : State}

theorem refl (L : Likeness) (s : State) : s.KeepsOthers L s := ⟨Nat.le_refl _, fun _ _ => rfl⟩

theorem addFrame (h : s.KeepsOthers L t) (frame : Frame) : s.KeepsOthers L (t.addFrame frame) := by
  refine ⟨?_, fun {g} hg hold => ?_⟩
  · have hsize := h.size
    simp only [State.addFrame, Array.size_push]
    omega
  · have hne : g ≠ t.frames.size := Nat.ne_of_lt (Nat.lt_of_lt_of_le hg h.size)
    simp only [State.addFrame, Array.getElem?_push, if_neg hne]
    exact h.frame hg hold

/-- The run may change frames that belong to it and frames that are new. -/
theorem modify (h : s.KeepsOthers L t) (hleft : L.frame.left = s.frames.size) {f f' : FrameId}
    (hf : L.frame.Upto t.frames.size f f') (change : Frame → Frame) :
    s.KeepsOthers L { t with frames := t.frames.modify f change } := by
  refine ⟨by simpa using h.size, fun {g} hg hold => ?_⟩
  have hne : f ≠ g := by
    rintro rfl
    rcases hf with hf | ⟨hnew, -⟩
    · exact hold f' hf
    · exact absurd hg (Nat.not_lt_of_le (hleft ▸ hnew))
  simp only [Array.getElem?_modify, if_neg hne]
  exact h.frame hg hold

end State.KeepsOthers

/-- Watches that all frames that do not belong to the run stay as they are. -/
def Watch.others (L : Likeness) (s : State) (herror : ∀ e, L.error e)
    (hleft : L.frame.left = s.frames.size) : Watch L where
  holds t := s.KeepsOthers L t
  task _ _ := True
  error_withContext := @L.error_of_all herror
  task_part _ _ _ := trivial
  task_code _ _ := trivial
  holds_of_frames hframes h := ⟨hframes ▸ h.size, fun hg hold => hframes ▸ h.frame hg hold⟩
  holds_addFrame _ _ h := h.addFrame _
  holds_define _ h hf _ := h.modify hleft hf _
  holds_assign _ h hf _ _ := h.modify hleft hf _

/-- The states differ in nothing but frames that cannot be reached from `f`. -/
structure State.SameFrom (s t : State) (f : FrameId) : Prop where
  size : s.frames.size = t.frames.size
  fresh : s.fresh = t.fresh
  hosts : s.hosts = t.hosts
  output : s.output = t.output
  frame {g : FrameId} (hg : s.Reachable f g) : s.frames[g]? = t.frames[g]?

namespace State

theorem SameFrom.refl (s : State) (f : FrameId) : s.SameFrom s f :=
  ⟨rfl, rfl, rfl, rfl, fun _ => rfl⟩

variable {s t : State} {f : FrameId}

/-- The states that have what can be reached from `f` in common. -/
abbrev around (s : State) (f : FrameId) : Likeness :=
  .within (s.Reachable f) s.stage (fun _ => True) fun _ _ => trivial

/-- Watches what cannot be reached from `f`. -/
abbrev beyond (s : State) (f : FrameId) : Watch (s.around f) := .others _ s (fun _ => trivial) rfl

theorem ends_of_sameFrom (h : s.SameFrom t f) (hhosts : ∀ run ∈ s.hosts, MakesNoClosures run)
    (e : Expr) (depth : Nat) :
    (s.beyond f).Ends s t (Value.Alike (s.around f)) ((Call.eval e f depth).outcome s)
      ((Call.eval e f depth).outcome t) := by
  have hstates : (s.around f).States s t :=
    states_within (s.closed_reachable f fun _ _ => trivial) h.size h.fresh h.hosts h.output
      (fun _ hg => h.frame hg) fun run hrun => answers_of_makesNoClosures (hhosts run hrun)
  refine Call.outcome_relates (s.beyond f) hstates (.refl _ s) ?_
  exact .eval trivial (Pairing.upto_same_iff.mpr ⟨rfl, .inl .self⟩) trivial

/-- Evaluation does not touch what it cannot reach. -/
theorem frame_eq_of_not_reachable (hhosts : ∀ run ∈ s.hosts, MakesNoClosures run) (e : Expr)
    (depth : Nat) {g : FrameId} (hg : g < s.frames.size) (hreach : ¬ s.Reachable f g) :
    ((Call.eval e f depth).outcome s).2.frames[g]? = s.frames[g]? :=
  (ends_of_sameFrom (.refl s f) hhosts e depth).watched.frame hg fun _ hold => hreach hold.2

theorem result_eq_of_agrees {V : Value → Value → Prop} {L : Likeness} {r r' : Except Error Value}
    (h : L.Agrees V r r') (hV : ∀ v w, V v w → v = w) : r = r' := by
  cases h with
  | error => rfl
  | ok hv => rw [hV _ _ hv]

theorem binding?_eq_of_states {s' t' : State} (h : (s.around f).States s' t') {g : FrameId}
    (hg : s.Reachable f g ∨ s.frames.size ≤ g) (x : String) :
    s'.binding? g x = t'.binding? g x := by
  by_cases hsize : g < s'.frames.size
  · have hupto : (s.around f).frame.Upto s'.frames.size g g :=
      Pairing.upto_same_iff.mpr ⟨rfl, hg.imp id fun hnew => ⟨hnew, hsize⟩⟩
    have hbinding := h.binding hupto (x := x) trivial
    generalize s'.binding? g x = o at hbinding ⊢
    generalize t'.binding? g x = o' at hbinding ⊢
    cases hbinding with
    | none => rfl
    | some hv => rw [Likeness.diagonal_within.eq_of_alike hv]
  · have hsame := (Pairing.inStep_same_iff.mp h.frames).1
    have hsize : s'.frames.size ≤ g := Nat.le_of_not_lt hsize
    rw [binding?, binding?, Array.getElem?_eq_none hsize, Array.getElem?_eq_none (hsame ▸ hsize)]

/-- Evaluation does not depend on what it cannot reach. -/
theorem outcome_eq_of_sameFrom (h : s.SameFrom t f)
    (hhosts : ∀ run ∈ s.hosts, MakesNoClosures run) (e : Expr) (depth : Nat) :
    ((Call.eval e f depth).outcome s).1 = ((Call.eval e f depth).outcome t).1 ∧
    ((Call.eval e f depth).outcome s).2.output = ((Call.eval e f depth).outcome t).2.output ∧
    ∀ g, s.Reachable f g ∨ s.frames.size ≤ g → ∀ x,
      ((Call.eval e f depth).outcome s).2.binding? g x =
        ((Call.eval e f depth).outcome t).2.binding? g x := by
  have hends := ends_of_sameFrom h hhosts e depth
  exact ⟨result_eq_of_agrees hends.agrees fun _ _ hv => Likeness.diagonal_within.eq_of_alike hv,
    hends.states.output, fun g hg x => binding?_eq_of_states hends.states hg x⟩

end State

end MiniLisp
