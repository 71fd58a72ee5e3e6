import MiniLisp.Proofs.Likeness.Primitive
import MiniLisp.Proofs.Scope.Chain

/-!
# Alike states

The states of two runs are alike if frames that belong together lie in frames that belong together
and bind the same names to values that are alike. Nothing is said of other frames. Reading and
writing in frames that belong together keeps states alike.
-/

namespace MiniLisp

variable {L : Likeness} {st st' : Stage} {α β γ δ : Type}

section Options

variable {R : α → β → Prop} {S : γ → δ → Prop} {o : Option α} {o' : Option β}

theorem rel_imp (h : Option.Rel R o o') {R' : α → β → Prop}
    (hR : ∀ a b, R a b → R' a b) : Option.Rel R' o o' := by
  cases h with
  | none => exact .none
  | some h => exact .some (hR _ _ h)

theorem rel_bind (h : Option.Rel R o o') {k : α → Option γ} {k' : β → Option δ}
    (hk : ∀ a b, R a b → Option.Rel S (k a) (k' b)) : Option.Rel S (o.bind k) (o'.bind k') := by
  cases h with
  | none => exact .none
  | some h => exact hk _ _ h

theorem isSome_eq_of_rel (h : Option.Rel R o o') : o.isSome = o'.isSome := by
  cases h <;> rfl

theorem rel_findSome? {as : List α} {bs : List β} (h : List.Forall₂ R as bs) {k : α → Option γ}
    {k' : β → Option δ} (hk : ∀ a b, R a b → Option.Rel S (k a) (k' b)) :
    Option.Rel S (as.findSome? k) (bs.findSome? k') := by
  induction h with
  | nil => exact .none
  | @cons a b as bs hab _ ih =>
    have hfirst := hk a b hab
    rw [List.findSome?_cons, List.findSome?_cons]
    generalize k a = o at hfirst ⊢
    generalize k' b = o' at hfirst ⊢
    cases hfirst with
    | none => exact ih
    | some h => exact .some h

end Options

theorem rel_insertMany {R : Value → Value → Prop} {bs cs : List (String × Value)}
    (h : List.Forall₂ (fun b c => b.1 = c.1 ∧ R b.2 c.2) bs cs) {a b : Bindings}
    (hab : ∀ x : String, Option.Rel R a[x]? b[x]?) (x : String) :
    Option.Rel R (a.insertMany bs)[x]? (b.insertMany cs)[x]? := by
  induction h generalizing a b with
  | nil => exact hab x
  | @cons p q bs cs hpq _ ih =>
    obtain ⟨name, v⟩ := p
    obtain ⟨name', w⟩ := q
    obtain ⟨hname, hv⟩ := hpq
    cases hname
    rw [Std.TreeMap.insertMany_cons, Std.TreeMap.insertMany_cons]
    refine ih fun y => ?_
    rw [Std.TreeMap.getElem?_insert, Std.TreeMap.getElem?_insert]
    split
    · exact .some hv
    · exact hab y

theorem rel_ofList {R : Value → Value → Prop} {bs cs : List (String × Value)}
    (h : List.Forall₂ (fun b c => b.1 = c.1 ∧ R b.2 c.2) bs cs) (x : String) :
    Option.Rel R (Std.TreeMap.ofList bs)[x]? (Std.TreeMap.ofList cs)[x]? := by
  rw [Std.TreeMap.ofList_eq_insertMany_empty, Std.TreeMap.ofList_eq_insertMany_empty]
  exact rel_insertMany h (fun y => by simp) x

structure Frame.Alike (L : Likeness) (st : Stage) (a b : Frame) : Prop where
  outer : Option.Rel (L.frame.Upto st.frames) a.outer b.outer
  binding {x : String} (hx : L.name x) :
    Option.Rel (Value.Alike L st) a.bindings[x]? b.bindings[x]?

theorem Frame.Alike.mono {a b : Frame} (h : a.Alike L st b) (hst : st ≤ st') :
    a.Alike L st' b where
  outer := rel_imp h.outer fun _ _ h => h.mono hst.1
  binding hx := rel_imp (h.binding hx) fun _ _ h => h.mono hst

/-- How far the run has counted that came to this state. -/
def State.stage (s : State) : Stage := ⟨s.frames.size, s.fresh⟩

structure Likeness.States (L : Likeness) (s t : State) : Prop where
  frames : L.frame.InStep s.frames.size t.frames.size
  ids : L.id.InStep s.fresh t.fresh
  frame {f g : FrameId} (hf : L.frame.Upto s.frames.size f g) :
    Option.Rel (Frame.Alike L s.stage) s.frames[f]? t.frames[g]?
  host {i j : Nat} (hi : L.host i j) : Option.Rel L.Answers s.hosts[i]? t.hosts[j]?
  output : s.output = t.output

namespace Likeness.States

variable {s t : State} {f g : FrameId} {x : String} {v w : Value}

theorem binding (h : L.States s t) (hf : L.frame.Upto s.frames.size f g) (hx : L.name x) :
    Option.Rel (Value.Alike L s.stage) (s.binding? f x) (t.binding? g x) :=
  rel_bind (h.frame hf) fun _ _ h => h.binding hx

theorem chainFrom (h : L.States s t) (limit : Nat) (hf : L.frame.Upto s.frames.size f g) :
    List.Forall₂ (L.frame.Upto s.frames.size) (s.chainFrom limit f) (t.chainFrom limit g) := by
  induction limit generalizing f g with
  | zero => exact .nil
  | succ limit ih =>
    have hframe := h.frame hf
    unfold State.chainFrom
    generalize s.frames[f]? = a at hframe ⊢
    generalize t.frames[g]? = b at hframe ⊢
    cases hframe with
    | none => exact .nil
    | @some a b hab =>
      have houter := hab.outer
      simp only
      generalize a.outer = o at houter ⊢
      generalize b.outer = o' at houter ⊢
      cases houter with
      | none => exact .cons hf .nil
      | some ho => exact .cons hf (ih ho)

/-- Looking outward from frames that belong together comes to the same, even if one state has more
frames than the other. -/
theorem findSome? {S : γ → δ → Prop} (h : L.States s t) (hf : L.frame.Upto s.frames.size f g)
    {k : FrameId → Option γ} {k' : FrameId → Option δ}
    (hk : ∀ {f g}, L.frame.Upto s.frames.size f g → Option.Rel S (k f) (k' g)) :
    Option.Rel S ((s.chain f).findSome? k) ((t.chain g).findSome? k') := by
  have hleft : s.frames.size ≤ max s.frames.size t.frames.size := Nat.le_max_left _ _
  have hright : t.frames.size ≤ max s.frames.size t.frames.size := Nat.le_max_right _ _
  rw [← State.findSome?_chainFrom hleft, ← State.findSome?_chainFrom hright]
  exact rel_findSome? (h.chainFrom _ hf) fun _ _ => hk

theorem lookup (h : L.States s t) (hf : L.frame.Upto s.frames.size f g) (hx : L.name x) :
    Option.Rel (Value.Alike L s.stage) (s.lookup f x) (t.lookup g x) :=
  h.findSome? hf fun hfg => h.binding hfg hx

theorem owner (h : L.States s t) (hf : L.frame.Upto s.frames.size f g) (hx : L.name x) :
    Option.Rel (L.frame.Upto s.frames.size) (s.owner? f x) (t.owner? g x) := by
  unfold State.owner?
  rw [List.find?_eq_findSome?_guard, List.find?_eq_findSome?_guard]
  refine h.findSome? hf fun {f g} hfg => ?_
  have hsome := isSome_eq_of_rel (h.binding hfg hx)
  by_cases hg : (t.binding? g x).isSome
  · rw [Option.guard, Option.guard, if_pos (hsome.trans hg), if_pos hg]
    exact .some hfg
  · rw [Option.guard, Option.guard, if_neg (by rwa [hsome]), if_neg hg]
    exact .none

/-- Frames that belong together may be changed alike. -/
theorem modify (h : L.States s t) (hf : L.frame.Upto s.frames.size f g)
    {change change' : Frame → Frame}
    (hchange : ∀ a b, a.Alike L s.stage b → (change a).Alike L s.stage (change' b)) :
    L.States { s with frames := s.frames.modify f change }
      { t with frames := t.frames.modify g change' } := by
  have hstage : ({ s with frames := s.frames.modify f change } : State).stage = s.stage := by
    simp [State.stage]
  refine ⟨by simpa using h.frames, h.ids, ?_, h.host, h.output⟩
  intro f' g' hf'
  rw [hstage]
  simp only [Array.size_modify] at hf' ⊢
  have hframe := h.frame hf'
  have hsame := hf.unique hf'
  rw [Array.getElem?_modify, Array.getElem?_modify]
  by_cases hff : f = f'
  · rw [if_pos hff, if_pos (hsame.mp hff)]
    generalize s.frames[f']? = a at hframe ⊢
    generalize t.frames[g']? = b at hframe ⊢
    cases hframe with
    | none => exact .none
    | some hab => exact .some (hchange _ _ hab)
  · rw [if_neg hff, if_neg (mt hsame.mpr hff)]
    exact hframe

theorem define (h : L.States s t) (hf : L.frame.Upto s.frames.size f g)
    (hv : v.Alike L s.stage w) : L.States (s.define f x v) (t.define g x w) := by
  refine h.modify hf fun a b hab => ⟨hab.outer, fun {y} hy => ?_⟩
  simp only [Std.TreeMap.getElem?_insert]
  split
  · exact .some hv
  · exact hab.binding hy

theorem teardown (h : L.States s t) (hf : L.frame.Upto s.frames.size f g) :
    L.States (s.teardown f) (t.teardown g) :=
  h.modify hf fun a b hab => ⟨hab.outer, fun {y} hy => by simp⟩

theorem addFrame (h : L.States s t) {a b : Frame} (hab : a.Alike L s.stage b) :
    L.States (s.addFrame a) (t.addFrame b) := by
  have hstage : s.stage ≤ (s.addFrame a).stage := by
    constructor <;> simp [State.stage, State.addFrame]
  refine ⟨by simpa [State.addFrame] using h.frames.add 1, h.ids, ?_, h.host, h.output⟩
  intro f g hf
  simp only [State.addFrame, Array.size_push] at hf ⊢
  have hnew := h.frames.eq_iff hf
  rw [Array.getElem?_push, Array.getElem?_push]
  by_cases hff : f = s.frames.size
  · rw [if_pos hff, if_pos (hnew.mp hff)]
    exact .some (hab.mono hstage)
  · rw [if_neg hff, if_neg (mt hnew.mpr hff)]
    exact rel_imp (h.frame (hf.of_ne hff)) fun _ _ h => h.mono hstage

theorem withFresh (h : L.States s t) {n m : Nat} (hn : L.id.InStep n m) (hle : s.fresh ≤ n) :
    L.States { s with fresh := n } { t with fresh := m } :=
  ⟨h.frames, hn, fun hf => rel_imp (h.frame hf) fun _ _ h => h.mono ⟨Nat.le_refl _, hle⟩,
    h.host, h.output⟩

theorem print (h : L.States s t) (text : String) : L.States (s.print text) (t.print text) :=
  ⟨h.frames, h.ids, h.frame, h.host, congrArg (· ++ text) h.output⟩

end Likeness.States

namespace Frame

theorem alike_empty {o o' : Option FrameId} (h : Option.Rel (L.frame.Upto st.frames) o o') :
    (Frame.empty o).Alike L st (.empty o') :=
  ⟨h, fun {x} _ => by simp [Frame.empty]⟩

theorem newline_not_mem_of_mem_builtins : ∀ b ∈ builtins, '\n' ∉ b.id.toList := by decide

theorem operation_of_mem_builtins {b : Builtin} (h : b ∈ builtins) :
    b.operation.Alike L b.operation := by
  rcases List.mem_append.mp h with h | h
  · obtain ⟨p, -, rfl⟩ := List.mem_map.mp h
    exact .primitive p
  · obtain ⟨higher, -, rfl⟩ := List.mem_map.mp h
    exact .higher higher

/-- The standard frame is alike in all runs. -/
theorem alike_standard (L : Likeness) (st : Stage) : Frame.standard.Alike L st .standard := by
  refine ⟨.none, fun {x} _ => rel_ofList (List.forall₂_same.mpr fun entry hentry => ⟨rfl, ?_⟩) x⟩
  rcases List.mem_append.mp hentry with h | h
  · obtain ⟨b, hb, rfl⟩ := List.mem_map.mp h
    exact .builtin (L.text_of_line (newline_not_mem_of_mem_builtins b hb))
      (operation_of_mem_builtins hb)
  · obtain ⟨c, -, rfl⟩ := List.mem_map.mp h
    exact .float c.2

end Frame

end MiniLisp
