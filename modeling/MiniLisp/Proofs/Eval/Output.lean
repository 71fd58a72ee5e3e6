import MiniLisp.Proofs.Eval.Kind
import MiniLisp.Proofs.Scope.Binding

/-!
# What was printed before

A run does not look at what was printed before it, and leaves it in front of what it prints
(`Call.outcome_behind`).
-/

namespace MiniLisp

/-- The state, had the text been printed before all else. -/
def State.behind (s : State) (text : String) : State := { s with output := text ++ s.output }

namespace State

variable (s : State) (text : String) (f : FrameId) (x : String) (v : Value)

theorem behind_behind (earlier : String) :
    (s.behind text).behind earlier = s.behind (earlier ++ text) := by
  simp only [behind, String.append_assoc]

@[simp] theorem chain_behind : (s.behind text).chain f = s.chain f :=
  chain_congr (s := s.behind text) (t := s) rfl f

@[simp] theorem lookup_behind : (s.behind text).lookup f x = s.lookup f x := by
  rw [lookup, chain_behind]
  rfl

@[simp] theorem owner?_behind : (s.behind text).owner? f x = s.owner? f x := by
  rw [owner?, chain_behind]
  rfl

@[simp] theorem visible_behind : (s.behind text).visible f = s.visible f := by
  rw [visible, chain_behind]
  rfl

theorem assign_behind : (s.behind text).assign f x v =
    ((s.assign f x v).1, (s.assign f x v).2.behind text) := by
  unfold assign
  rw [owner?_behind]
  split
  · rfl
  · rfl

theorem print_behind (more : String) : (s.behind text).print more = (s.print more).behind text := by
  simp only [print, behind, String.append_assoc]

theorem print_eq_behind {s : State} (h : s.output = "") (text : String) :
    s.print text = s.behind text := by
  rw [print, behind, h, String.empty_append, String.append_empty]

theorem accept_behind (r : Except Error Reply) : (s.behind text).accept r =
    ((s.accept r).1, (s.accept r).2.behind text) := by
  cases r with
  | error e => rfl
  | ok reply =>
    simp only [accept, print_behind]
    rfl

end State

namespace Call

/-- A text in front of what was printed makes no difference to the computation, and stays there. -/
def OnlyPrints {α : Type} (m : Eval α) : Prop :=
  ∀ (s : State) (text : String), m (s.behind text) = (m s).map fun r => (r.1, r.2.behind text)

def onlyPrints : Eval.Kind where
  has := OnlyPrints
  finish _ _ _ := rfl
  bind {α β m k} hm hk s text := by
    rw [Eval.bind_apply, Eval.bind_apply, hm]
    obtain _ | ⟨e | a, t⟩ := m s
    · rfl
    · rfl
    · exact hk a t text
  inForm {α} form {m} hm s text := by
    unfold Eval.inForm
    rw [hm]
    obtain _ | ⟨e | a, t⟩ := m s
    · rfl
    · rfl
    · rfl
  lookup f name s text := by
    unfold Eval.lookup
    rw [State.lookup_behind]
    split
    · rfl
    · rfl
  define _ _ _ _ _ := rfl
  assign f name v s text := congrArg some (s.assign_behind text f name v)
  enter _ _ _ _ := rfl
  make _ _ _ := rfl
  close _ _ _ _ _ := rfl
  accept r s text := congrArg some (s.accept_behind text r)
  host index s text := by
    have hhosts : (s.behind text).hosts[index]? = s.hosts[index]? := rfl
    unfold Eval.host
    rw [hhosts]
    split
    · rfl
    · rfl

/-- What was printed before a run stays in front, and makes no difference to it. -/
theorem outcome_behind (c : Call) (s : State) (text : String) :
    c.outcome (s.behind text) = ((c.outcome s).1, (c.outcome s).2.behind text) := by
  obtain ⟨n, hn⟩ := outcome_eq_iff.mp (rfl : c.outcome s = c.outcome s)
  refine outcome_eq_iff.mpr ⟨n, ?_⟩
  rw [onlyPrints.run (fun _ _ => rfl) n c s text, hn]
  rfl

end Call

theorem State.evalText_behind (s : State) (text : String) (f : FrameId) (source : String)
    (strict : Bool) : (s.behind text).evalText f source strict =
      ((s.evalText f source strict).1, (s.evalText f source strict).2.behind text) := by
  unfold State.evalText
  split
  · rfl
  · exact Call.outcome_behind _ s text

end MiniLisp
