import Mathlib.Logic.Function.Basic
import MiniLisp.Proofs.Scope.Handed
import MiniLisp.Proofs.Session.Steps

/-!
# Interleaved sessions

Several host programs share one state. Each begins with a standard frame of its own. In whatever
order their steps come, each of them gets the answers that it gets alone.
-/

namespace MiniLisp

/-- How many frames a session holds after the step that held `count` before. -/
def Step.grow : Step → Nat → Nat
  | .root, count => count + 1
  | .standard, count => count + 1
  | .child _, count => count + 1
  | _, count => count

/-- The steps may be asked of a session that holds `count` frames. -/
def Fitting : Nat → List Step → Prop
  | _, [] => True
  | count, first :: rest => first.Fits count ∧ Fitting (first.grow count) rest

/-- What a host program that sees no numbers sees of an answer. -/
def seen (answer : Except Error Response × String) : Except Error Response × String :=
  (answer.1.map Response.anonymous, answer.2)

theorem Session.size_held_step (x : Session) (first : Step) :
    (x.step first).2.held.size = first.grow x.held.size := by
  cases first with
  | lookup index name =>
    simp only [Session.step, Session.perform]
    split
    · rfl
    · rfl
  | root => exact Array.size_push _
  | standard => exact Array.size_push _
  | child => exact Array.size_push _
  | _ => rfl

section Parts

variable {n : Nat} {α : Type}

/-- The part of the host program `i` in a record of what all of them did. -/
def partOf (i : Fin n) : List (Fin n × α) → List α
  | [] => []
  | (j, a) :: rest => if j = i then a :: partOf i rest else partOf i rest

@[simp] theorem partOf_cons_self (i : Fin n) (a : α) (rest : List (Fin n × α)) :
    partOf i ((i, a) :: rest) = a :: partOf i rest := if_pos rfl

theorem partOf_cons_of_ne {i j : Fin n} (h : j ≠ i) (a : α) (rest : List (Fin n × α)) :
    partOf i ((j, a) :: rest) = partOf i rest := if_neg h

end Parts

/-- The sessions of `n` host programs on one state. -/
structure Sessions (n : Nat) where
  state : State
  held : Fin n → Array FrameId

namespace Sessions

variable {n : Nat} {x : Sessions n} {alone : Fin n → Session} {own : Fin n → FrameId → Prop}

/-- Each host program holds one standard frame. -/
def start (n : Nat) : Sessions n where
  state := { State.empty with frames := Array.replicate n .standard }
  held i := #[i]

/-- The host program `i` asks for a step. -/
def step (x : Sessions n) (i : Fin n) (first : Step) :
    (Except Error Response × String) × Sessions n :=
  let (answer, y) := Session.step ⟨x.state, x.held i⟩ first
  (answer, ⟨y.state, Function.update x.held i y.held⟩)

/-- The answers to all steps in order, each with the host program that asked. -/
def run (x : Sessions n) : List (Fin n × Step) → List (Fin n × (Except Error Response × String))
  | [] => []
  | (i, first) :: rest =>
    let (answer, x) := x.step i first
    (i, answer) :: x.run rest

/-- A host program among others goes on as the session `y` does that it has alone; it may come to
the frames `own`. -/
def Follows (s : State) (held : Array FrameId) (y : Session) (own : FrameId → Prop) : Prop :=
  ∃ k : Link s y.state, (∀ f g, k.frame.old f g → own f) ∧
    List.Forall₂ k.frame.old held.toList y.held.toList

/-- Each host program has frames of its own, and goes on there as it does alone. -/
structure Apart (x : Sessions n) (alone : Fin n → Session) (own : Fin n → FrameId → Prop) :
    Prop where
  disjoint {i j : Fin n} {f : FrameId} : own i f → own j f → i = j
  bounded {i : Fin n} {f : FrameId} : own i f → f < x.state.frames.size
  follows (i : Fin n) : Follows x.state (x.held i) (alone i) (own i)

/-- The standard frame of a host program among the others is linked to the one it has alone. -/
def startLink (i : Fin n) : Link (start n).state Session.start.state where
  frame := .ofBounded (fun f g => f = i ∧ g = 0) n 1
    (fun h h' => by rw [h.1, h.2, h'.1, h'.2]; exact iff_of_true rfl rfl)
    (fun h => by rw [h.1, h.2]; exact ⟨i.isLt, Nat.one_pos⟩)
  id := .ofBounded (fun _ _ => False) 0 0 (fun h => h.elim) (fun h => h.elim)
  host _ _ := False
  frameStarts := ⟨by simp [start, Pairing.ofBounded], rfl,
    fun h => by rw [h.1, h.2]; exact ⟨by simp [start], Nat.one_pos⟩⟩
  idStarts := ⟨rfl, rfl, fun h => h.elim⟩
  frames {f g} h := by
    obtain ⟨rfl, rfl⟩ := h
    have hleft : (start n).state.frames[i.val]? = some .standard := by simp [start]
    rw [hleft]
    exact .some (Frame.alike_standard _ _)
  hosts h := h.elim

theorem apart_start (n : Nat) :
    Apart (start n) (fun _ => Session.start) fun i f => f = i where
  disjoint h h' := Fin.ext (h.symm.trans h')
  bounded {i f} h := by
    rw [h]
    simp [start]
  follows i := ⟨startLink i, fun _ _ h => h.1, .cons ⟨rfl, rfl⟩ .nil⟩

/-- A step of one host program goes as it does alone, and does not disturb the others. -/
theorem Apart.step (h : x.Apart alone own) (i : Fin n) {first : Step}
    (hfits : first.Fits (x.held i).size) :
    seen (x.step i first).1 = seen ((alone i).step first).1 ∧
    ∃ own', (x.step i first).2.Apart (Function.update alone i ((alone i).step first).2) own' := by
  obtain ⟨k, hown, hheld⟩ := h.follows i
  obtain ⟨hanswer, houtput, hothers, hfresh, hhosts, k', hnew, hheld'⟩ :=
    (k.withOutput "" "").perform_alike rfl hheld hfits
  refine ⟨Prod.ext hanswer houtput,
    fun j f => own j f ∨ j = i ∧ x.state.frames.size ≤ f ∧
      f < (x.step i first).2.state.frames.size, ?_, ?_, fun j => ?_⟩
  · rintro j j' f (hf | ⟨rfl, hf, -⟩) (hf' | ⟨rfl, hf', -⟩)
    · exact h.disjoint hf hf'
    · exact absurd (h.bounded hf) (Nat.not_lt_of_le hf')
    · exact absurd (h.bounded hf') (Nat.not_lt_of_le hf)
    · rfl
  · rintro j f (hf | ⟨-, -, hf⟩)
    · exact Nat.lt_of_lt_of_le (h.bounded hf) hothers.size
    · exact hf
  · by_cases hj : j = i
    · subst hj
      simp only [Sessions.step, Function.update_self]
      refine ⟨k'.withOutput "" "", fun f g hf => ?_, hheld'⟩
      rcases hnew f g hf with hold | hsize
      · exact .inl (hown f g hold)
      · exact .inr ⟨trivial, hsize, (k'.frameStarts.bounded hf).1⟩
    · obtain ⟨l, hother, hheldj⟩ := h.follows j
      simp only [Sessions.step, Function.update_of_ne hj]
      refine ⟨l.delay hothers.size hfresh (fun hf => ?_) hhosts, fun f g hf => .inl (hother f g hf),
        hheldj⟩
      refine hothers.frame (l.frameStarts.bounded hf).1 fun g hg => hj ?_
      exact h.disjoint (hother _ _ hf) (hown _ g hg)

theorem fitting_step {i : Fin n} {first : Step} {rest : List (Fin n × Step)}
    (h : ∀ j, Fitting (x.held j).size (partOf j ((i, first) :: rest))) (j : Fin n) :
    Fitting ((x.step i first).2.held j).size (partOf j rest) := by
  have hj := h j
  by_cases heq : i = j
  · subst heq
    rw [partOf_cons_self] at hj
    simpa [Sessions.step, Session.size_held_step] using hj.2
  · rw [partOf_cons_of_ne heq] at hj
    simpa [Sessions.step, Function.update_of_ne (Ne.symm heq)] using hj

/-- All steps of all host programs go as they do alone. -/
theorem Apart.run (h : x.Apart alone own) {schedule : List (Fin n × Step)}
    (hfits : ∀ i, Fitting (x.held i).size (partOf i schedule)) (i : Fin n) :
    (partOf i (x.run schedule)).map seen = ((alone i).run (partOf i schedule)).map seen := by
  induction schedule generalizing x alone own with
  | nil => rfl
  | cons head rest ih =>
    obtain ⟨j, first⟩ := head
    have hfirst := hfits j
    rw [partOf_cons_self] at hfirst
    obtain ⟨hanswer, own', hapart⟩ := h.step j hfirst.1
    have hrest := ih hapart (fitting_step hfits)
    by_cases hj : j = i
    · subst hj
      rw [Function.update_self] at hrest
      simp only [Sessions.run, Session.run, partOf_cons_self, List.map_cons]
      rw [hanswer, hrest]
    · rw [Function.update_of_ne (Ne.symm hj)] at hrest
      simp only [Sessions.run, partOf_cons_of_ne hj]
      exact hrest

end Sessions

section Isolation

/-- Frames that are not connected do not interfere: evaluation does not touch what it cannot reach,
does not depend on it, and so sessions that begin in frames of their own go as each goes alone. -/
theorem separate_frames_do_not_interfere :
    (∀ (s : State) (f : FrameId) (e : Expr) (depth : Nat),
      (∀ run ∈ s.hosts, MakesNoClosures run) →
      ∀ g, g < s.frames.size → ¬ s.Reachable f g →
        ((Call.eval e f depth).outcome s).2.frames[g]? = s.frames[g]?) ∧
    (∀ (s t : State) (f : FrameId) (e : Expr) (depth : Nat),
      (∀ run ∈ s.hosts, MakesNoClosures run) → s.SameFrom t f →
      ((Call.eval e f depth).outcome s).1 = ((Call.eval e f depth).outcome t).1 ∧
      ((Call.eval e f depth).outcome s).2.output = ((Call.eval e f depth).outcome t).2.output ∧
      ∀ g, s.Reachable f g ∨ s.frames.size ≤ g → ∀ x,
        ((Call.eval e f depth).outcome s).2.binding? g x =
          ((Call.eval e f depth).outcome t).2.binding? g x) ∧
    ∀ (n : Nat) (schedule : List (Fin n × Step)), (∀ i, Fitting 1 (partOf i schedule)) →
      ∀ i, (partOf i ((Sessions.start n).run schedule)).map seen =
        (Session.start.run (partOf i schedule)).map seen := by
  refine ⟨fun s f e depth hhosts g hg hreach => ?_, fun s t f e depth hhosts hsame => ?_,
    fun n schedule hfits i => ?_⟩
  · exact State.frame_eq_of_not_reachable hhosts e depth hg hreach
  · exact State.outcome_eq_of_sameFrom hsame hhosts e depth
  · exact (Sessions.apart_start n).run hfits i

/-- Two frames that are not connected; one binds a procedure of the host, the other one a number. -/
def State.pair (run : HostFunction) (n : Int64) : State where
  frames := #[⟨(∅ : Bindings).insert "second" (.builtin ⟨"second", .exactly 2, .host 0⟩), none⟩,
    ⟨(∅ : Bindings).insert "y" (.int n), none⟩]
  fresh := 0
  hosts := #[run]
  output := ""

theorem State.reachable_pair {run : HostFunction} {n : Int64} {g : FrameId}
    (h : (State.pair run n).Reachable 0 g) : g = 0 := by
  induction h with
  | self => rfl
  | outer _ ho ih =>
    subst ih
    obtain ⟨frame, hframe, ho⟩ := ho
    cases hframe
    cases ho
  | @captured g x v c _ hv hc ih =>
    subst ih
    have hbound : ((∅ : Bindings).insert "second" (.builtin ⟨"second", .exactly 2, .host 0⟩))[x]? =
        some v := hv
    rw [Std.TreeMap.getElem?_insert] at hbound
    split at hbound
    · cases hbound
      cases hc
    · rw [Std.TreeMap.getElem?_emptyc] at hbound
      cases hbound

theorem State.sameFrom_pair (run : HostFunction) (n m : Int64) :
    (State.pair run n).SameFrom (State.pair run m) 0 :=
  ⟨rfl, rfl, rfl, rfl, fun hg => by rw [reachable_pair hg]; rfl⟩

/-- Two host programs by turns: one defines a name and registers a procedure, the other one asks
for that name. -/
def turns (entry : Entry) : List (Fin 2 × Step) :=
  [(0, .define 0 "x" "1"), (1, .eval 0 "x" true), (0, .register 0 "second" entry),
    (1, .child 0), (0, .eval 0 "(second 1 x)" true), (1, .lookup 1 "second")]

theorem separate_frames_do_not_interfere_turns : ∃ entry, Host.entry? "second" = some entry ∧
    let s := State.pair entry.run 1
    let e : Expr := .list [.symbol "set!", .symbol "y",
      .list [.symbol "second", .int 1, .int 2]]
    ((Call.eval e 0 0).outcome s).2.frames[1]? = s.frames[1]? ∧
    ((Call.eval e 0 0).outcome s).1 =
      ((Call.eval e 0 0).outcome (State.pair entry.run 2)).1 ∧
    (partOf 1 ((Sessions.start 2).run (turns entry))).map seen =
      (Session.start.run [.eval 0 "x" true, .child 0, .lookup 1 "second"]).map seen := by
  obtain ⟨entry, hentry⟩ : ∃ entry, Host.entry? "second" = some entry := ⟨_, rfl⟩
  refine ⟨entry, hentry, ?_⟩
  intro s e
  have hhosts : ∀ run ∈ s.hosts, MakesNoClosures run := by
    intro run hrun
    rw [List.mem_singleton.mp (Array.mem_toList_iff.mpr hrun)]
    exact Host.makesNoClosures_entry hentry
  obtain ⟨hkept, hsame, hturns⟩ := separate_frames_do_not_interfere
  refine ⟨?_, ?_, ?_⟩
  · refine hkept s 0 e 0 hhosts 1 Nat.one_lt_two fun hreach => ?_
    exact absurd (State.reachable_pair hreach) (by decide)
  · exact (hsame s _ 0 e 0 hhosts (State.sameFrom_pair entry.run 1 2)).1
  · have huniform := uniform_entry hentry
    refine hturns 2 (turns entry) (fun i => ?_) 1
    match i with
    | 0 => exact ⟨Nat.one_pos, ⟨Nat.one_pos, huniform⟩, Nat.one_pos, trivial⟩
    | 1 => exact ⟨Nat.one_pos, Nat.one_pos, Nat.one_lt_two, trivial⟩

end Isolation

end MiniLisp
