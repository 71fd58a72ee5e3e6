import MiniLisp.Proofs.History.Situation
import MiniLisp.Proofs.Likeness.Run
import MiniLisp.Proofs.Scope.Chain

/-!
# A part of the frames

A run that stays within some of the frames goes the same in every state that has these frames in
common. So values are alike if they are equal and their closures stay within: they have captured
such a frame, or a frame that was made meanwhile.
-/

namespace MiniLisp

section Diagonal

/-- Nothing belongs together but what is the same, and the frames must be of a kind or new. -/
structure Likeness.Diagonal (L : Likeness) (kind : FrameId → Prop) (start : Stage) : Prop where
  frame : L.frame = .same kind start.frames
  id : L.id = .same (fun _ => True) start.ids
  host : L.host = Eq

variable {L : Likeness} {kind : FrameId → Prop} {start st : Stage}

namespace Likeness.Diagonal

theorem upto_frame_iff (hL : L.Diagonal kind start) {f g : FrameId} {n : Nat} :
    L.frame.Upto n f g ↔ f = g ∧ (kind f ∨ start.frames ≤ f ∧ f < n) := by
  rw [hL.frame, Pairing.upto_same_iff]

theorem upto_id_iff (hL : L.Diagonal kind start) {i j n : Nat} : L.id.Upto n i j ↔ i = j := by
  simp [hL.id]

theorem eq_of_alike (hL : L.Diagonal kind start) {v w : Value} (h : v.Alike L st w) : v = w := by
  induction h with
  | @list i j vs ws hid hlength _ ih =>
    have hitems := Value.map_eq_of_zip (g := fun v => v) hlength ih
    rw [List.map_id', List.map_id'] at hitems
    rw [hitems, hL.upto_id_iff.mp hid]
  | builtin hid ho =>
    cases ho with
    | host h =>
      rw [hL.host] at h
      rw [h]
    | _ => rfl
  | closure hid _ _ hframe => rw [hL.upto_id_iff.mp hid, (hL.upto_frame_iff.mp hframe).1]
  | _ => rfl

theorem eq_of_allAlike (hL : L.Diagonal kind start) {vs ws : List Value}
    (h : Value.AllAlike L st vs ws) : vs = ws :=
  List.forall₂_eq_eq_eq ▸ h.imp fun _ _ h => hL.eq_of_alike h

/-- States are alike that have the frames of a kind in common, if nothing leads out of them. -/
theorem states {s t : State} (hL : L.Diagonal kind s.stage)
    (houter : ∀ {g o}, kind g → s.LiesIn g o → kind o)
    (hbound : ∀ {g x v}, kind g → L.name x → s.binding? g x = some v → v.Alike L s.stage v)
    (hsize : s.frames.size = t.frames.size) (hfresh : s.fresh = t.fresh)
    (hhosts : s.hosts = t.hosts) (houtput : s.output = t.output)
    (hframes : ∀ g, kind g → s.frames[g]? = t.frames[g]?)
    (hanswers : ∀ run ∈ s.hosts, L.Answers run run) : L.States s t where
  frames := by
    rw [hL.frame]
    exact Pairing.inStep_same_iff.mpr ⟨hsize, Nat.le_refl _⟩
  ids := by
    rw [hL.id]
    exact Pairing.inStep_same_iff.mpr ⟨hfresh, Nat.le_refl _⟩
  frame {f g} hf := by
    obtain ⟨rfl, hkind⟩ := hL.upto_frame_iff.mp hf
    have hf : kind f := by
      rcases hkind with h | ⟨hge, hlt⟩
      · exact h
      · exact absurd hlt (Nat.not_lt_of_le hge)
    rw [← hframes f hf]
    cases hframe : s.frames[f]? with
    | none => exact .none
    | some frame =>
      refine .some ⟨?_, fun {x} hx => ?_⟩
      · cases ho : frame.outer with
        | none => exact .none
        | some o =>
          exact .some (hL.upto_frame_iff.mpr ⟨rfl, .inl (houter hf ⟨frame, hframe, ho⟩)⟩)
      · cases hv : frame.bindings[x]? with
        | none => exact .none
        | some v =>
          refine .some (hbound hf hx ?_)
          rw [State.binding?, hframe]
          exact hv
  host {i j} hi := by
    rw [hL.host] at hi
    cases hi
    rw [← hhosts]
    cases hrun : s.hosts[i]? with
    | none => exact .none
    | some run => exact .some (hanswers run (Array.mem_of_getElem? hrun))
  output := houtput

end Likeness.Diagonal

end Diagonal

variable {kind : FrameId → Prop} {start : Stage} {code : Expr → Prop}
  {code_item : ∀ {items : List Expr} {e : Expr}, code (.list items) → e ∈ items → code e}
  {st : Stage}

/-- The likeness of states that have the frames of a kind in common. -/
def Likeness.within (kind : FrameId → Prop) (start : Stage) (code : Expr → Prop)
    (code_item : ∀ {items : List Expr} {e : Expr}, code (.list items) → e ∈ items → code e) :
    Likeness :=
  .ofCode (.same kind start.frames) (.same (fun _ => True) start.ids) Eq code code_item

theorem Likeness.diagonal_within :
    (Likeness.within kind start code code_item).Diagonal kind start :=
  ⟨rfl, rfl, rfl⟩

namespace Value

/-- The closures in the value have code and frames of the kind. -/
def Stays (kind : FrameId → Prop) (start st : Stage) (code : Expr → Prop) (v : Value) : Prop :=
  ∀ c, v.Holds c → code c.body ∧ (kind c.frame ∨ start.frames ≤ c.frame ∧ c.frame < st.frames)

theorem stays_of_alike {v w : Value} (h : v.Alike (.within kind start code code_item) st w) :
    v.Stays kind start st code := by
  induction h with
  | @list i j vs ws hid hlength _ ih =>
    intro c hc
    cases hc with
    | @item _ _ v hv hc =>
      obtain ⟨w, hmem⟩ := exists_mem_zip hlength hv
      exact ih hmem c hc
  | closure hid _ hbody hframe =>
    intro c hc
    cases hc
    exact ⟨hbody, (Pairing.upto_same_iff.mp hframe).2⟩
  | _ =>
    intro c hc
    cases hc

/-- A value is alike in both runs if everything in it that has a number keeps it. -/
theorem alike_of_parts {L : Likeness} (hhost : L.host = Eq) (htext : ∀ a, L.text a) {v : Value}
    (hid : ∀ (u : Value) (i : Nat), u.Part v → u.id? = some i → L.id.Upto st.ids i i)
    (hclosure : ∀ c, v.Holds c →
      (∀ x ∈ c.params, L.name x) ∧ L.code c.body ∧ L.frame.Upto st.frames c.frame c.frame) :
    v.Alike L st v := by
  induction v using Value.items_induction with
  | list id items ih =>
    refine .listOf (hid _ id .self rfl) (List.forall₂_same.mpr fun v hv => ih v hv ?_ ?_)
    · exact fun u i hu hi => hid u i (.item hv hu) hi
    · exact fun c hc => hclosure c (.item hv hc)
  | atom v hv =>
    cases v with
    | int n => exact .int n
    | float x => exact .float x
    | symbol name => exact .symbol (htext name)
    | bool b => exact .bool b
    | list id items => exact absurd rfl (hv id items)
    | builtin b =>
      obtain ⟨id, arity, operation⟩ := b
      refine .builtin (htext id) ?_
      cases operation with
      | primitive p => exact .primitive p
      | host i =>
        refine .host ?_
        rw [hhost]
      | higher operation => exact .higher operation
    | closure c =>
      obtain ⟨hparams, hbody, hframe⟩ := hclosure c .self
      exact .closure (hid _ c.id .self rfl) hparams hbody hframe
    | unspecified => exact .unspecified

theorem alike_of_stays {v : Value} (h : v.Stays kind start st code) :
    v.Alike (.within kind start code code_item) st v := by
  refine alike_of_parts rfl (fun _ => trivial) (fun u i _ _ => ?_) fun c hc => ?_
  · exact Pairing.upto_same_iff.mpr ⟨rfl, .inl trivial⟩
  · obtain ⟨hbody, hframe⟩ := h c hc
    exact ⟨fun _ _ => trivial, hbody, Pairing.upto_same_iff.mpr ⟨rfl, hframe⟩⟩

theorem allAlike_of_stays {vs : List Value} (h : ∀ v ∈ vs, v.Stays kind start st code) :
    AllAlike (.within kind start code code_item) st vs vs :=
  List.forall₂_same.mpr fun v hv => alike_of_stays (h v hv)

end Value

theorem Draft.alike_of_stays {d : Draft} (h : ∀ c, d.Holds c →
    code c.body ∧ (kind c.frame ∨ start.frames ≤ c.frame ∧ c.frame < st.frames)) :
    d.Alike (.within kind start code code_item) st d := by
  induction d using Draft.items_induction with
  | value v => exact .value (Value.alike_of_stays fun c hc => h c (.value hc))
  | list items ih =>
    refine alike_list_iff.mpr (List.forall₂_same.mpr fun d hd => ih d hd fun c hc => ?_)
    exact h c (.item hd hc)

/-- Where all closures are of the kind, every host function answers alike. -/
theorem answers_of_all {run : HostFunction} (h : ∀ c : Closure, code c.body ∧ kind c.frame) :
    (Likeness.within kind start code code_item).Answers run run := by
  intro st vs ws hvs
  have heq := Likeness.diagonal_within.eq_of_allAlike hvs
  subst heq
  cases run vs with
  | error e => exact .error trivial
  | ok reply =>
    exact .ok ⟨Draft.alike_of_stays fun c _ => ⟨(h c).1, .inl (h c).2⟩, rfl⟩

/-- Host functions that make no closures answer alike to the same arguments. -/
theorem answers_of_makesNoClosures {run : HostFunction} (h : MakesNoClosures run) :
    (Likeness.within kind start code code_item).Answers run run := by
  intro st vs ws hvs
  have heq := Likeness.diagonal_within.eq_of_allAlike hvs
  subst heq
  cases hreply : run vs with
  | error e => exact .error trivial
  | ok reply =>
    refine .ok ⟨Draft.alike_of_stays fun c hc => ?_, rfl⟩
    obtain ⟨v, hv, hheld⟩ := h vs reply hreply c hc
    exact Value.stays_of_alike (List.forall₂_same.mp hvs v hv) c hheld

/-- Nothing leads out of the frames of the kind, and their closures have code of the kind. -/
structure State.Closed (s : State) (kind : FrameId → Prop) (code : Expr → Prop) : Prop where
  outer {g o : FrameId} (hg : kind g) (ho : s.LiesIn g o) : kind o
  closure {g : FrameId} {x : String} {v : Value} {c : Closure} (hg : kind g)
    (hv : s.binding? g x = some v) (hc : v.Holds c) : code c.body ∧ kind c.frame

/-- Nothing leads out of what can be reached from a frame. -/
theorem State.closed_reachable (s : State) (f : FrameId)
    (h : ∀ c, s.ReachableClosure f c → code c.body) : s.Closed (s.Reachable f) code :=
  ⟨fun hg ho => .outer hg ho, fun hg hv hc => ⟨h _ (.bound hg hv hc), .captured hg hv hc⟩⟩

/-- States that have the frames of a kind in common are alike. -/
theorem states_within {s t : State} (hclosed : s.Closed kind code)
    (hsize : s.frames.size = t.frames.size) (hfresh : s.fresh = t.fresh)
    (hhosts : s.hosts = t.hosts) (houtput : s.output = t.output)
    (hframes : ∀ g, kind g → s.frames[g]? = t.frames[g]?)
    (hanswers : ∀ run ∈ s.hosts, (Likeness.within kind s.stage code code_item).Answers run run) :
    (Likeness.within kind s.stage code code_item).States s t := by
  refine Likeness.diagonal_within.states (fun hg ho => hclosed.outer hg ho) ?_ hsize hfresh hhosts
    houtput hframes hanswers
  intro g x v hg _ hv
  refine Value.alike_of_stays fun c hc => ?_
  have hkept := hclosed.closure hg hv hc
  exact ⟨hkept.1, .inl hkept.2⟩

end MiniLisp
