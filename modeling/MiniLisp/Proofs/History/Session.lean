import MiniLisp.Proofs.History.Known

/-!
# Sessions are histories

What a session does step by step is a history, as long as the procedures that it registers hand on
what they are handed (`Session.reached_after`). So what holds of all that a host program may come to
holds of all sessions.
-/

namespace MiniLisp

theorem Reached.size_le {x y : Situation} (hx : Reached x) (hxy : History x y) :
    x.state.frames.size ≤ y.state.frames.size := by
  obtain ⟨w, hw⟩ := hx.known
  obtain ⟨w', hle, hw'⟩ := hw.history hxy
  have hlength := hle.2.length_le
  rwa [hw.length_links, hw'.length_links] at hlength

/-- The host program comes to the outcome and keeps what it holds. If there is a result, it comes
to hold the values of that result too. -/
def Situation.Brings {α : Type} (x : Situation) (values : α → Set Value) (out : Outcome α) : Prop :=
  ∃ hand, x.hand ⊆ hand ∧ History x ⟨out.2, hand⟩ ∧ ∀ a, out.1 = .ok a → values a ⊆ hand

namespace Situation.Brings

variable {α β : Type} {x : Situation} {f : FrameId} {values : α → Set Value}
  {values' : β → Set Value} {a : α} {s : State}

/-- A value is held as it is. -/
abbrev oneValue (v : Value) : Set Value := {v}

abbrev allValues (vs : List Value) : Set Value := {v | v ∈ vs}

/-- Responses are read and not held. -/
abbrev noValues (_ : Response) : Set Value := ∅

theorem here (h : values a ⊆ x.hand) : x.Brings values (.ok a, x.state) :=
  ⟨x.hand, Set.Subset.rfl, .refl, fun b hb => by cases hb; exact h⟩

theorem done {t : State} (h : Advance x ⟨t, x.hand⟩) (r : Except Error Response) :
    x.Brings noValues (r, t) :=
  ⟨x.hand, Set.Subset.rfl, .single h, fun _ _ => Set.empty_subset _⟩

theorem call {c : Call} (hc : x.MayMake c) : x.Brings oneValue (c.outcome x.state) :=
  ⟨_, Set.subset_union_left, .single (.call hc),
    fun _ hv => Set.singleton_subset_iff.mpr (.inr hv)⟩

theorem apply {p : Value} (hp : p ∈ x.hand) {args : List Value} (hargs : ∀ v ∈ args, v ∈ x.hand) :
    x.Brings oneValue (x.state.apply p args) :=
  call (c := .apply p args 0) ⟨hp, hargs⟩

/-- What is made of the result does not matter to the state. -/
theorem map {out : Outcome α} {k : α → Response} (h : x.Brings values out) :
    x.Brings noValues (Outcome.map k out) := by
  obtain ⟨hand, hsubset, hhistory, -⟩ := h
  exact ⟨hand, hsubset, hhistory, fun _ _ => Set.empty_subset _⟩

theorem error {e : Error} (h : x.Brings values (.error e, s)) : x.Brings values' (.error e, s) := by
  obtain ⟨hand, hsubset, hhistory, -⟩ := h
  exact ⟨hand, hsubset, hhistory, nofun⟩

/-- Where there is a result, one goes on from there. -/
theorem andThen (h : x.Brings values (.ok a, s)) {out : Outcome β}
    (hout : ∀ hand, x.hand ⊆ hand → History x ⟨s, hand⟩ → values a ⊆ hand →
      Brings ⟨s, hand⟩ values' out) : x.Brings values' out := by
  obtain ⟨hand, hsubset, hhistory, hvalues⟩ := h
  obtain ⟨hand', hsubset', hhistory', hvalues'⟩ := hout hand hsubset hhistory (hvalues a rfl)
  exact ⟨hand', hsubset.trans hsubset', hhistory.trans hhistory', hvalues'⟩

theorem evalText (hf : f < x.state.frames.size) (source : String) (strict : Bool) :
    x.Brings oneValue (x.state.evalText f source strict) := by
  unfold State.evalText
  split
  · exact ⟨x.hand, Set.Subset.rfl, .refl, nofun⟩
  · rename_i e _
    exact call (c := .eval e f 0) hf

theorem evalTexts (hx : Reached x) (hf : f < x.state.frames.size) (sources : List String) :
    x.Brings allValues (x.state.evalTexts f sources) := by
  induction sources generalizing x with
  | nil => exact here nofun
  | cons source rest ih =>
    have hfirst := evalText hf source false
    rw [State.evalTexts]
    generalize x.state.evalText f source false = out at hfirst ⊢
    obtain ⟨e | v, s⟩ := out
    · exact hfirst.error
    · refine hfirst.andThen fun hand _ hxs hv => ?_
      have hrest := ih (x := ⟨s, hand⟩) (hx.trans hxs) (hf.trans_le (hx.size_le hxs))
      simp only
      generalize s.evalTexts f rest = out at hrest ⊢
      obtain ⟨e | vs, t⟩ := out
      · exact hrest.error
      · refine hrest.andThen fun hand' hsubset _ hvs => here (x := ⟨t, hand'⟩) ?_
        exact List.forall_mem_cons.mpr ⟨hsubset (Set.singleton_subset_iff.mp hv), hvs⟩

/-- A value is evaluated, and what is done with it then goes on from there. -/
theorem withValue (hf : f < x.state.frames.size) (source : String)
    {k : Value → State → Outcome Response}
    (hk : ∀ (v : Value) (y : Situation), History x y → v ∈ y.hand →
      y.Brings noValues (k v y.state)) : x.Brings noValues (x.state.withValue f source k) := by
  have hvalue := evalText hf source false
  unfold State.withValue
  generalize x.state.evalText f source false = out at hvalue ⊢
  obtain ⟨e | v, s⟩ := out
  · exact hvalue.error
  · exact hvalue.andThen fun hand _ hxs hv => hk v ⟨s, hand⟩ hxs (Set.singleton_subset_iff.mp hv)

theorem withValues (hx : Reached x) (hf : f < x.state.frames.size) (sources : List String)
    {k : List Value → State → Outcome Response}
    (hk : ∀ (vs : List Value) (y : Situation), x.hand ⊆ y.hand → (∀ v ∈ vs, v ∈ y.hand) →
      y.Brings noValues (k vs y.state)) : x.Brings noValues (x.state.withValues f sources k) := by
  have hvalues := evalTexts hx hf sources
  unfold State.withValues
  generalize x.state.evalTexts f sources = out at hvalues ⊢
  obtain ⟨e | vs, s⟩ := out
  · exact hvalues.error
  · exact hvalues.andThen fun hand hsubset _ hvs => hk vs ⟨s, hand⟩ hsubset hvs

end Situation.Brings

/-- The procedures that the step registers hand on what they are handed. -/
def Step.HandsOn : Step → Prop
  | register _ _ entry => MiniLisp.HandsOn entry.run
  | _ => True

namespace Session

/-- A host program may come to hold the values in the state of the session, and it holds only frames
that exist. -/
structure Reached (x : Session) (hand : Set Value) : Prop where
  situation : MiniLisp.Reached ⟨x.state, hand⟩
  frames : ∀ index, x.frameAt index < x.state.frames.size

variable {x : Session} {hand : Set Value}

open Situation

/-- A step that makes no frame for the host program. -/
theorem Reached.leave (h : x.Reached hand) {out : Outcome Response}
    (hout : Situation.Brings ⟨x.state, hand⟩ Brings.noValues out) :
    ∃ hand', (x.leave out).2.Reached hand' := by
  obtain ⟨hand', -, hhistory, -⟩ := hout
  refine ⟨hand', h.situation.trans hhistory, fun index => ?_⟩
  exact (h.frames index).trans_le (h.situation.size_le hhistory)

/-- A step that makes a frame for the host program. -/
theorem Reached.hold (h : x.Reached hand) {frame : Frame}
    (hstep : Advance ⟨x.state, hand⟩ ⟨x.state.addFrame frame, hand⟩) :
    ∃ hand', (x.hold frame).2.Reached hand' := by
  refine ⟨hand, h.situation.tail hstep, fun index => ?_⟩
  have hsize : (x.state.addFrame frame).frames.size = x.state.frames.size + 1 := Array.size_push _
  have hold : x.held[index]?.getD 0 < x.state.frames.size := h.frames index
  simp only [frameAt, Session.hold, hsize, Array.getElem?_push]
  by_cases hindex : index = x.held.size
  · rw [if_pos hindex]
    exact Nat.lt_succ_self _
  · rw [if_neg hindex]
    exact Nat.lt_succ_of_lt hold

/-- Each step of a session goes on with the history. -/
theorem Reached.perform (h : x.Reached hand) {step : Step} (hstep : step.HandsOn) :
    ∃ hand', (x.perform step).2.Reached hand' := by
  have hsame : ∃ hand', x.Reached hand' := ⟨hand, h⟩
  cases step with
  | eval index source strict => exact h.leave (.map (.evalText (h.frames index) source strict))
  | lookup index name =>
    simp only [Session.perform]
    split
    · exact hsame
    · exact hsame
  | define index name source =>
    exact h.leave <| .withValue (h.frames index) source fun v y _ hv => .done (.define _ name hv) _
  | assign index name source =>
    exact h.leave <| .withValue (h.frames index) source fun v y _ hv => .done (.assign _ name hv) _
  | apply index source args =>
    refine h.leave <| .withValue (h.frames index) source fun p y hxy hp => ?_
    exact .withValues (h.situation.trans hxy)
      ((h.frames index).trans_le (h.situation.size_le hxy)) args
      fun vs z hyz hvs => .map (.apply (hyz hp) hvs)
  | bindings => exact hsame
  | names => exact hsame
  | teardown index => exact h.leave (.done (.teardown _) _)
  | root => exact h.hold .root
  | standard => exact h.hold .standard
  | child index => exact h.hold (.child (h.frames index))
  | register index name entry =>
    exact h.leave (.done (.register _ name entry.arity (hstep.handsOut hand)) _)

theorem Reached.output (h : x.Reached hand) (text : String) :
    Session.Reached { x with state.output := text } hand :=
  ⟨h.situation.tail (.output text), h.frames⟩

/-- The session after all steps. -/
def after (x : Session) (steps : List Step) : Session :=
  steps.foldl (fun x step => (x.step step).2) x

theorem after_nil (x : Session) : x.after [] = x := rfl

theorem after_cons (x : Session) (step : Step) (rest : List Step) :
    x.after (step :: rest) = (x.step step).2.after rest := rfl

theorem after_append (x : Session) (before after : List Step) :
    x.after (before ++ after) = (x.after before).after after := List.foldl_append

/-- All that a session comes to a host program may come to. -/
theorem reached_after (steps : List Step) (h : ∀ step ∈ steps, step.HandsOn) :
    ∃ hand, (start.after steps).Reached hand := by
  have hrun : ∀ (x : Session) (hand : Set Value), x.Reached hand →
      ∃ hand', (x.after steps).Reached hand' := by
    induction steps with
    | nil => exact fun x hand hx => ⟨hand, hx⟩
    | cons first rest ih =>
      intro x hand hx
      obtain ⟨hand', hx'⟩ := (hx.output "").perform (h first (.head _))
      exact ih (fun step hstep => h step (.tail _ hstep)) _ hand' (hx'.output "")
  refine hrun start ∅ ⟨.single .standard, fun index => ?_⟩
  cases index with
  | zero => exact Nat.one_pos
  | succ => exact Nat.one_pos

end Session

end MiniLisp
