import MiniLisp.Proofs.Eval.Primitive
import MiniLisp.Proofs.History.Known
import MiniLisp.Proofs.Scope.Resolution

/-!
# Scopes in a history

Frames and closures refer to each other in cycles: a frame may bind a closure that has captured it.
The outer frames alone never do, for a frame lies in a frame made before it. So every way outward
ends at a root, whatever a host program does, and what was made stays as it was made
(`scopes_stay_well_formed`). All that is kept of the frames of a state in a later one is
`State.Later`.
-/

namespace MiniLisp

namespace State

variable {s : State} {f : FrameId} {way : List FrameId}

/-- All frames of `s` are in `t`, inside the same frames, and whatever else there is lies in frames
that exist. What the frames bind may be anything. -/
structure Later (s t : State) : Prop where
  links : s.links <+: t.links
  linked : t.Linked

theorem Later.lt_size {t : State} (h : s.Later t) (hf : f < s.frames.size) : f < t.frames.size := by
  rw [← length_links] at hf ⊢
  exact Nat.lt_of_lt_of_le hf h.links.length_le

/-- The way outward comes to no frame twice and ends at a frame that lies in no other. -/
structure EndsAtRoot (s : State) (f : FrameId) (way : List FrameId) : Prop where
  outward : s.Outward f way
  nodup : way.Nodup
  root : ∃ g frame, way.getLast? = some g ∧ s.frames[g]? = some frame ∧ frame.outer = none

section Falling

variable (hfall : ∀ f o : FrameId, s.LiesIn f o → o < f)

include hfall

theorem Outward.falls (h : s.Outward f way) : way.Pairwise (· > ·) ∧ ∀ g ∈ way, g ≤ f := by
  induction h with
  | missing => exact ⟨.nil, nofun⟩
  | root => exact ⟨List.pairwise_singleton _ _, fun g hg => (List.mem_singleton.mp hg).le⟩
  | @inner f o frame rest hframe ho _ ih =>
    obtain ⟨hpairs, hle⟩ := ih
    have ho : o < f := hfall f o ⟨frame, hframe, ho⟩
    have hrest : ∀ g ∈ rest, g < f := fun g hg => Nat.lt_of_le_of_lt (hle g hg) ho
    refine ⟨List.pairwise_cons.mpr ⟨hrest, hpairs⟩, fun g hg => ?_⟩
    rcases List.mem_cons.mp hg with rfl | hg
    · exact Nat.le_refl g
    · exact (hrest g hg).le

theorem Outward.root_of_lt (h : s.Outward f way) (hf : f < s.frames.size) :
    ∃ g frame, way.getLast? = some g ∧ s.frames[g]? = some frame ∧ frame.outer = none := by
  induction h with
  | missing h => exact absurd hf (Nat.not_lt.mpr (Array.getElem?_eq_none_iff.mp h))
  | root h ho => exact ⟨_, _, rfl, h, ho⟩
  | @inner f o frame rest hframe ho _ ih =>
    obtain ⟨g, frame', hlast, hroot⟩ := ih ((hfall f o ⟨frame, hframe, ho⟩).trans hf)
    refine ⟨g, frame', ?_, hroot⟩
    rw [List.getLast?_cons, hlast]
    rfl

theorem endsAtRoot_chain (hf : f < s.frames.size) : s.EndsAtRoot f (s.chain f) where
  outward := outward_chain (acyclic_of_lt hfall) f
  nodup := ((outward_chain (acyclic_of_lt hfall) f).falls hfall).1.imp Nat.ne_of_gt
  root := (outward_chain (acyclic_of_lt hfall) f).root_of_lt hfall hf

end Falling

end State

namespace World

variable {w w' : World} {x y : Situation}

theorem Covers.lt_of_liesIn (h : w.Covers x) {f o : FrameId} (ho : x.state.LiesIn f o) : o < f := by
  obtain ⟨frame, hframe, houter⟩ := ho
  refine h.sound.outward f o ?_
  rw [h.links, State.getElem?_links, hframe, Option.map_some, houter]

/-- Where more is known, all frames are there that were there, inside the same frames. -/
theorem Covers.outer_kept (h : w.Covers x) (h' : w'.Covers y) (hle : w ≤ w') {f : FrameId}
    {frame : Frame} (hframe : x.state.frames[f]? = some frame) :
    ∃ frame', y.state.frames[f]? = some frame' ∧ frame'.outer = frame.outer := by
  have hlink : w.links[f]? = some frame.outer := by
    rw [h.links, State.getElem?_links, hframe, Option.map_some]
  obtain ⟨later, hlater⟩ := hle.2
  have hlink' : w'.links[f]? = some frame.outer := by
    rw [← hlater, List.getElem?_append_left (List.getElem?_eq_some_iff.mp hlink).1, hlink]
  rw [h'.links, State.getElem?_links] at hlink'
  exact Option.map_eq_some_iff.mp hlink'

end World

/-- What a host program comes to is later than what it came from. -/
theorem Reached.later {x y : Situation} (hx : Reached x) (hxy : History x y) :
    x.state.Later y.state := by
  obtain ⟨w, hw⟩ := hx.known
  obtain ⟨w', hle, hw'⟩ := hw.history hxy
  refine ⟨?_, fun f o ho => ?_⟩
  · rw [← hw.links, ← hw'.links]
    exact hle.2
  · obtain ⟨frame, hframe, -⟩ := id ho
    exact (hw'.lt_of_liesIn ho).trans (State.lt_size_of_getElem? hframe)

namespace Situation

/-- Frames lie in frames that exist, and the ways outward end. Closures have captured frames that
exist, and the names of their parameters are pairwise different. -/
structure WellScoped (x : Situation) : Prop where
  outer : ∀ f o : FrameId, x.state.LiesIn f o → o < x.state.frames.size
  chain : ∀ f < x.state.frames.size, x.state.EndsAtRoot f (x.state.chain f)
  captured : ∀ c : Closure, x.Shows (.closure c) → c.frame < x.state.frames.size
  params : ∀ c : Closure, x.Shows (.closure c) → c.params.Nodup

/-- Frames are never removed nor put into other frames, and a closure never changes. -/
structure ScopesKept (x y : Situation) : Prop where
  outer : ∀ (f : FrameId) (frame : Frame), x.state.frames[f]? = some frame →
    ∃ frame', y.state.frames[f]? = some frame' ∧ frame'.outer = frame.outer
  closure : ∀ c d : Closure, x.Shows (.closure c) → y.Shows (.closure d) → c.id = d.id → c = d

end Situation

/-- Whatever a host program does, scopes are well formed, and stay as they were made. -/
theorem scopes_stay_well_formed {x : Situation} (hx : Reached x) :
    x.WellScoped ∧ ∀ y, History x y → x.ScopesKept y := by
  obtain ⟨w, hw⟩ := hx.known
  have hfall (f o : FrameId) (ho : x.state.LiesIn f o) : o < f := hw.lt_of_liesIn ho
  have hclosure (c : Closure) (hc : x.Shows (.closure c)) :
      c.frame < x.state.frames.size ∧ c.params.Nodup := by
    rw [← hw.length_links]
    exact hw.sound.closure c (hw.shows hc rfl)
  refine ⟨⟨fun f o ho => ?_, fun f hf => State.endsAtRoot_chain hfall hf,
    fun c hc => (hclosure c hc).1, fun c hc => (hclosure c hc).2⟩, fun y hxy => ⟨?_, ?_⟩⟩
  · obtain ⟨frame, hframe, -⟩ := id ho
    exact (hfall f o ho).trans (State.lt_size_of_getElem? hframe)
  · intro f frame hframe
    obtain ⟨w', hle, hw'⟩ := hw.history hxy
    exact hw.outer_kept hw' hle hframe
  · intro c d hc hd hid
    exact Value.closure.inj (hx.eq_of_id hxy hc hd rfl (congrArg some hid.symm))

/-- A frame that binds a closure that has captured it. -/
theorem scopes_stay_well_formed_cycle :
    let c : Closure := ⟨0, ["x"], .list [.symbol "f", .symbol "x"], 0⟩
    let x : Situation :=
      ⟨{ State.empty.addFrame (.empty none) with fresh := 1 }.define 0 "f" (.closure c),
        {.closure c}⟩
    Reached x ∧ c.frame < x.state.frames.size ∧ x.state.EndsAtRoot 0 (x.state.chain 0) ∧
      ∀ y, History x y → ∀ d : Closure, y.Shows (.closure d) → d.id = 0 → d = c := by
  intro c x
  have hlambda : (Call.eval (.list [.symbol "lambda", .list [.symbol "x"], c.body]) 0 0).outcome
      (State.empty.addFrame (.empty none)) =
        (.ok (.closure c), { State.empty.addFrame (.empty none) with fresh := 1 }) :=
    Call.outcome_eq_iff.mpr ⟨1, rfl⟩
  have hx : Reached x := by
    have hroot : Reached ⟨State.empty.addFrame (.empty none), ∅⟩ := .single .root
    have hmade := hroot.tail (.of_outcome (c := .eval _ 0 0) Nat.one_pos hlambda)
    refine hmade.tail ?_
    rw [insert_empty_eq]
    exact .define 0 "f" (Set.mem_singleton _)
  have hc : x.Shows (.closure c) := .held (Set.mem_singleton _) .self
  obtain ⟨hscoped, hkept⟩ := scopes_stay_well_formed hx
  refine ⟨hx, hscoped.captured c hc, hscoped.chain 0 (hscoped.captured c hc), ?_⟩
  exact fun y hxy d hd hid => ((hkept y hxy).closure c d hc hd hid.symm).symm

end MiniLisp
