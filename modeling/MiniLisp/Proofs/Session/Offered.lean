import MiniLisp.Proofs.History.Offered
import MiniLisp.Proofs.History.Session

/-!
# Procedures in sessions

All builtin procedures that a session comes to find are offered by what it has registered so far
(`Session.offers_after`): standard frames bind those of the language, a registration binds the one
that it offers, and evaluation finds no other ones.
-/

namespace MiniLisp

variable {R : List Registration} {s : State} {f : FrameId}

theorem Frame.offered_standard {x : String} {v : Value}
    (h : Frame.standard.bindings[x]? = some v) : v.Offered R := by
  rcases List.mem_append.mp (mem_of_getElem?_ofList h) with h | h
  · obtain ⟨b, hb, heq⟩ := List.mem_map.mp h
    cases heq
    exact Value.offered_builtin (.language hb)
  · obtain ⟨c, -, heq⟩ := List.mem_map.mp h
    cases heq
    exact (Value.inheritable_offered R).plain trivial

namespace State.Offers

theorem define (h : s.Offers R) (hR : HandOver R) (f : FrameId) (x : String) {v : Value}
    (hv : v.Offered R) : (s.define f x v).Offers R :=
  h.of_holds ((h.holds hR).define f x hv) rfl

theorem assign (h : s.Offers R) (hR : HandOver R) (f : FrameId) (x : String) {v : Value}
    (hv : v.Offered R) : (s.assign f x v).2.Offers R := by
  refine h.of_holds ((h.holds hR).assign f x hv) ?_
  unfold State.assign
  split <;> rfl

theorem teardown (h : s.Offers R) (hR : HandOver R) (f : FrameId) : (s.teardown f).Offers R :=
  h.of_holds ((h.holds hR).teardown f) rfl

theorem withOutput (h : s.Offers R) (text : String) : State.Offers R { s with output := text } :=
  ⟨h.bound, h.hosts⟩

theorem addFrame (h : s.Offers R) (hR : HandOver R) {frame : Frame}
    (hframe : ∀ (x : String) (v : Value), frame.bindings[x]? = some v → v.Offered R) :
    (s.addFrame frame).Offers R :=
  h.of_holds ((h.holds hR).addFrame le_rfl hframe trivial) rfl

theorem register (h : s.Offers R) (f : FrameId) (name : String) (entry : Entry) :
    (s.register f name entry.arity entry.run).Offers (R ++ [(name, entry)]) where
  bound g x v hv := by
    rw [State.register, binding?_define] at hv
    split at hv
    · obtain ⟨frame, -, rfl⟩ := Option.map_eq_some_iff.mp hv
      have hsize : s.hosts.size = R.length := by
        rw [← Array.length_toList, h.hosts, List.length_map]
      refine Value.offered_builtin ?_
      rw [hsize]
      exact .registered (by simp)
    · exact (h.bound g x v hv).append _
  hosts := by
    change (s.hosts.push entry.run).toList = _
    rw [Array.toList_push, h.hosts, List.map_append]
    rfl

theorem evalText (h : s.Offers R) (hR : HandOver R) (f : FrameId) (source : String)
    (strict : Bool) : (s.evalText f source strict).2.Offers R ∧
      ∀ v, (s.evalText f source strict).1 = .ok v → v.Offered R := by
  unfold State.evalText
  split
  · exact ⟨h, nofun⟩
  · rename_i e _
    obtain ⟨hstate, hvalue, -⟩ := h.outcome hR (c := .eval e f 0) trivial
    exact ⟨hstate, hvalue⟩

theorem evalTexts (h : s.Offers R) (hR : HandOver R) (f : FrameId) (sources : List String) :
    (s.evalTexts f sources).2.Offers R ∧
      ∀ vs, (s.evalTexts f sources).1 = .ok vs → Value.All (Value.Offered R) vs := by
  induction sources generalizing s with
  | nil =>
    refine ⟨h, fun vs hvs => ?_⟩
    cases hvs
    exact fun v hv => (by cases hv)
  | cons source rest ih =>
    obtain ⟨hstate, hvalue⟩ := h.evalText hR f source false
    rw [State.evalTexts]
    generalize s.evalText f source false = out at hstate hvalue ⊢
    obtain ⟨e | v, t⟩ := out
    · exact ⟨hstate, fun vs hvs => by cases hvs⟩
    · obtain ⟨hrest, hvalues⟩ := ih hstate
      simp only
      generalize t.evalTexts f rest = out at hrest hvalues ⊢
      obtain ⟨e | vs, t'⟩ := out
      · exact ⟨hrest, fun vs hvs => by cases hvs⟩
      · refine ⟨hrest, fun ws hws => ?_⟩
        cases hws
        exact List.forall_mem_cons.mpr ⟨hvalue v rfl, hvalues vs rfl⟩

theorem withValue (h : s.Offers R) (hR : HandOver R) (f : FrameId) (source : String)
    {k : Value → State → Outcome Response}
    (hk : ∀ v t, v.Offered R → t.Offers R → (k v t).2.Offers R) :
    (s.withValue f source k).2.Offers R := by
  obtain ⟨hstate, hvalue⟩ := h.evalText hR f source false
  unfold State.withValue
  generalize s.evalText f source false = out at hstate hvalue ⊢
  obtain ⟨e | v, t⟩ := out
  · exact hstate
  · exact hk v t (hvalue v rfl) hstate

theorem withValues (h : s.Offers R) (hR : HandOver R) (f : FrameId) (sources : List String)
    {k : List Value → State → Outcome Response}
    (hk : ∀ vs t, Value.All (Value.Offered R) vs → t.Offers R → (k vs t).2.Offers R) :
    (s.withValues f sources k).2.Offers R := by
  obtain ⟨hstate, hvalues⟩ := h.evalTexts hR f sources
  unfold State.withValues
  generalize s.evalTexts f sources = out at hstate hvalues ⊢
  obtain ⟨e | vs, t⟩ := out
  · exact hstate
  · exact hk vs t (hvalues vs rfl) hstate

end State.Offers

/-- What the step registers. -/
def Step.registrations : Step → List Registration
  | register _ name entry => [(name, entry)]
  | _ => []

namespace Session

variable {x : Session}

def registrations (steps : List Step) : List Registration := steps.flatMap Step.registrations

theorem offers_map {α : Type} {out : Outcome α} (h : out.2.Offers R) (k : α → Response) :
    (out.map k).2.Offers R := h

/-- A step that registers nothing, and makes no frame for the host program. -/
theorem offers_leave {out : Outcome Response} (h : out.2.Offers R) :
    (x.leave out).2.state.Offers (R ++ []) := by
  rw [List.append_nil]
  exact h

theorem offers_hold (h : x.state.Offers R) (hR : HandOver R) {frame : Frame}
    (hframe : ∀ (y : String) (v : Value), frame.bindings[y]? = some v → v.Offered R) :
    (x.hold frame).2.state.Offers (R ++ []) := by
  rw [List.append_nil]
  exact h.addFrame hR hframe

theorem offers_perform (h : x.state.Offers R) (hR : HandOver R) (step : Step) :
    (x.perform step).2.state.Offers (R ++ step.registrations) := by
  have hsame : x.state.Offers (R ++ []) := by rwa [List.append_nil]
  have hempty (outer : Option FrameId) (y : String) (v : Value)
      (hv : (Frame.empty outer).bindings[y]? = some v) : v.Offered R := by
    simp [Frame.empty] at hv
  cases step with
  | eval frame source strict => exact offers_leave (offers_map (h.evalText hR _ source strict).1 _)
  | lookup frame name =>
    simp only [perform]
    split
    · exact hsame
    · exact hsame
  | define frame name source =>
    exact offers_leave (h.withValue hR _ source fun v t hv ht => ht.define hR _ name hv)
  | assign frame name source =>
    refine offers_leave (h.withValue hR _ source fun v t hv ht => ?_)
    exact offers_map (ht.assign hR _ name hv) _
  | apply frame source args =>
    refine offers_leave (h.withValue hR _ source fun p t hp ht => ?_)
    refine ht.withValues hR _ args fun vs t' hvs ht' => offers_map ?_ _
    exact (ht'.outcome hR (c := .apply p vs 0) ⟨hp, hvs⟩).1
  | bindings => exact hsame
  | names => exact hsame
  | teardown frame => exact offers_leave (h.teardown hR _)
  | root => exact offers_hold h hR (hempty none)
  | standard => exact offers_hold h hR fun _ _ => Frame.offered_standard
  | child frame => exact offers_hold h hR (hempty _)
  | register frame name entry => exact h.register _ name entry

theorem offers_start : start.state.Offers [] := by
  have hempty : State.empty.Offers [] :=
    ⟨fun f y v hv => by simp [State.empty, State.binding?] at hv, rfl⟩
  exact hempty.addFrame (fun r hr => by cases hr) fun _ _ => Frame.offered_standard

/-- A session finds no procedures but those that its registrations offer. -/
theorem offers_after (h : x.state.Offers R) (steps : List Step)
    (hR : HandOver (R ++ registrations steps)) :
    (x.after steps).state.Offers (R ++ registrations steps) := by
  induction steps generalizing x R with
  | nil => rwa [registrations, List.flatMap_nil, List.append_nil]
  | cons first rest ih =>
    have hcons : R ++ registrations (first :: rest) =
        (R ++ first.registrations) ++ registrations rest := by
      rw [registrations, List.flatMap_cons, List.append_assoc]
      rfl
    rw [hcons] at hR ⊢
    have hfirst : HandOver R := fun r hr =>
      hR r (List.mem_append_left _ (List.mem_append_left _ hr))
    exact ih ((offers_perform (h.withOutput "") hfirst first).withOutput "") hR

end Session

end MiniLisp
