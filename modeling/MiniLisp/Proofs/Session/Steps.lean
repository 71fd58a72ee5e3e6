import MiniLisp.Proofs.Session.Renaming

/-!
# Steps of sessions up to numbers

Performing the same step in linked states comes to the same: the answers differ in numbers only,
the states are linked again, and frames that do not belong to the session stay as they are
(`Link.perform_alike`). A step may only speak of frames that the session holds, and may register
only host functions that answer alike to arguments that differ in numbers only.
-/

namespace MiniLisp

section Requests

variable {L : Likeness} {W : Watch L} {st : Stage} {f g : FrameId} {α : Type}

/-- A request as a computation, which always ends. -/
def Eval.ofOutcome (o : State → Outcome α) : Eval α := fun s => some (o s)

/-- All code may be evaluated everywhere, and all bindings are compared. -/
structure Watch.Open (W : Watch L) : Prop where
  code (e : Expr) : L.code e
  task (e : Expr) (f : FrameId) : W.task e f
  name (x : String) : L.name x

namespace Watch.Relates

open Eval

theorem evalText (hW : W.Open) (hf : L.frame.Upto st.frames f g) (source : String)
    (strict : Bool) :
    W.Relates st (Value.Alike L) (ofOutcome fun s => s.evalText f source strict)
      (ofOutcome fun s => s.evalText g source strict) := by
  intro s t hst hstates hholds
  unfold ofOutcome State.evalText
  cases Expr.parse source strict with
  | error e =>
    exact .some ⟨le_refl _, ⟨rfl, rfl⟩, hstates, hholds, .error (L.error_of_silent trivial)⟩
  | ok e =>
    have hcall : (Call.eval e f 0).Alike W s.stage (.eval e g 0) :=
      .eval (hW.code e) (hf.mono hst.1) (hW.task e f)
    exact .some (Call.outcome_relates W hstates hholds hcall)

theorem apply {p q : Value} (hp : p.Alike L st q) {vs ws : List Value}
    (hargs : Value.AllAlike L st vs ws) :
    W.Relates st (Value.Alike L) (ofOutcome fun s => s.apply p vs)
      (ofOutcome fun s => s.apply q ws) := by
  intro s t hst hstates hholds
  have hcall : (Call.apply p vs 0).Alike W s.stage (.apply q ws 0) :=
    .apply (hp.mono hst) (hargs.mono hst)
  exact .some (Call.outcome_relates W hstates hholds hcall)

/-- What is made of a result depends on nothing else. -/
theorem relates_map {β γ δ : Type} {V : Stage → α → β → Prop} {V' : Stage → γ → δ → Prop}
    {o : State → Outcome α} {o' : State → Outcome β}
    (h : W.Relates st V (ofOutcome o) (ofOutcome o')) {k : α → γ} {k' : β → δ}
    (hk : ∀ st a b, V st a b → V' st (k a) (k' b)) :
    W.Relates st V' (ofOutcome fun s => (o s).map k) (ofOutcome fun s => (o' s).map k') := by
  intro s t hst hstates hholds
  have hends := h s t hst hstates hholds
  cases hends with
  | some hends => exact .some ⟨hends.grown, hends.hosts, hends.states, hends.watched,
      hends.agrees.map fun _ _ => hk _ _ _⟩

theorem ofOutcome_withValue (f : FrameId) (source : String)
    (k : Value → State → Outcome Response) :
    ofOutcome (fun s => s.withValue f source k) =
      ofOutcome (fun s => s.evalText f source false) >>= fun v => ofOutcome (k v) := by
  funext s
  simp only [bind_apply, ofOutcome, State.withValue]
  rcases s.evalText f source false with ⟨e | v, t⟩
  · rfl
  · rfl

theorem withValue (hW : W.Open) (hf : L.frame.Upto st.frames f g) (source : String)
    {k k' : Value → State → Outcome Response}
    (hk : ∀ st' v w, st ≤ st' → v.Alike L st' w →
      W.Relates st' (Response.Alike L) (ofOutcome (k v)) (ofOutcome (k' w))) :
    W.Relates st (Response.Alike L) (ofOutcome fun s => s.withValue f source k)
      (ofOutcome fun s => s.withValue g source k') := by
  rw [ofOutcome_withValue, ofOutcome_withValue]
  exact (evalText hW hf source false).bind hk

theorem ofOutcome_evalTexts_cons (f : FrameId) (source : String) (rest : List String) :
    ofOutcome (fun s => s.evalTexts f (source :: rest)) =
      ofOutcome (fun s => s.evalText f source false) >>= fun v =>
        ofOutcome (fun s => s.evalTexts f rest) >>= fun vs => pure (v :: vs) := by
  funext s
  simp only [bind_apply, ofOutcome, State.evalTexts]
  rcases s.evalText f source false with ⟨e | v, t⟩
  · rfl
  · simp only
    rcases t.evalTexts f rest with ⟨e | vs, u⟩
    · rfl
    · rfl

theorem evalTexts (hW : W.Open) (hf : L.frame.Upto st.frames f g) (sources : List String) :
    W.Relates st (Value.AllAlike L) (ofOutcome fun s => s.evalTexts f sources)
      (ofOutcome fun s => s.evalTexts g sources) := by
  induction sources generalizing st with
  | nil => exact ret fun _ _ => .nil
  | cons source rest ih =>
    rw [ofOutcome_evalTexts_cons, ofOutcome_evalTexts_cons]
    refine (evalText hW hf source false).bind fun st₁ v w hst₁ hv => ?_
    refine (ih (hf.mono hst₁.1)).bind fun st₂ vs ws hst₂ hvs => ?_
    exact ret fun _ hst₃ => .cons (hv.mono (hst₂.trans hst₃)) (hvs.mono hst₃)

theorem ofOutcome_withValues (f : FrameId) (sources : List String)
    (k : List Value → State → Outcome Response) :
    ofOutcome (fun s => s.withValues f sources k) =
      ofOutcome (fun s => s.evalTexts f sources) >>= fun vs => ofOutcome (k vs) := by
  funext s
  simp only [bind_apply, ofOutcome, State.withValues]
  rcases s.evalTexts f sources with ⟨e | vs, t⟩
  · rfl
  · rfl

theorem withValues (hW : W.Open) (hf : L.frame.Upto st.frames f g) (sources : List String)
    {k k' : List Value → State → Outcome Response}
    (hk : ∀ st' vs ws, st ≤ st' → Value.AllAlike L st' vs ws →
      W.Relates st' (Response.Alike L) (ofOutcome (k vs)) (ofOutcome (k' ws))) :
    W.Relates st (Response.Alike L) (ofOutcome fun s => s.withValues f sources k)
      (ofOutcome fun s => s.withValues g sources k') := by
  rw [ofOutcome_withValues, ofOutcome_withValues]
  exact (evalTexts hW hf sources).bind hk

end Watch.Relates

end Requests

namespace Link

variable {s t : State}

/-- What performing the same step in linked states comes to. -/
structure After (k : Link s t) (a b : Except Error Response × Session) : Prop where
  answer : a.1.map Response.anonymous = b.1.map Response.anonymous
  output : a.2.state.output = b.2.state.output
  others : s.KeepsOthers k.likeness a.2.state
  fresh : s.fresh ≤ a.2.state.fresh
  hosts {i : Nat} {run : HostFunction} : s.hosts[i]? = some run → a.2.state.hosts[i]? = some run
  linked : ∃ k' : Link a.2.state b.2.state,
    (∀ f g, k'.frame.old f g → k.frame.old f g ∨ s.frames.size ≤ f) ∧
    List.Forall₂ k'.frame.old a.2.held.toList b.2.held.toList

/-- Watches the frames that do not belong to the session. -/
abbrev watch (k : Link s t) : Watch k.likeness := 
  .others k.likeness s (fun _ => trivial) k.frameStarts.left

theorem watch_open (k : Link s t) : k.watch.Open :=
  ⟨fun _ => trivial, fun _ _ => trivial, fun _ => trivial⟩

theorem answer_eq_of_agrees {L : Likeness} {st : Stage} {r r' : Except Error Response}
    (h : L.Agrees (Response.Alike L st) r r') :
    r.map Response.anonymous = r'.map Response.anonymous := by
  cases h with
  | error => rfl
  | ok h => exact congrArg Except.ok h.anonymous_eq

variable {held held' : Array FrameId}

theorem after_of_ends (k : Link s t) (hheld : List.Forall₂ k.frame.old held.toList held'.toList)
    {o o' : Outcome Response} (h : k.watch.Ends s t (Response.Alike k.likeness) o o') :
    k.After ((⟨s, held⟩ : Session).leave o) ((⟨t, held'⟩ : Session).leave o') where
  answer := answer_eq_of_agrees h.agrees
  output := h.states.output
  others := h.watched
  fresh := h.grown.2
  hosts hi := by
    rw [← hi]
    exact congrArg (·[_]?) h.hosts.1
  linked := by
    refine ⟨k.advance h.states h.hosts.1 h.hosts.2, fun f g hf => ?_, hheld.imp fun _ _ => .inl⟩
    rcases hf with hold | ⟨hleft, -, -⟩
    · exact .inl hold
    · exact .inr (k.frameStarts.left ▸ hleft)

theorem after_of_relates (k : Link s t) (houtput : s.output = t.output)
    (hheld : List.Forall₂ k.frame.old held.toList held'.toList)
    {o o' : State → Outcome Response}
    (h : k.watch.Relates s.stage (Response.Alike k.likeness) (Eval.ofOutcome o)
      (Eval.ofOutcome o')) :
    k.After ((⟨s, held⟩ : Session).leave (o s)) ((⟨t, held'⟩ : Session).leave (o' t)) := by
  have hends := h s t (le_refl _) (k.states houtput) (.refl _ s)
  cases hends with
  | some hends => exact k.after_of_ends hheld hends

theorem after_of_same (k : Link s t) (houtput : s.output = t.output)
    (hheld : List.Forall₂ k.frame.old held.toList held'.toList) {r r' : Except Error Response}
    (h : k.likeness.Agrees (Response.Alike k.likeness s.stage) r r') :
    k.After (r, ⟨s, held⟩) (r', ⟨t, held'⟩) := by
  have hends : k.watch.Ends s t (Response.Alike k.likeness) (r, s) (r', t) :=
    ⟨le_refl _, ⟨rfl, rfl⟩, k.states houtput, .refl _ s, h⟩
  exact k.after_of_ends hheld hends

/-- The host program makes a frame of its own. -/
theorem after_hold (k : Link s t) (houtput : s.output = t.output)
    (hheld : List.Forall₂ k.frame.old held.toList held'.toList) {a b : Frame}
    (hab : a.Alike k.likeness s.stage b) :
    k.After ((⟨s, held⟩ : Session).hold a) ((⟨t, held'⟩ : Session).hold b) where
  answer := by
    have hsize : held.size = held'.size := by simpa using hheld.length_eq
    simp [Session.hold, hsize]
  output := houtput
  others := (State.KeepsOthers.refl _ s).addFrame a
  fresh := Nat.le_refl _
  hosts hi := hi
  linked := by
    have hstates := (k.states houtput).addFrame hab
    refine ⟨k.advance hstates rfl rfl, fun f g hf => ?_, ?_⟩
    · rcases hf with hold | ⟨hleft, -, -⟩
      · exact .inl hold
      · exact .inr (k.frameStarts.left ▸ hleft)
    · have hnew : k.frame.Upto (s.addFrame a).frames.size s.frames.size t.frames.size := by
        simpa [State.addFrame] using k.frameStarts.inStep.upto
      simp only [Session.hold, Array.toList_push]
      exact List.rel_append (hheld.imp fun _ _ => .inl) (.cons hnew .nil)

theorem getElem?_push_of_eq_some {α : Type} {as : Array α} {i : Nat} {a : α}
    (h : as[i]? = some a) (last : α) : (as.push last)[i]? = some a := by
  have hlt := (Array.getElem?_eq_some_iff.mp h).1
  rw [Array.getElem?_push, if_neg (Nat.ne_of_lt hlt), h]

/-- The states with one more host function in each belong together in the same way. -/
def withHost (k : Link s t) (run : HostFunction) (huniform : Uniform run) :
    Link { s with hosts := s.hosts.push run } { t with hosts := t.hosts.push run } where
  frame := k.frame
  id := k.id
  host i j := k.host i j ∨ i = s.hosts.size ∧ j = t.hosts.size
  frameStarts := k.frameStarts
  idStarts := k.idStarts
  frames hf := rel_imp (k.frames hf) fun _ _ h =>
    frame_grow h (fun _ => trivial)
      ⟨fun hf => hf, fun hid => hid, .inl, fun h => h, fun h => h, fun h => h⟩
  hosts {i j} hi := by
    rcases hi with hi | ⟨rfl, rfl⟩
    · obtain ⟨run', hleft, hright, huniform'⟩ := k.hosts hi
      exact ⟨run', getElem?_push_of_eq_some hleft run,
        getElem?_push_of_eq_some hright run, huniform'⟩
    · exact ⟨run, Array.getElem?_push_size, Array.getElem?_push_size, huniform⟩

/-- The host program registers a procedure. -/
theorem after_register (k : Link s t) (houtput : s.output = t.output)
    (hheld : List.Forall₂ k.frame.old held.toList held'.toList) {f g : FrameId}
    (hf : k.frame.old f g) (name : String) (arity : Arity) {run : HostFunction}
    (huniform : Uniform run) :
    k.After ((⟨s, held⟩ : Session).leave (.ok .done, s.register f name arity run))
      ((⟨t, held'⟩ : Session).leave (.ok .done, t.register g name arity run)) where
  answer := rfl
  output := houtput
  others := by
    have hdefine := (State.KeepsOthers.refl k.likeness s).modify k.frameStarts.left (.inl hf)
      fun frame => { frame with
        bindings := frame.bindings.insert name (.builtin ⟨name, arity, .host s.hosts.size⟩) }
    exact ⟨hdefine.size, hdefine.frame⟩
  fresh := Nat.le_refl _
  hosts {i run'} hi := by
    simp only [Session.leave, State.register, State.define]
    exact getElem?_push_of_eq_some hi run
  linked := by
    let k' := k.withHost run huniform
    have hprocedure : (Value.builtin ⟨name, arity, .host s.hosts.size⟩).Alike k'.likeness s.stage
        (.builtin ⟨name, arity, .host t.hosts.size⟩) := .builtin trivial (.host (.inr ⟨rfl, rfl⟩))
    have hstates := (k'.states houtput).define (x := name) (.inl hf) hprocedure
    refine ⟨k'.advance hstates rfl rfl, fun f g hf => ?_, hheld.imp fun _ _ => .inl⟩
    rcases hf with hold | ⟨hleft, -, -⟩
    · exact .inl hold
    · exact .inr (k.frameStarts.left ▸ hleft)

end Link

/-- The step speaks of frames among the first `count`, and registers only host functions that look
at numbers only to tell them apart. -/
def Step.Fits (count : Nat) : Step → Prop
  | .eval frame _ _ => frame < count
  | .lookup frame _ => frame < count
  | .define frame _ _ => frame < count
  | .assign frame _ _ => frame < count
  | .apply frame _ _ => frame < count
  | .bindings frame => frame < count
  | .names frame => frame < count
  | .teardown frame => frame < count
  | .root => True
  | .standard => True
  | .child frame => frame < count
  | .register frame _ entry => frame < count ∧ Uniform entry.run

namespace Link

variable {s t : State} {held held' : Array FrameId}

theorem old_frameAt (k : Link s t) (hheld : List.Forall₂ k.frame.old held.toList held'.toList)
    {index : Nat} (hindex : index < held.size) :
    k.frame.old ((⟨s, held⟩ : Session).frameAt index) ((⟨t, held'⟩ : Session).frameAt index) := by
  have hsize : held.size = held'.size := by simpa using hheld.length_eq
  have hget := hheld.get (i := index) (by simpa using hindex) (by simpa [← hsize] using hindex)
  simpa [Session.frameAt, hindex, hsize ▸ hindex] using hget

theorem describe_eq (k : Link s t) {f g : FrameId} (hf : k.frame.old f g) :
    s.describe f = t.describe g := by
  have hframe := k.frames hf
  unfold State.describe State.names
  generalize s.frames[f]? = a at hframe ⊢
  generalize t.frames[g]? = b at hframe ⊢
  cases hframe with
  | none => rfl
  | @some a b hab =>
    have houter := isSome_eq_of_rel hab.outer
    have hkeys : a.bindings.keys = b.bindings.keys := by
      rw [← Std.TreeMap.map_fst_toList_eq_keys, ← Std.TreeMap.map_fst_toList_eq_keys]
      have hentries := rel_toList fun x => hab.binding (x := x) trivial
      generalize a.bindings.toList = as at hentries ⊢
      generalize b.bindings.toList = bs at hentries ⊢
      induction hentries with
      | nil => rfl
      | cons hpq _ ih => rw [List.map_cons, List.map_cons, hpq.1, ih]
    simp only [houter, hkeys]

theorem visible_alike (k : Link s t) (houtput : s.output = t.output) {f g : FrameId}
    (hf : k.frame.old f g) :
    List.Forall₂ (fun b c => b.1 = c.1 ∧ b.2.Alike k.likeness s.stage c.2) (s.visible f)
      (t.visible g) := by
  refine rel_toList fun x => ?_
  rw [State.getElem?_foldr_overlay, State.getElem?_foldr_overlay]
  exact (k.states houtput).lookup (.inl hf) trivial

open Watch.Relates in
/-- Performing the same step in linked states comes to the same up to numbers. -/
theorem perform_alike (k : Link s t) (houtput : s.output = t.output)
    (hheld : List.Forall₂ k.frame.old held.toList held'.toList) {step : Step}
    (hstep : step.Fits held.size) :
    k.After ((⟨s, held⟩ : Session).perform step) ((⟨t, held'⟩ : Session).perform step) := by
  have hframe {index : Nat} (hindex : index < held.size) :=
    k.old_frameAt hheld hindex
  cases step with
  | eval index source strict =>
    exact k.after_of_relates houtput hheld
      (relates_map (evalText k.watch_open (.inl (hframe hstep)) source strict)
        fun _ _ _ hv => .value hv)
  | lookup index name =>
    have hlookup := (k.states houtput).lookup (.inl (hframe hstep)) (x := name) trivial
    simp only [Session.perform]
    generalize s.lookup _ name = o at hlookup ⊢
    generalize t.lookup _ name = o' at hlookup ⊢
    cases hlookup with
    | none => exact k.after_of_same houtput hheld (.error trivial)
    | some hv => exact k.after_of_same houtput hheld (.ok (.value hv))
  | define index name source =>
    have hf := hframe hstep
    refine k.after_of_relates houtput hheld (withValue k.watch_open (.inl hf) source ?_)
    intro st' v w hst hv
    have htask : k.watch.task (.list [.symbol "define", .symbol name, .int 0])
        ((⟨s, held⟩ : Session).frameAt index) := k.watch_open.task _ _
    exact (define (.inl hf) htask hv).bind fun _ _ _ _ _ => ret fun _ _ => .done
  | assign index name source =>
    have hf := hframe hstep
    refine k.after_of_relates houtput hheld (withValue k.watch_open (.inl hf) source ?_)
    intro st' v w hst hv
    have hcode : k.likeness.code (.list [.symbol "set!", .symbol name, .int 0]) :=
      k.watch_open.code _
    exact relates_map (assign (.inl hf) hcode hv) fun _ _ _ _ => .done
  | apply index source args =>
    have hf := hframe hstep
    refine k.after_of_relates houtput hheld (withValue k.watch_open (.inl hf) source ?_)
    intro st' p q hst hp
    refine withValues k.watch_open (.inl hf) args ?_
    intro st'' vs ws hst' hargs
    exact relates_map (apply (hp.mono hst') hargs) fun _ _ _ hv => .value hv
  | bindings index =>
    exact k.after_of_same houtput hheld (.ok (.bindings (k.visible_alike houtput (hframe hstep))))
  | names index =>
    have htext := k.describe_eq (hframe hstep)
    simp only [Session.perform, htext]
    exact k.after_of_same houtput hheld (.ok (.text _))
  | teardown index =>
    have hf := hframe hstep
    have hgrown (f : FrameId) : s.stage ≤ (s.teardown f).stage := by
      constructor <;> simp [State.stage, State.teardown]
    exact k.after_of_ends hheld ⟨hgrown _, ⟨rfl, rfl⟩,
      (k.states houtput).teardown (.inl hf),
      (State.KeepsOthers.refl _ s).modify k.frameStarts.left (.inl hf) _, .ok .done⟩
  | root => exact k.after_hold houtput hheld (Frame.alike_empty .none)
  | standard => exact k.after_hold houtput hheld (Frame.alike_standard _ _)
  | child index =>
    exact k.after_hold houtput hheld (Frame.alike_empty (.some (.inl (hframe hstep))))
  | register index name entry =>
    exact k.after_register houtput hheld (hframe hstep.1) name entry.arity hstep.2

end Link

end MiniLisp
