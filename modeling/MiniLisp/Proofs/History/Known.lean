import MiniLisp.Proofs.Eval.Invariant
import MiniLisp.Proofs.History.Situation

/-!
# What is known of a history

Of a history one may know all lists and closures that were ever made and all frames with their outer
frames (`World`). Identities are told apart, frames lie in frames made before them, and closures
have captured frames that exist (`World.Sound`). Whatever a host program does, this stays so and
nothing known is forgotten (`World.Covers.history`).
-/

namespace MiniLisp

/-- The lists and closures that were made, and the outer frames of the frames that were. -/
structure World where
  known : Set Value
  links : List (Option FrameId)

namespace World

/-- Worlds grow. -/
instance : Preorder World where
  le w w' := w.known ⊆ w'.known ∧ w.links <+: w'.links
  le_refl w := ⟨Set.Subset.rfl, List.prefix_rfl⟩
  le_trans _ _ _ h h' := ⟨h.1.trans h'.1, h.2.trans h'.2⟩

/-- Everything in the value that has an identity is known. -/
def Knows (w : World) (v : Value) : Prop := v.Within w.known

theorem Knows.mono {w w' : World} (h : w ≤ w') {v : Value} (hv : w.Knows v) : w'.Knows v :=
  Value.Within.mono h.1 hv

/-- No identity from `fresh` on is in use, and none stands for two values. Closures have captured
frames that exist, and frames lie in frames made before them. -/
structure Sound (w : World) (fresh : Nat) : Prop where
  used : ∀ u ∈ w.known, ∀ i : Nat, u.id? = some i → i < fresh
  unique : ∀ u ∈ w.known, ∀ v ∈ w.known, ∀ i : Nat, u.id? = some i → v.id? = some i → u = v
  closure : ∀ c : Closure, Value.closure c ∈ w.known → c.frame < w.links.length ∧ c.params.Nodup
  outward : ∀ f o : FrameId, w.links[f]? = some (some o) → o < f

variable {w : World} {n : Nat}

/-- Where nothing is known, nothing is wrong. -/
theorem sound_none (n : Nat) : (⟨∅, []⟩ : World).Sound n := ⟨nofun, nofun, nofun, nofun⟩

theorem Sound.mono {m : Nat} (h : w.Sound n) (hle : n ≤ m) : w.Sound m where
  used u hu i hi := Nat.lt_of_lt_of_le (h.used u hu i hi) hle
  unique := h.unique
  closure := h.closure
  outward := h.outward

/-- One more value is known. -/
def learn (w : World) (u : Value) : World := { w with known := insert u w.known }

theorem le_learn (w : World) (u : Value) : w ≤ w.learn u :=
  ⟨Set.subset_insert u w.known, List.prefix_rfl⟩

theorem Sound.learn (h : w.Sound n) {u : Value} {i : Nat} (hu : u.id? = some i) (hi : i < n)
    (hnew : ∀ v ∈ w.known, v.id? ≠ some i)
    (hclosure : ∀ c, u = .closure c → c.frame < w.links.length ∧ c.params.Nodup) :
    (w.learn u).Sound n where
  used v hv j hj := by
    rcases hv with rfl | hv
    · cases hu.symm.trans hj
      exact hi
    · exact h.used v hv j hj
  unique v hv v' hv' j hj hj' := by
    rcases hv with rfl | hv <;> rcases hv' with rfl | hv'
    · rfl
    · exact absurd (hj'.trans (hj.symm.trans hu)) (hnew v' hv')
    · exact absurd (hj.trans (hj'.symm.trans hu)) (hnew v hv)
    · exact h.unique v hv v' hv' j hj hj'
  closure c hc := by
    rcases hc with hc | hc
    · exact hclosure c hc.symm
    · exact h.closure c hc
  outward := h.outward

/-- What a draft becomes is known once its new lists are, and these have the identities from
`n` on. -/
structure Learns (w : World) (n : Nat) (w' : World) (m : Nat) : Prop where
  grown : w ≤ w'
  counted : n ≤ m
  links : w'.links = w.links
  sound : w'.Sound m
  new : ∀ u ∈ w'.known, u ∈ w.known ∨ ∃ i, u.id? = some i ∧ n ≤ i

theorem Learns.refl (h : w.Sound n) : w.Learns n w n :=
  ⟨le_rfl, Nat.le_refl n, rfl, h, fun _ => .inl⟩

theorem Learns.trans {w₁ w₂ : World} {m k : Nat} (h : w.Learns n w₁ m) (h' : w₁.Learns m w₂ k) :
    w.Learns n w₂ k where
  grown := h.grown.trans h'.grown
  counted := h.counted.trans h'.counted
  links := h'.links.trans h.links
  sound := h'.sound
  new u hu := by
    rcases h'.new u hu with hu | ⟨i, hi, hle⟩
    · exact h.new u hu
    · exact .inr ⟨i, hi, h.counted.trans hle⟩

/-- A list that is made of known items, with an identity that was left free for it. -/
theorem Learns.list {w' : World} {m : Nat} {vs : List Value} (hs : w.Sound n)
    (h : w.Learns (n + 1) w' m) (hvs : Value.All w'.Knows vs) :
    w.Learns n (w'.learn (.list n vs)) m ∧ (w'.learn (.list n vs)).Knows (.list n vs) := by
  have hnew : ∀ v ∈ w'.known, v.id? ≠ some n := by
    intro v hv hid
    rcases h.new v hv with hold | ⟨i, hi, hle⟩
    · exact absurd (hs.used v hold n hid) (Nat.lt_irrefl n)
    · cases hi.symm.trans hid
      exact absurd hle (Nat.not_succ_le_self n)
  refine ⟨⟨h.grown.trans (le_learn _ _), Nat.le_of_succ_le h.counted, h.links,
    h.sound.learn rfl h.counted hnew nofun, fun u hu => ?_⟩, fun u i hu hi => ?_⟩
  · rcases hu with rfl | hu
    · exact .inr ⟨n, rfl, Nat.le_refl n⟩
    · exact (h.new u hu).imp_right fun ⟨i, hi, hle⟩ => ⟨i, hi, Nat.le_of_succ_le hle⟩
  · cases hu with
    | self => exact Set.mem_insert _ _
    | item hv hu => exact Set.mem_insert_of_mem _ (hvs _ hv u i hu hi)

/-- Giving a draft its identities. -/
theorem Sound.finish (h : w.Sound n) {d : Draft} (hd : d.All w.Knows) :
    ∃ w', w.Learns n w' (d.finish n).2 ∧ w'.Knows (d.finish n).1 := by
  induction d using Draft.items_induction generalizing w n with
  | value v =>
    cases hd with
    | value hv => exact ⟨w, .refl h, hv⟩
  | list items ih =>
    have hitems : ∀ (n : Nat) (w : World), w.Sound n → (∀ d ∈ items, d.All w.Knows) →
        ∃ w', w.Learns n w' (Draft.finishAll n items).2 ∧
          Value.All w'.Knows (Draft.finishAll n items).1 := by
      clear h hd
      induction items with
      | nil => exact fun n w h _ => ⟨w, .refl h, nofun⟩
      | cons d items ihitems =>
        intro n w h hall
        obtain ⟨w₁, hlearns, hfirst⟩ := ih d (.head _) h (hall d (.head _))
        obtain ⟨w₂, hlearns', hrest⟩ := ihitems (fun d hd => ih d (.tail _ hd)) _ w₁ hlearns.sound
          fun d hd => (hall d (.tail _ hd)).imp fun _ => .mono hlearns.grown
        exact ⟨w₂, hlearns.trans hlearns',
          List.forall_mem_cons.mpr ⟨hfirst.mono hlearns'.grown, hrest⟩⟩
    cases hd with
    | list hall =>
      obtain ⟨w', hlearns, hvs⟩ := hitems (n + 1) w (h.mono (Nat.le_succ n)) hall
      exact ⟨_, Learns.list h hlearns hvs⟩

/-- A closure is known once it is made. -/
theorem Sound.close (h : w.Sound n) {params : List String} (hparams : params.Nodup) (body : Expr)
    {f : FrameId} (hf : f < w.links.length) :
    (w.learn (.closure ⟨n, params, body, f⟩)).Sound (n + 1) ∧
      (w.learn (.closure ⟨n, params, body, f⟩)).Knows (.closure ⟨n, params, body, f⟩) := by
  refine ⟨(h.mono (Nat.le_succ n)).learn rfl (Nat.lt_succ_self n) (fun v hv hid => ?_) ?_, ?_⟩
  · exact absurd (h.used v hv n hid) (Nat.lt_irrefl n)
  · rintro c hc
    cases hc
    exact ⟨hf, hparams⟩
  · intro u i hu _
    cases hu
    exact Set.mem_insert _ _

/-- One more frame is known. -/
def extend (w : World) (outer : Option FrameId) : World :=
  { w with links := w.links ++ [outer] }

theorem le_extend (w : World) (outer : Option FrameId) : w ≤ w.extend outer :=
  ⟨Set.Subset.rfl, List.prefix_append _ _⟩

theorem Sound.extend (h : w.Sound n) {outer : Option FrameId}
    (houter : ∀ o, outer = some o → o < w.links.length) : (w.extend outer).Sound n where
  used := h.used
  unique := h.unique
  closure c hc := by
    obtain ⟨hframe, hparams⟩ := h.closure c hc
    refine ⟨?_, hparams⟩
    rw [World.extend, List.length_append]
    exact Nat.lt_add_right _ hframe
  outward f o hf := by
    rw [World.extend, List.getElem?_append] at hf
    split at hf
    · exact h.outward f o hf
    · rename_i hle
      have hsingle := List.mem_of_getElem? hf
      exact Nat.lt_of_lt_of_le (houter o (List.mem_singleton.mp hsingle).symm)
        (Nat.le_of_not_lt hle)

end World

/-- Runs make what they make of what is known. -/
def Invariant.known : Invariant World where
  value w := w.Knows
  frame w f := f < w.links.length
  hosted _ := False
  shape w n links := w.links = links ∧ w.Sound n
  error _ := True
  inheritable w := (Value.hereditary_within w.known).inheritable
  value_mono h hv := hv.mono h
  frame_mono h hf := Nat.lt_of_lt_of_le hf h.2.length_le
  error_of _ := trivial
  host _ _ := .inr trivial
  make := by
    rintro w n links d ⟨rfl, hs⟩ hd
    obtain ⟨w', hlearns, hvalue⟩ := hs.finish hd
    exact ⟨w', hlearns.grown, ⟨hlearns.links, hlearns.sound⟩, hvalue⟩
  close := by
    rintro w n links params body f ⟨rfl, hs⟩ hf hparams
    obtain ⟨hsound, hvalue⟩ := hs.close hparams body hf
    exact ⟨_, w.le_learn _, ⟨rfl, hsound⟩, hvalue⟩
  enter := by
    rintro w n links c ⟨rfl, hs⟩ hc
    have hframe := (hs.closure c (hc _ c.id .self rfl)).1
    refine ⟨w.extend (some c.frame), w.le_extend _, ⟨rfl, hs.extend fun o ho => ?_⟩, ?_⟩
    · cases ho
      exact hframe
    · rw [World.extend, List.length_append]
      exact Nat.lt_succ_self _

theorem Invariant.Ready.knows {w : World} {c : Call} (h : Invariant.known.Ready w c) {v : Value}
    (hv : v ∈ c.values) : w.Knows v := by
  cases c with
  | eval => cases hv
  | apply =>
    rcases hv with rfl | hv
    · exact h.1
    · exact h.2 v hv
  | higher => exact h v hv

theorem Frame.outer_standard : Frame.standard.outer = none := rfl

/-- Standard frames bind builtin procedures and numbers. -/
theorem Frame.isAtom_standard {x : String} {v : Value}
    (h : Frame.standard.bindings[x]? = some v) : v.IsAtom := by
  rcases List.mem_append.mp (mem_of_getElem?_ofList h) with h | h
  · obtain ⟨b, -, hb⟩ := List.mem_map.mp h
    cases hb
    trivial
  · obtain ⟨c, -, hc⟩ := List.mem_map.mp h
    cases hc
    trivial

/-- A host function hands out nothing new, whatever else will be made. -/
theorem HandsOut.host {hand : Set Value} {run : HostFunction} (h : HandsOut hand run) {w : World}
    (hw : ∀ v ∈ hand, w.Knows v) : Invariant.known.Host w run := by
  refine fun w' hle args hargs => ⟨fun reply hreply => ?_, fun _ _ => trivial⟩
  refine (h args reply hreply).imp fun v hv u i hu hi => ?_
  obtain ⟨v', hv' | hv', hpart⟩ := hv u i hu hi
  · exact hargs v' hv' u i hpart hi
  · exact (hw v' hv').mono hle u i hpart hi

/-- Everything in the situation is known. -/
structure World.Covers (w : World) (x : Situation) : Prop where
  state : Invariant.known.Holds w x.state
  hand : ∀ v ∈ x.hand, w.Knows v

namespace World.Covers

variable {w : World} {x y : Situation}

theorem start : World.Covers ⟨∅, []⟩ .start where
  state :=
    { bound := fun f x v hv => by simp [Situation.start, State.empty, State.binding?] at hv
      hosts := fun run hrun => by simp [Situation.start, State.empty] at hrun
      hosted := nofun
      shape := ⟨rfl, World.sound_none 0⟩ }
  hand := nofun

theorem links (h : w.Covers x) : w.links = x.state.links := h.state.shape.1

theorem sound (h : w.Covers x) : w.Sound x.state.fresh := h.state.shape.2

theorem length_links (h : w.Covers x) : w.links.length = x.state.frames.size := by
  rw [h.links, State.length_links]

theorem hand_mono (h : w.Covers x) {w' : World} (hle : w ≤ w') : ∀ v ∈ x.hand, w'.Knows v :=
  fun v hv => (h.hand v hv).mono hle

theorem atom (w : World) {v : Value} (hv : v.IsAtom) : w.Knows v :=
  (Value.hereditary_within w.known).atom hv

theorem ready (h : w.Covers x) {c : Call} (hc : x.MayMake c) : Invariant.known.Ready w c := by
  cases c with
  | eval e f depth =>
    change f < w.links.length
    rw [h.length_links]
    exact hc
  | apply p args depth => exact ⟨h.hand p hc.1, fun v hv => h.hand v (hc.2 v hv)⟩
  | higher hh args depth => exact fun v hv => h.hand v (hc v hv)

theorem insert (h : w.Covers x) {v : Value} (hv : w.Knows v) :
    w.Covers ⟨x.state, Set.insert v x.hand⟩ where
  state := h.state
  hand := by
    rintro u (rfl | hu)
    · exact hv
    · exact h.hand u hu

/-- One more frame, which binds nothing that could have an identity. -/
theorem addFrame (h : w.Covers x) {frame : Frame}
    (hatoms : ∀ (y : String) (v : Value), frame.bindings[y]? = some v → v.IsAtom)
    (houter : ∀ o, frame.outer = some o → o < x.state.frames.size) :
    (w.extend frame.outer).Covers ⟨x.state.addFrame frame, x.hand⟩ where
  state := by
    refine h.state.addFrame (w.le_extend _) (fun y v hv => atom _ (hatoms y v hv)) ⟨?_, ?_⟩
    · rw [extend, h.links]
    · refine h.sound.extend fun o ho => ?_
      rw [h.length_links]
      exact houter o ho
  hand := h.hand_mono (w.le_extend _)

theorem frame_empty (outer : Option FrameId) (y : String) (v : Value)
    (hv : (Frame.empty outer).bindings[y]? = some v) : v.IsAtom := by
  simp [Frame.empty] at hv

/-- What a run ends in is known where the run has kept to what is known. -/
theorem ended (h : w.Covers x) {out : Except Error Value × State}
    (hends : Invariant.known.Ends w Knows out) :
    ∃ w', w ≤ w' ∧ w'.Covers ⟨out.2, x.hand ∪ {v | out.1 = .ok v}⟩ := by
  -- The outcome is left open, for the kernel would look into a run that stands here.
  obtain ⟨w', hle, hstate, hv, -⟩ := hends
  refine ⟨w', hle, hstate, ?_⟩
  rintro v (hold | hnew)
  · exact h.hand_mono hle v hold
  · exact hv v hnew

/-- What a host program comes to next is known too, and nothing is forgotten. -/
theorem step (h : w.Covers x) (hxy : Advance x y) : ∃ w', w ≤ w' ∧ w'.Covers y := by
  cases hxy with
  | root => exact ⟨_, w.le_extend _, h.addFrame (frame_empty none) nofun⟩
  | standard =>
    refine ⟨_, w.le_extend _, h.addFrame (fun _ _ => Frame.isAtom_standard) fun o ho => ?_⟩
    cases Frame.outer_standard.symm.trans ho
  | child hf =>
    refine ⟨_, w.le_extend _, h.addFrame (frame_empty _) fun o ho => ?_⟩
    cases ho
    exact hf
  | atom hv => exact ⟨w, le_rfl, h.insert (atom w hv)⟩
  | item hlist hv =>
    exact ⟨w, le_rfl, h.insert ((Value.hereditary_within w.known).item (h.hand _ hlist) _ hv)⟩
  | lookup hv => exact ⟨w, le_rfl, h.insert (h.state.lookup hv)⟩
  | make hd =>
    obtain ⟨w', hle, hstate, hv⟩ := h.state.make (hd.imp h.hand)
    exact ⟨w', hle, insert (x := ⟨_, x.hand⟩) ⟨hstate, h.hand_mono hle⟩ hv⟩
  | define f name hv => exact ⟨w, le_rfl, h.state.define f name (h.hand _ hv), h.hand⟩
  | assign f name hv => exact ⟨w, le_rfl, h.state.assign f name (h.hand _ hv), h.hand⟩
  | teardown f => exact ⟨w, le_rfl, h.state.teardown f, h.hand⟩
  | register f name arity hrun =>
    exact ⟨w, le_rfl, h.state.register f name arity (hrun.host h.hand) (atom w trivial), h.hand⟩
  | output text => exact ⟨w, le_rfl, h.state.of_frames rfl rfl le_rfl h.state.shape, h.hand⟩
  | call hc => exact h.ended (Invariant.outcome_ends h.state (h.ready hc))
  | inside hc henters =>
    obtain ⟨w', hle, hstate, hready⟩ := Invariant.of_enters h.state (h.ready hc) henters
    refine ⟨w', hle, hstate, ?_⟩
    rintro v (hold | hnew)
    · exact h.hand_mono hle v hold
    · exact hready.knows hnew

/-- Whatever a host program does, all that it comes to is known. -/
theorem history (h : w.Covers x) (hxy : History x y) : ∃ w', w ≤ w' ∧ w'.Covers y := by
  induction hxy with
  | refl => exact ⟨w, le_rfl, h⟩
  | tail _ hstep ih =>
    obtain ⟨w₁, hle₁, h₁⟩ := ih
    obtain ⟨w₂, hle₂, h₂⟩ := h₁.step hstep
    exact ⟨w₂, hle₁.trans hle₂, h₂⟩

/-- What is shown has an identity that is known. -/
theorem shows (h : w.Covers x) {u : Value} (hu : x.Shows u) {i : Nat} (hi : u.id? = some i) :
    u ∈ w.known := by
  cases hu with
  | bound hv hu => exact h.state.bound _ _ _ hv u i hu hi
  | held hv hu => exact h.hand _ hv u i hu hi

end World.Covers

namespace Reached

variable {x y : Situation}

theorem known (hx : Reached x) : ∃ w : World, w.Covers x := by
  obtain ⟨w, -, hw⟩ := World.Covers.start.history hx
  exact ⟨w, hw⟩

/-- An identity never stands for two values, now or later. -/
theorem eq_of_id (hx : Reached x) (hxy : History x y) {u v : Value} (hu : x.Shows u)
    (hv : y.Shows v) {i : Nat} (hui : u.id? = some i) (hvi : v.id? = some i) : u = v := by
  obtain ⟨w, hw⟩ := hx.known
  obtain ⟨w', hle, hw'⟩ := hw.history hxy
  exact hw'.sound.unique u (hle.1 (hw.shows hu hui)) v (hw'.shows hv hvi) i hui hvi

/-- Where a run makes a call, that call may be made. -/
theorem mayMake_of_enters (hx : Reached x) {c c' : Call} {s : State} (hc : x.MayMake c)
    (h : Call.Enters (c, x.state) (c', s)) : Situation.MayMake ⟨s, x.hand ∪ c'.values⟩ c' := by
  cases c' with
  | eval e f depth =>
    obtain ⟨w, hw⟩ := hx.known
    obtain ⟨w', -, hs, hframe⟩ := Invariant.of_enters hw.state (hw.ready hc) h
    change f < w'.links.length at hframe
    rw [hs.shape.1, State.length_links] at hframe
    exact hframe
  | apply p args depth => exact ⟨.inr (.inl rfl), fun v hv => .inr (.inr hv)⟩
  | higher hh args depth => exact fun v hv => .inr hv

end Reached

end MiniLisp
