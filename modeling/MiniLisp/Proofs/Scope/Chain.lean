import MiniLisp.State
import Mathlib.Data.List.Range
import Mathlib.Data.List.Perm.Subperm
import Mathlib.Logic.Relation

/-!
# The way outward

`State.chain` walks outward from a frame and gives up after as many frames as there are. Where no
frame lies inside itself it never gives up: it ends where the outer frames end (`outward_chain`).
Whether or not it gives up, walking further would come to no other frames
(`chainFrom_subset_chain`), so that looking a name up does not depend on the limit, and is looking
at the first frame and then outward from the next (`findSome?_chain_inner`).

A program that is evaluated in a frame comes to other frames in two ways: outward, and by calling a
closure, which has captured the frame that it was made in (`State.Reachable`). Closures are found in
the values that frames bind, at any depth of lists.
-/

namespace MiniLisp

namespace State

/-- The frame `g` is the outer frame of `f`. -/
def LiesIn (s : State) (f g : FrameId) : Prop :=
  ∃ frame, s.frames[f]? = some frame ∧ frame.outer = some g

/-- No frame lies inside itself, over any number of frames. -/
def Acyclic (s : State) : Prop := ∀ f, ¬ Relation.TransGen s.LiesIn f f

/-- All frames from `f` outward in order, however many they are. -/
inductive Outward (s : State) : FrameId → List FrameId → Prop where
  | missing {f : FrameId} (h : s.frames[f]? = none) : Outward s f []
  | root {f : FrameId} {frame : Frame} (h : s.frames[f]? = some frame) (ho : frame.outer = none) :
      Outward s f [f]
  | inner {f o : FrameId} {frame : Frame} {rest : List FrameId} (h : s.frames[f]? = some frame)
      (ho : frame.outer = some o) (hrest : Outward s o rest) : Outward s f (f :: rest)

variable {s : State}

theorem lt_size_of_getElem? {f : FrameId} {frame : Frame} (h : s.frames[f]? = some frame) :
    f < s.frames.size :=
  (Array.getElem?_eq_some_iff.mp h).1

/-- Frames that all exist and are pairwise different are no more than there are frames. -/
theorem length_le_size {seen : List FrameId} (hn : seen.Nodup)
    (hs : ∀ g ∈ seen, g < s.frames.size) : seen.length ≤ s.frames.size := by
  have hsub : seen ⊆ List.range s.frames.size := fun g hg => List.mem_range.mpr (hs g hg)
  simpa using (hn.subperm hsub).length_le

/-- Walking on from `f` after the frames `seen`, all of which `f` lies outside of. -/
theorem outward_chainFrom (hs : s.Acyclic) (limit : Nat) (f : FrameId) (seen : List FrameId)
    (hlimit : s.frames.size ≤ seen.length + limit) (hn : seen.Nodup)
    (hsize : ∀ g ∈ seen, g < s.frames.size) (hseen : ∀ g ∈ seen, Relation.TransGen s.LiesIn g f) :
    s.Outward f (s.chainFrom limit f) := by
  have hf : f ∉ seen := fun h => hs f (hseen f h)
  induction limit generalizing f seen with
  | zero =>
    cases hframe : s.frames[f]? with
    | none => exact .missing hframe
    | some frame =>
      -- The frame `f` would be one more than there are.
      have hle : (f :: seen).length ≤ s.frames.size := by
        refine length_le_size (List.nodup_cons.mpr ⟨hf, hn⟩) fun g hg => ?_
        rcases List.mem_cons.mp hg with rfl | hg
        · exact lt_size_of_getElem? hframe
        · exact hsize g hg
      simp only [List.length_cons] at hle
      omega
  | succ limit ih =>
    unfold chainFrom
    cases hframe : s.frames[f]? with
    | none => exact .missing hframe
    | some frame =>
      cases ho : frame.outer with
      | none => simpa [ho] using Outward.root hframe ho
      | some o =>
        have hstep : Relation.TransGen s.LiesIn f o := .single ⟨frame, hframe, ho⟩
        have hseen' : ∀ g ∈ f :: seen, Relation.TransGen s.LiesIn g o := by
          intro g hg
          rcases List.mem_cons.mp hg with rfl | hg
          · exact hstep
          · exact (hseen g hg).trans hstep
        have hrest : s.Outward o (s.chainFrom limit o) := by
          refine ih o (f :: seen) ?_ (List.nodup_cons.mpr ⟨hf, hn⟩) ?_ hseen'
            fun h => hs o (hseen' o h)
          · simp only [List.length_cons]
            omega
          · intro g hg
            rcases List.mem_cons.mp hg with rfl | hg
            · exact lt_size_of_getElem? hframe
            · exact hsize g hg
        simpa [ho] using Outward.inner hframe ho hrest

/-- Where no frame lies inside itself, the chain is the whole way outward. -/
theorem outward_chain (hs : s.Acyclic) (f : FrameId) : s.Outward f (s.chain f) :=
  outward_chainFrom hs _ f [] (by simp) (by simp) (by simp) (by simp)

/-- Frames that lie in frames made before them do not lie in themselves. -/
theorem acyclic_of_lt (hfall : ∀ f o : FrameId, s.LiesIn f o → o < f) : s.Acyclic := by
  have hlt : ∀ f o : FrameId, Relation.TransGen s.LiesIn f o → o < f := by
    intro f o h
    induction h with
    | single h => exact hfall _ _ h
    | tail _ h ih => exact (hfall _ _ h).trans ih
  exact fun f h => Nat.lt_irrefl f (hlt f f h)

section Limits

/-- Frames that lie in each other are all that is outward of them. -/
theorem chainFrom_subset_of_closed {seen : List FrameId}
    (hclosed : ∀ g ∈ seen, ∀ o, s.LiesIn g o → o ∈ seen) (limit : Nat) {f : FrameId}
    (hf : f ∈ seen) : s.chainFrom limit f ⊆ seen := by
  induction limit generalizing f with
  | zero => exact List.nil_subset _
  | succ limit ih =>
    intro g hg
    unfold chainFrom at hg
    split at hg
    · cases hg
    · rename_i frame hframe
      split at hg
      · rw [List.mem_singleton.mp hg]
        exact hf
      · rename_i o ho
        rcases List.mem_cons.mp hg with rfl | hg
        · exact hf
        · exact ih (hclosed f hf o ⟨frame, hframe, ho⟩) hg

theorem chainFrom_subset_of_mem {seen : List FrameId} {f : FrameId} (hf : f ∈ seen)
    (hclosed : ∀ g ∈ seen, ∀ o, s.LiesIn g o → o ∈ f :: seen) (limit : Nat) :
    s.chainFrom limit f ⊆ seen := by
  refine chainFrom_subset_of_closed (fun g hg o ho => ?_) limit hf
  rcases List.mem_cons.mp (hclosed g hg o ho) with rfl | h
  · exact hf
  · exact h

theorem lt_size_of_mem_cons {seen : List FrameId} {f : FrameId} {frame : Frame}
    (hframe : s.frames[f]? = some frame) (hseen : ∀ g ∈ seen, g < s.frames.size) :
    ∀ g ∈ f :: seen, g < s.frames.size := by
  intro g hg
  rcases List.mem_cons.mp hg with rfl | hg
  · exact lt_size_of_getElem? hframe
  · exact hseen g hg

/-- Walking on from `f` after the frames `seen`, which lie in each other or in `f`: where no more
frames are left than `limit`, further steps come to nothing new. -/
theorem mem_chainFrom_or (limit : Nat) (f : FrameId) (seen : List FrameId)
    (hlimit : s.frames.size ≤ seen.length + limit) (hn : seen.Nodup)
    (hsize : ∀ g ∈ seen, g < s.frames.size)
    (hclosed : ∀ g ∈ seen, ∀ o, s.LiesIn g o → o ∈ f :: seen) {steps : Nat} {g : FrameId}
    (hg : g ∈ s.chainFrom steps f) : g ∈ s.chainFrom limit f ∨ g ∈ seen := by
  induction limit generalizing f seen steps with
  | zero =>
    refine .inr ?_
    by_cases hf : f ∈ seen
    · exact chainFrom_subset_of_mem hf hclosed steps hg
    · cases steps with
      | zero => cases hg
      | succ steps =>
        cases hframe : s.frames[f]? with
        | none => simp [chainFrom, hframe] at hg
        | some frame =>
          -- The frame `f` would be one more than there are.
          have hle := length_le_size (List.nodup_cons.mpr ⟨hf, hn⟩)
            (lt_size_of_mem_cons hframe hsize)
          simp only [List.length_cons] at hle
          omega
  | succ limit ih =>
    by_cases hf : f ∈ seen
    · exact .inr (chainFrom_subset_of_mem hf hclosed steps hg)
    · cases steps with
      | zero => cases hg
      | succ steps =>
        cases hframe : s.frames[f]? with
        | none => simp [chainFrom, hframe] at hg
        | some frame =>
          cases houter : frame.outer with
          | none =>
            simp only [chainFrom, hframe, houter] at hg ⊢
            exact .inl hg
          | some o =>
            have hclosed' : ∀ g ∈ f :: seen, ∀ o', s.LiesIn g o' → o' ∈ o :: f :: seen := by
              rintro g hg o' ⟨frame', hframe', houter'⟩
              rcases List.mem_cons.mp hg with rfl | hg
              · rw [hframe] at hframe'
                cases hframe'
                rw [houter] at houter'
                cases houter'
                exact .head _
              · exact .tail _ (hclosed g hg o' ⟨frame', hframe', houter'⟩)
            have hlimit' : s.frames.size ≤ (f :: seen).length + limit := by
              simp only [List.length_cons]
              omega
            simp only [chainFrom, hframe, houter] at hg ⊢
            rcases List.mem_cons.mp hg with rfl | hg
            · exact .inl (.head _)
            · rcases ih o (f :: seen) hlimit' (List.nodup_cons.mpr ⟨hf, hn⟩)
                (lt_size_of_mem_cons hframe hsize) hclosed' hg with h | h
              · exact .inl (.tail _ h)
              · rcases List.mem_cons.mp h with rfl | h
                · exact .inl (.head _)
                · exact .inr h

/-- Walking further than there are frames comes to no frame that the chain does not hold. -/
theorem chainFrom_subset_chain (s : State) (steps : Nat) (f : FrameId) :
    s.chainFrom steps f ⊆ s.chain f := by
  intro g hg
  rcases mem_chainFrom_or s.frames.size f [] (by simp) (by simp) (by simp) (by simp) hg with h | h
  · exact h
  · cases h

theorem chainFrom_prefix (s : State) (limit more : Nat) (f : FrameId) :
    s.chainFrom limit f <+: s.chainFrom (limit + more) f := by
  induction limit generalizing f with
  | zero => exact List.nil_prefix
  | succ limit ih =>
    rw [Nat.add_right_comm]
    unfold chainFrom
    split
    · exact List.prefix_rfl
    · split
      · exact List.prefix_rfl
      · rename_i o _
        exact (List.prefix_cons_inj f).mpr (ih o)

/-- Walking further finds the same where it comes to nothing new that there is to find. -/
theorem findSome?_chainFrom_add {α : Type} {limit more : Nat} {f : FrameId}
    {k : FrameId → Option α}
    (h : ∀ g ∈ s.chainFrom (limit + more) f, g ∈ s.chainFrom limit f ∨ k g = none) :
    (s.chainFrom (limit + more) f).findSome? k = (s.chainFrom limit f).findSome? k := by
  obtain ⟨rest, hrest⟩ := s.chainFrom_prefix limit more f
  rw [← hrest] at h ⊢
  rw [List.findSome?_append]
  cases hk : (s.chainFrom limit f).findSome? k with
  | some a => rfl
  | none =>
    rw [List.findSome?_eq_none_iff] at hk
    rw [Option.none_or, List.findSome?_eq_none_iff]
    exact fun g hg => (h g (List.mem_append_right _ hg)).elim (hk g) id

/-- Any limit from the number of frames on finds the same. -/
theorem findSome?_chainFrom {α : Type} {limit : Nat} (h : s.frames.size ≤ limit) (f : FrameId)
    (k : FrameId → Option α) : (s.chainFrom limit f).findSome? k = (s.chain f).findSome? k := by
  obtain ⟨more, rfl⟩ := Nat.exists_eq_add_of_le h
  exact findSome?_chainFrom_add fun g hg => .inl (s.chainFrom_subset_chain _ f hg)

/-- Looking outward from a frame is looking at that frame and then outward from its outer frame. -/
theorem findSome?_chain_inner {α : Type} {f o : FrameId} (h : s.LiesIn f o)
    (k : FrameId → Option α) :
    (s.chain f).findSome? k = (k f).or ((s.chain o).findSome? k) := by
  obtain ⟨frame, hframe, houter⟩ := id h
  have hf : f < s.frames.size := lt_size_of_getElem? hframe
  obtain ⟨n, hn⟩ := Nat.exists_eq_succ_of_ne_zero (Nat.ne_zero_of_lt hf)
  have hchain : s.chain f = f :: s.chainFrom n o := by
    simp only [chain, hn, chainFrom, hframe, houter]
  cases hk : k f with
  | some a => rw [hchain, List.findSome?_cons, hk, Option.some_or]
  | none =>
    have hclosed : ∀ g ∈ [f], ∀ o', s.LiesIn g o' → o' ∈ [o, f] := by
      rintro g hg o' ⟨frame', hframe', houter'⟩
      rw [List.mem_singleton.mp hg, hframe] at hframe'
      cases hframe'
      rw [houter] at houter'
      cases houter'
      exact .head _
    -- One step fewer from the outer frame misses nothing but `f`, which has been looked at.
    have hmissed : ∀ g ∈ s.chainFrom (n + 1) o, g ∈ s.chainFrom n o ∨ k g = none := by
      intro g hg
      have hsize : ∀ g ∈ [f], g < s.frames.size := fun g hg => List.mem_singleton.mp hg ▸ hf
      rcases mem_chainFrom_or n o [f] (by simp [hn, Nat.add_comm]) (by simp) hsize
        hclosed hg with h | h
      · exact .inl h
      · exact .inr (List.mem_singleton.mp h ▸ hk)
    rw [hchain, List.findSome?_cons, hk, Option.none_or, chain, hn, Nat.succ_eq_add_one,
      findSome?_chainFrom_add hmissed]

end Limits

end State

/-- The closure is found in the value, at some depth of lists. -/
inductive Value.Holds (c : Closure) : Value → Prop where
  | self : Holds c (.closure c)
  | item {id : Nat} {items : List Value} {v : Value} (hv : v ∈ items) (h : Holds c v) :
      Holds c (.list id items)

inductive Draft.Holds (c : Closure) : Draft → Prop where
  | value {v : Value} (h : v.Holds c) : Holds c (.value v)
  | item {items : List Draft} {d : Draft} (hd : d ∈ items) (h : Holds c d) : Holds c (.list items)

/-- Procedures are made by `lambda` alone: the host function hands out no closure that it was not
handed. -/
def MakesNoClosures (run : HostFunction) : Prop :=
  ∀ args reply, run args = .ok reply → ∀ c, reply.draft.Holds c → ∃ v ∈ args, v.Holds c

namespace State

/-- The frames that a program evaluated in `f` may come to. -/
inductive Reachable (s : State) (f : FrameId) : FrameId → Prop where
  | self : Reachable s f f
  | outer {g o : FrameId} (h : Reachable s f g) (ho : s.LiesIn g o) : Reachable s f o
  | captured {g : FrameId} {x : String} {v : Value} {c : Closure} (h : Reachable s f g)
      (hv : s.binding? g x = some v) (hc : v.Holds c) : Reachable s f c.frame

/-- The closures that a program evaluated in `f` may come to. -/
inductive ReachableClosure (s : State) (f : FrameId) : Closure → Prop where
  | bound {g : FrameId} {x : String} {v : Value} {c : Closure} (h : s.Reachable f g)
      (hv : s.binding? g x = some v) (hc : v.Holds c) : ReachableClosure s f c

end State

end MiniLisp
