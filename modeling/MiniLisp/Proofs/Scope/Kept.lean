import MiniLisp.Proofs.History.Scopes

/-!
# What is kept of a state

Evaluation makes frames and binds names. Where it has bound a single name in a frame that existed,
all frames are otherwise as they were (`State.KeepsBut`), whatever frames it has made besides; and
all other names mean what they meant (`State.KeepsBut.lookup_eq`).
-/

namespace MiniLisp

namespace State

variable {s t : State} {f g o : FrameId} {x : String}

theorem size_addFrame (s : State) (frame : Frame) :
    (s.addFrame frame).frames.size = s.frames.size + 1 := Array.size_push _

theorem lt_size_addFrame (s : State) (frame : Frame) :
    s.frames.size < (s.addFrame frame).frames.size := by
  rw [size_addFrame]
  exact Nat.lt_succ_self _

theorem Linked.addFrame (hs : s.Linked) {frame : Frame}
    (hframe : ∀ o, frame.outer = some o → o < s.frames.size) : (s.addFrame frame).Linked := by
  intro f o ho
  have hlink := liesIn_iff_getElem?_links.mp ho
  rw [size_addFrame]
  rw [links_addFrame, List.getElem?_append] at hlink
  split at hlink
  · exact Nat.lt_succ_of_lt (hs f o (liesIn_iff_getElem?_links.mpr hlink))
  · rw [List.getElem?_singleton] at hlink
    split at hlink
    · exact Nat.lt_succ_of_lt (hframe o (Option.some.inj hlink))
    · cases hlink

theorem Linked.of_links (hs : s.Linked) (hlinks : t.links = s.links) : t.Linked := by
  intro f o ho
  rw [liesIn_iff_getElem?_links, hlinks] at ho
  rw [← length_links, hlinks, length_links]
  exact hs f o (liesIn_iff_getElem?_links.mpr ho)

theorem Later.refl (hs : s.Linked) : s.Later s := ⟨List.prefix_rfl, hs⟩

theorem Later.liesIn_iff (h : s.Later t) (hg : g < s.frames.size) :
    t.LiesIn g o ↔ s.LiesIn g o := by
  obtain ⟨rest, hrest⟩ := h.links
  rw [← length_links] at hg
  rw [liesIn_iff_getElem?_links, liesIn_iff_getElem?_links, ← hrest, List.getElem?_append_left hg]

/-- Where frames bind a name as they did before, it is looked up where it was. -/
theorem Later.resolves_iff (h : s.Later t) (hs : s.Linked)
    (hx : ∀ g < s.frames.size, t.binding? g x = s.binding? g x) (hg : g < s.frames.size) :
    t.Resolves x g f ↔ s.Resolves x g f := by
  constructor
  · intro hf
    induction hf with
    | here hbound => exact .here (hx _ hg ▸ hbound)
    | inner hnone ho _ ih =>
      have ho := (h.liesIn_iff hg).mp ho
      exact .inner (hx _ hg ▸ hnone) ho (ih (hs _ _ ho))
  · intro hf
    induction hf with
    | here hbound => exact .here ((hx _ hg).trans hbound)
    | inner hnone ho _ ih =>
      exact .inner ((hx _ hg).trans hnone) ((h.liesIn_iff hg).mpr ho) (ih (hs _ _ ho))

theorem Later.lookup_eq (h : s.Later t) (hs : s.Linked)
    (hx : ∀ g < s.frames.size, t.binding? g x = s.binding? g x) (hg : g < s.frames.size) :
    t.lookup g x = s.lookup g x := by
  refine Option.ext fun v => ?_
  rw [lookup_eq_some_iff, lookup_eq_some_iff]
  refine exists_congr fun f => ?_
  rw [h.resolves_iff hs hx hg]
  exact and_congr_right fun hf => by rw [hx f hf.lt_size]

/-- All frames of `s` are in `t`, and bind what they bound, but for what `f` binds `x` to. -/
structure KeepsBut (s : State) (f : FrameId) (x : String) (t : State) : Prop where
  later : s.Later t
  binding : ∀ g < s.frames.size, ∀ y, ¬ (g = f ∧ y = x) → t.binding? g y = s.binding? g y

namespace KeepsBut

theorem refl (hs : s.Linked) (f : FrameId) (x : String) : s.KeepsBut f x s :=
  ⟨.refl hs, fun _ _ _ _ => rfl⟩

theorem of_frames (h : s.KeepsBut f x t) {t' : State} (ht : t'.frames = t.frames) :
    s.KeepsBut f x t' := by
  have hlinks : t'.links = t.links := by rw [links, links, ht]
  refine ⟨⟨hlinks ▸ h.later.links, h.later.linked.of_links hlinks⟩, fun g hg y hy => ?_⟩
  rw [binding?, ht]
  exact h.binding g hg y hy

theorem addFrame (h : s.KeepsBut f x t) {frame : Frame} (ho : frame.outer = some o)
    (hsize : o < t.frames.size) : s.KeepsBut f x (t.addFrame frame) where
  later := by
    refine ⟨?_, h.later.linked.addFrame fun o' ho' => ?_⟩
    · rw [links_addFrame]
      exact h.later.links.trans (List.prefix_append _ _)
    · rw [ho] at ho'
      exact Option.some.inj ho' ▸ hsize
  binding g hg y hy := by
    rw [binding?_addFrame (h.later.lt_size hg), h.binding g hg y hy]

theorem define (h : s.KeepsBut f x t) (v : Value) : s.KeepsBut f x (t.define f x v) where
  later := ⟨links_define t f x v ▸ h.later.links, h.later.linked.of_links (links_define t f x v)⟩
  binding g hg y hy := by
    rw [binding?_define, if_neg fun heq => hy ⟨heq.1.symm, heq.2.symm⟩, h.binding g hg y hy]

/-- All other names mean what they meant. -/
theorem lookup_eq (h : s.KeepsBut f x t) (hs : s.Linked) {y : String} (hy : y ≠ x)
    (hg : g < s.frames.size) : t.lookup g y = s.lookup g y :=
  h.later.lookup_eq hs (fun g hg => h.binding g hg y fun heq => hy heq.2) hg

end KeepsBut

end State

end MiniLisp
