import MiniLisp.Proofs.Scope.Standard

/-!
# What names mean once they are bound

Which frames are looked at depends on the outer frames alone (`State.links`), and these stay what
they are when names are bound. So a name that was just bound, by definition or as a parameter, means
the value that it was bound to (`lookup_define`, `lookup_addFrame_zip`).
-/

namespace MiniLisp

/-- The outer frames of all frames, in the order in which the frames were made. -/
def State.links (s : State) : List (Option FrameId) := s.frames.toList.map Frame.outer

namespace State

section Links

variable (s : State) (f : FrameId)

@[simp] theorem length_links : s.links.length = s.frames.size := by simp [links]

theorem getElem?_links : s.links[f]? = s.frames[f]?.map Frame.outer := by simp [links]

@[simp] theorem links_addFrame (frame : Frame) :
    (s.addFrame frame).links = s.links ++ [frame.outer] := by
  simp [links, addFrame]

theorem links_modify {g : Frame → Frame} (hg : ∀ frame, (g frame).outer = frame.outer) :
    ({ s with frames := s.frames.modify f g } : State).links = s.links := by
  refine List.ext_getElem? fun i => ?_
  simp only [getElem?_links, Array.getElem?_modify]
  split
  · rename_i h
    subst h
    cases s.frames[f]? with
    | none => rfl
    | some frame => exact congrArg some (hg frame)
  · rfl

@[simp] theorem links_define (x : String) (v : Value) : (s.define f x v).links = s.links :=
  s.links_modify f fun _ => rfl

@[simp] theorem links_teardown : (s.teardown f).links = s.links :=
  s.links_modify f fun _ => rfl

end Links

theorem chainFrom_congr {s t : State} (h : s.links = t.links) (limit : Nat) (f : FrameId) :
    s.chainFrom limit f = t.chainFrom limit f := by
  induction limit generalizing f with
  | zero => rfl
  | succ limit ih =>
    have hf : s.frames[f]?.map Frame.outer = t.frames[f]?.map Frame.outer := by
      rw [← getElem?_links, ← getElem?_links, h]
    unfold chainFrom
    cases hs : s.frames[f]? with
    | none =>
      rw [hs, Option.map_none] at hf
      rw [Option.map_eq_none_iff.mp hf.symm]
    | some frame =>
      rw [hs, Option.map_some] at hf
      obtain ⟨frame', hframe', houter⟩ := Option.map_eq_some_iff.mp hf.symm
      simp only [hframe', houter, ih]

/-- The same ways lead outward where the outer frames are the same. -/
theorem chain_congr {s t : State} (h : s.links = t.links) (f : FrameId) :
    s.chain f = t.chain f := by
  have hsize : s.frames.size = t.frames.size := by rw [← length_links, ← length_links, h]
  rw [chain, chain, hsize, chainFrom_congr h]

variable {s : State} {f : FrameId} {x : String} {v : Value}

/-- The way outward from a frame starts with that frame. -/
theorem exists_chain_eq_cons (hf : f < s.frames.size) : ∃ rest, s.chain f = f :: rest := by
  obtain ⟨n, hn⟩ := Nat.exists_eq_succ_of_ne_zero (Nat.ne_zero_of_lt hf)
  rw [chain, hn, chainFrom, Array.getElem?_eq_getElem hf]
  simp only
  split
  · exact ⟨[], rfl⟩
  · exact ⟨_, rfl⟩

/-- Only frames that exist bind anything. -/
theorem lt_size_of_binding? (h : s.binding? f x = some v) : f < s.frames.size := by
  obtain ⟨frame, hframe, -⟩ := Option.bind_eq_some_iff.mp h
  exact (Array.getElem?_eq_some_iff.mp hframe).1

/-- What the frame itself binds is what the name means there. -/
theorem lookup_of_binding? (h : s.binding? f x = some v) : s.lookup f x = some v := by
  obtain ⟨rest, hrest⟩ := exists_chain_eq_cons (lt_size_of_binding? h)
  rw [lookup, hrest, List.findSome?_cons, h]

theorem lookup_define (hf : f < s.frames.size) (x : String) (v : Value) :
    (s.define f x v).lookup f x = some v := by
  refine lookup_of_binding? ?_
  rw [binding?_define, if_pos ⟨rfl, rfl⟩, Array.getElem?_eq_getElem hf, Option.map_some]

/-- In a frame that is made for a call every parameter means its argument. -/
theorem lookup_addFrame_zip {params : List String} {args : List Value} (hparams : params.Nodup)
    (hlength : params.length = args.length) (hv : (x, v) ∈ params.zip args)
    (outer : Option FrameId) :
    (s.addFrame ⟨Std.TreeMap.ofList (params.zip args), outer⟩).lookup s.frames.size x = some v := by
  have hnames : ((params.zip args).map Prod.fst).Nodup := by
    rwa [List.map_fst_zip (Nat.le_of_eq hlength)]
  rw [List.Nodup, List.pairwise_map] at hnames
  refine lookup_of_binding? ?_
  rw [binding?, addFrame, Array.getElem?_push_size, Option.bind_some]
  exact Std.TreeMap.getElem?_ofList_of_mem Std.ReflCmp.compare_self (by simpa using hnames) hv

end State

end MiniLisp
