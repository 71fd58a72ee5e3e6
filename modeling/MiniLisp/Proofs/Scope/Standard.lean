import MiniLisp.Eval.Outcome

/-!
# Names in standard frames

A frame that is made of a list of bindings binds nothing else (`Frame.mem_of_getElem?_ofList`). A
standard frame binds every procedure of the language to its name (`getElem?_standard`), and no
such name is the keyword of a form, so that a list with the name of a primitive at its head is a
call. A frame without an outer frame is all that is looked at from there.
-/

namespace MiniLisp

namespace Frame

theorem mem_of_getElem?_insertMany {bindings : Bindings} {entries : List (String × Value)}
    {x : String} {v : Value} (h : (bindings.insertMany entries)[x]? = some v) :
    (x, v) ∈ entries ∨ bindings[x]? = some v := by
  induction entries generalizing bindings with
  | nil =>
    rw [Std.TreeMap.insertMany_nil] at h
    exact .inr h
  | cons entry entries ih =>
    rw [Std.TreeMap.insertMany_cons] at h
    rcases ih h with hmem | hinsert
    · exact .inl (.tail _ hmem)
    · rw [Std.TreeMap.getElem?_insert] at hinsert
      split at hinsert
      · rename_i heq
        obtain rfl := Std.LawfulEqCmp.compare_eq_iff_eq.mp heq
        obtain rfl := Option.some.inj hinsert
        exact .inl (.head _)
      · exact .inr hinsert

theorem mem_of_getElem?_ofList {entries : List (String × Value)} {x : String} {v : Value}
    (h : (Std.TreeMap.ofList entries : Bindings)[x]? = some v) : (x, v) ∈ entries := by
  rw [Std.TreeMap.ofList_eq_insertMany_empty] at h
  rcases mem_of_getElem?_insertMany h with h | h
  · exact h
  · simp at h

theorem names_standard_nodup :
    (builtins.map Builtin.id ++ constants.map Prod.fst).Nodup := by
  decide +kernel

/-- All procedures of the language are bound in a standard frame. -/
theorem getElem?_standard {b : Builtin} (h : b ∈ builtins) :
    Frame.standard.bindings[b.id]? = some (.builtin b) := by
  have hmem : (b.id, Value.builtin b) ∈ builtins.map (fun b => (b.id, Value.builtin b)) ++
      constants.map fun c => (c.1, Value.float c.2) :=
    List.mem_append_left _ (List.mem_map_of_mem h)
  have hnames : ((builtins.map (fun b => (b.id, Value.builtin b)) ++
      constants.map fun c => (c.1, Value.float c.2)).map Prod.fst).Nodup := by
    rw [List.map_append, List.map_map, List.map_map]
    exact names_standard_nodup
  refine Std.TreeMap.getElem?_ofList_of_mem Std.ReflCmp.compare_self ?_ hmem
  rw [List.Nodup, List.pairwise_map] at hnames
  simpa using hnames

end Frame

theorem mem_builtins_primitive (p : Primitive) : p.builtin ∈ builtins :=
  List.mem_append_left _ (List.mem_map_of_mem p.mem_all)

namespace State

variable {s : State} {f : FrameId} {frame : Frame} {x : String}

/-- Nothing is outward of a frame without an outer frame. -/
theorem chain_of_root (h : s.frames[f]? = some frame) (ho : frame.outer = none) :
    s.chain f = [f] := by
  have hsize : f < s.frames.size := (Array.getElem?_eq_some_iff.mp h).1
  obtain ⟨n, hn⟩ := Nat.exists_eq_succ_of_ne_zero (Nat.ne_zero_of_lt hsize)
  simp only [chain, hn, chainFrom, h, ho]

theorem lookup_of_root (h : s.frames[f]? = some frame) (ho : frame.outer = none) :
    s.lookup f x = frame.bindings[x]? := by
  simp [lookup, chain_of_root h ho, binding?, h]

/-- From a standard frame that was just made, the name of a primitive leads to the primitive. -/
theorem lookup_addFrame_standard (s : State) (p : Primitive) :
    (s.addFrame .standard).lookup s.frames.size p.name = some (.builtin p.builtin) := by
  have hframe : (s.addFrame .standard).frames[s.frames.size]? = some .standard := by
    simp [addFrame]
  rw [lookup_of_root hframe rfl]
  exact Frame.getElem?_standard (mem_builtins_primitive p)

end State

namespace Form

theorem ofName?_name (p : Primitive) : Keyword.ofName? p.name = none := by
  have hall : ∀ p ∈ Primitive.all, Keyword.ofName? p.name = none := by decide
  exact hall p p.mem_all

/-- A list with the name of a primitive at its head is a call. -/
theorem ofList_primitive (p : Primitive) (operands : List Expr) :
    ofList (.symbol p.name :: operands) = .ok (.call (.symbol p.name) operands) := by
  simp only [ofList, Expr.symbol?, Option.bind_some, ofName?_name]

end Form

end MiniLisp
