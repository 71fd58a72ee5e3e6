import MiniLisp.Proofs.Scope.Binding
import MiniLisp.Proofs.Scope.Chain

/-!
# Which frame a name is looked up in

A name means what the first frame on the way outward binds it to. `State.Resolves` says which frame
that is by walking from a frame to its outer frame and not by any limit, and looking a name up and
assigning to it find that frame (`lookup_eq_some_iff`, `owner?_eq_some_iff`). Where the bindings of
one frame change, only names that were or are now looked up in that frame can mean something else
(`SameBut.lookup_eq`); binding, assigning and clearing are cases of this.
-/

namespace MiniLisp

namespace State

/-- From the first frame outward, the second is the first that binds `x`. -/
inductive Resolves (s : State) (x : String) : FrameId → FrameId → Prop where
  | here {g : FrameId} {v : Value} (hbound : s.binding? g x = some v) : Resolves s x g g
  | inner {g o f : FrameId} (hnone : s.binding? g x = none) (ho : s.LiesIn g o)
      (hrest : Resolves s x o f) : Resolves s x g f

variable {s t : State} {f g o : FrameId} {x y : String} {v : Value}

theorem lookup_inner (ho : s.LiesIn g o) (x : String) :
    s.lookup g x = (s.binding? g x).or (s.lookup o x) :=
  findSome?_chain_inner ho _

theorem owner?_inner (ho : s.LiesIn g o) (x : String) :
    s.owner? g x = if (s.binding? g x).isSome then some g else s.owner? o x := by
  unfold owner?
  rw [List.find?_eq_findSome?_guard, List.find?_eq_findSome?_guard, findSome?_chain_inner ho]
  cases hv : s.binding? g x with
  | none => simp [Option.guard, hv]
  | some v => simp [Option.guard, hv]

/-- A frame that binds the name is where the name is looked up. -/
theorem owner?_of_binding? (h : s.binding? g x = some v) : s.owner? g x = some g := by
  obtain ⟨rest, hrest⟩ := exists_chain_eq_cons (lt_size_of_binding? h)
  rw [owner?, hrest, List.find?_cons, h]
  rfl

namespace Resolves

theorem bound (h : s.Resolves x g f) : ∃ v, s.binding? f x = some v := by
  induction h with
  | here hbound => exact ⟨_, hbound⟩
  | inner _ _ _ ih => exact ih

theorem lookup_eq (h : s.Resolves x g f) : s.lookup g x = s.binding? f x := by
  induction h with
  | here hbound => rw [lookup_of_binding? hbound, hbound]
  | inner hnone ho _ ih => rw [lookup_inner ho, hnone, Option.none_or, ih]

theorem owner?_eq (h : s.Resolves x g f) : s.owner? g x = some f := by
  induction h with
  | here hbound => exact owner?_of_binding? hbound
  | inner hnone ho _ ih => rw [owner?_inner ho, hnone, ih]; rfl

theorem unique (h : s.Resolves x g f) {e : FrameId} (he : s.Resolves x g e) : f = e :=
  Option.some.inj (h.owner?_eq.symm.trans he.owner?_eq)

theorem lt_size (h : s.Resolves x g f) : f < s.frames.size := by
  obtain ⟨v, hv⟩ := h.bound
  exact lt_size_of_binding? hv

/-- The frame found lies outward. -/
theorem outward (h : s.Resolves x g f) : Relation.ReflTransGen s.LiesIn g f := by
  induction h with
  | here => exact .refl
  | inner _ ho _ ih => exact .head ho ih

end Resolves

theorem resolves_of_owner? (h : s.owner? g x = some f) : s.Resolves x g f := by
  unfold owner? chain at h
  generalize s.frames.size = limit at h
  induction limit generalizing g with
  | zero => cases h
  | succ limit ih =>
    -- The first frame is the one, or the rest of the way is walked from its outer frame.
    have hfirst {rest : List FrameId}
        (hfind : (g :: rest).find? (fun h => (s.binding? h x).isSome) = some f)
        (hrest : rest.find? (fun h => (s.binding? h x).isSome) = some f →
          s.binding? g x = none → s.Resolves x g f) : s.Resolves x g f := by
      rw [List.find?_cons] at hfind
      cases hv : s.binding? g x with
      | some v =>
        rw [hv] at hfind
        cases hfind
        exact .here hv
      | none =>
        rw [hv] at hfind
        exact hrest hfind hv
    cases hframe : s.frames[g]? with
    | none => simp [chainFrom, hframe] at h
    | some frame =>
      cases houter : frame.outer with
      | none =>
        simp only [chainFrom, hframe, houter] at h
        exact hfirst h fun hrest _ => (by cases hrest)
      | some o =>
        simp only [chainFrom, hframe, houter] at h
        exact hfirst h fun hrest hnone => .inner hnone ⟨frame, hframe, houter⟩ (ih hrest)

/-- Assigning finds the frame that the name is looked up in. -/
theorem owner?_eq_some_iff : s.owner? g x = some f ↔ s.Resolves x g f :=
  ⟨resolves_of_owner?, Resolves.owner?_eq⟩

/-- A name means what the frame binds it to that it is looked up in. -/
theorem lookup_eq_some_iff :
    s.lookup g x = some v ↔ ∃ f, s.Resolves x g f ∧ s.binding? f x = some v := by
  constructor
  · intro h
    obtain ⟨e, he, hbound⟩ := List.exists_of_findSome?_eq_some h
    have howner : (s.owner? g x).isSome := List.find?_isSome.mpr ⟨e, he, by rw [hbound]; rfl⟩
    obtain ⟨f, hf⟩ := Option.isSome_iff_exists.mp howner
    have hf := owner?_eq_some_iff.mp hf
    exact ⟨f, hf, hf.lookup_eq ▸ h⟩
  · rintro ⟨f, hf, hbound⟩
    rw [hf.lookup_eq, hbound]

theorem liesIn_iff_getElem?_links : s.LiesIn f o ↔ s.links[f]? = some (some o) := by
  rw [getElem?_links, Option.map_eq_some_iff]
  rfl

/-- In a frame that lies in no other a name means what the frame itself binds it to. -/
theorem lookup_root (h : ∀ o, ¬ s.LiesIn g o) (x : String) : s.lookup g x = s.binding? g x := by
  refine Option.ext fun v => ⟨fun hv => ?_, lookup_of_binding?⟩
  obtain ⟨f, hf, hbound⟩ := lookup_eq_some_iff.mp hv
  cases hf with
  | here => exact hbound
  | inner _ ho _ => exact absurd ho (h _)

/-- A name means something exactly where some frame outward binds it. -/
theorem isSome_lookup_iff : (s.lookup g x).isSome ↔
    ∃ f, Relation.ReflTransGen s.LiesIn g f ∧ (s.binding? f x).isSome := by
  constructor
  · intro h
    obtain ⟨v, hv⟩ := Option.isSome_iff_exists.mp h
    obtain ⟨f, hf, hbound⟩ := lookup_eq_some_iff.mp hv
    exact ⟨f, hf.outward, by rw [hbound]; rfl⟩
  · rintro ⟨f, hf, hbound⟩
    induction hf using Relation.ReflTransGen.head_induction_on with
    | refl =>
      obtain ⟨v, hv⟩ := Option.isSome_iff_exists.mp hbound
      rw [lookup_of_binding? hv]
      rfl
    | head ho _ ih =>
      rw [lookup_inner ho, Option.isSome_or, ih, Bool.or_true]

section NewFrame

/-- Outer frames are frames that exist. -/
def Linked (s : State) : Prop := ∀ f o, s.LiesIn f o → o < s.frames.size

theorem getElem?_addFrame {frame : Frame} (hf : f < s.frames.size) :
    (s.addFrame frame).frames[f]? = s.frames[f]? := by
  simp [addFrame, Array.getElem?_push, Nat.ne_of_lt hf]

theorem liesIn_addFrame_iff {frame : Frame} (hf : f < s.frames.size) :
    (s.addFrame frame).LiesIn f o ↔ s.LiesIn f o := by
  rw [LiesIn, LiesIn, getElem?_addFrame hf]

/-- A new frame does not come to lie outward of frames that were there. -/
theorem resolves_addFrame_iff (hs : s.Linked) {frame : Frame} (hg : g < s.frames.size) :
    (s.addFrame frame).Resolves x g f ↔ s.Resolves x g f := by
  constructor
  · intro h
    induction h with
    | here hbound => exact .here (binding?_addFrame hg frame x ▸ hbound)
    | inner hnone ho _ ih =>
      have ho := (liesIn_addFrame_iff hg).mp ho
      exact .inner (binding?_addFrame hg frame x ▸ hnone) ho (ih (hs _ _ ho))
  · intro h
    induction h with
    | here hbound => exact .here (binding?_addFrame hg frame x ▸ hbound)
    | inner hnone ho _ ih =>
      exact .inner ((binding?_addFrame hg frame x).trans hnone) ((liesIn_addFrame_iff hg).mpr ho)
        (ih (hs _ _ ho))

/-- Names mean what they did in frames that were there. -/
theorem lookup_addFrame (hs : s.Linked) (frame : Frame) (hg : g < s.frames.size) (x : String) :
    (s.addFrame frame).lookup g x = s.lookup g x := by
  refine Option.ext fun v => ?_
  rw [lookup_eq_some_iff, lookup_eq_some_iff]
  refine exists_congr fun f => ?_
  rw [resolves_addFrame_iff hs hg]
  exact and_congr_right fun hf => by rw [binding?_addFrame hf.lt_size]

/-- In a new frame a name that it does not bind means what it does in the frame that it lies in. -/
theorem lookup_new (hs : s.Linked) {frame : Frame} (ho : frame.outer = some o)
    (hsize : o < s.frames.size) (hx : frame.bindings[x]? = none) :
    (s.addFrame frame).lookup s.frames.size x = s.lookup o x := by
  have hnew : (s.addFrame frame).frames[s.frames.size]? = some frame := Array.getElem?_push_size
  have hnone : (s.addFrame frame).binding? s.frames.size x = none := by
    rw [binding?, hnew, Option.bind_some, hx]
  rw [lookup_inner ⟨frame, hnew, ho⟩, hnone, Option.none_or, lookup_addFrame hs frame hsize]

end NewFrame

/-- The frames lie in each other as before, and all but `f` bind `y` to what they did. -/
structure SameBut (s t : State) (f : FrameId) (y : String) : Prop where
  links : t.links = s.links
  binding : ∀ g, g ≠ f → t.binding? g y = s.binding? g y

namespace SameBut

theorem symm (h : s.SameBut t f y) : t.SameBut s f y :=
  ⟨h.links.symm, fun g hg => (h.binding g hg).symm⟩

theorem liesIn (h : s.SameBut t f y) (ho : s.LiesIn g o) : t.LiesIn g o := by
  rw [liesIn_iff_getElem?_links] at ho ⊢
  rw [h.links, ho]

/-- A name that is now not looked up in `f` is still looked up where it was, unless that was
`f`. -/
theorem resolves (h : s.SameBut t f y) {e : FrameId} (hs : s.Resolves y g e) (hne : e ≠ f)
    (ht : ¬ t.Resolves y g f) : t.Resolves y g e := by
  induction hs with
  | here hbound => exact .here ((h.binding _ hne).trans hbound)
  | @inner g o e hnone ho _ ih =>
    have hstill : t.binding? g y = none := by
      by_cases hg : g = f
      · subst hg
        rw [Option.eq_none_iff_forall_ne_some]
        exact fun v hv => ht (.here hv)
      · rw [h.binding g hg, hnone]
    exact .inner hstill (h.liesIn ho) (ih hne fun hrest => ht (.inner hstill (h.liesIn ho) hrest))

/-- A name that was looked up in `f` is still looked up there if `f` still binds it. -/
theorem resolves_self (h : s.SameBut t f y) (hs : s.Resolves y g f)
    (hbound : t.binding? f y = some v) : t.Resolves y g f := by
  induction hs with
  | here => exact .here hbound
  | @inner g o f hnone ho hrest ih =>
    have hg : g ≠ f := by
      rintro rfl
      obtain ⟨u, hu⟩ := hrest.bound
      rw [hnone] at hu
      cases hu
    exact .inner ((h.binding g hg).trans hnone) (h.liesIn ho) (ih h hbound)

/-- Names that neither were nor are looked up in `f` mean what they did. -/
theorem lookup_eq (h : s.SameBut t f y) (hs : ¬ s.Resolves y g f) (ht : ¬ t.Resolves y g f) :
    t.lookup g y = s.lookup g y := by
  have hmeans {s t : State} (h : s.SameBut t f y) (hs : ¬ s.Resolves y g f)
      (ht : ¬ t.Resolves y g f) {v : Value} (hv : s.lookup g y = some v) :
      t.lookup g y = some v := by
    obtain ⟨e, he, hbound⟩ := lookup_eq_some_iff.mp hv
    have hne : e ≠ f := fun heq => hs (heq ▸ he)
    exact lookup_eq_some_iff.mpr ⟨e, h.resolves he hne ht, (h.binding e hne).trans hbound⟩
  exact Option.ext fun v => ⟨hmeans h.symm ht hs, hmeans h hs ht⟩

end SameBut

/-- What names mean in `t`, where `f` now binds `x` to `v`: nothing but `x` has changed its meaning,
and only where it is looked up in `f`. It means `v` there, and elsewhere only where it did
before. -/
structure Rebound (s t : State) (f : FrameId) (x : String) (v : Value) : Prop where
  first : ∀ g, t.Resolves x g f → t.lookup g x = some v
  other : ∀ g y, ¬ (y = x ∧ t.Resolves x g f) → t.lookup g y = s.lookup g y
  value_iff : ∀ g, t.lookup g x = some v ↔ t.Resolves x g f ∨ s.lookup g x = some v

/-- Nothing in the state is different but what the frame `f` binds `x` to. -/
structure DiffersOnly (s t : State) (f : FrameId) (x : String) (v : Value) : Prop where
  bound : t.binding? f x = some v
  unbound : ∀ g y, ¬ (g = f ∧ y = x) → t.binding? g y = s.binding? g y
  links : t.links = s.links
  fresh : t.fresh = s.fresh
  hosts : t.hosts = s.hosts
  output : t.output = s.output

/-- What names mean in `t`, where `f` binds nothing any more: what was looked up in `f` is looked up
from the outer frame of `f`, if there is one. -/
structure Cleared (s t : State) (f : FrameId) : Prop where
  outward : ∀ g o y, s.Resolves y g f → s.LiesIn f o → t.lookup g y = s.lookup o y
  root : ∀ g y, s.Resolves y g f → (∀ o, ¬ s.LiesIn f o) → t.lookup g y = none
  other : ∀ g y, ¬ s.Resolves y g f → t.lookup g y = s.lookup g y

theorem differsOnly_define (hf : f < s.frames.size) (x : String) (v : Value) :
    s.DiffersOnly (s.define f x v) f x v where
  bound := by
    rw [binding?_define, if_pos ⟨rfl, rfl⟩, Array.getElem?_eq_getElem hf, Option.map_some]
  unbound g y h := by
    rw [binding?_define, if_neg]
    rintro ⟨rfl, rfl⟩
    exact h ⟨rfl, rfl⟩
  links := s.links_define f x v
  fresh := rfl
  hosts := rfl
  output := rfl

theorem DiffersOnly.sameBut (h : s.DiffersOnly t f x v) (y : String) : s.SameBut t f y :=
  ⟨h.links, fun g hg => h.unbound g y fun hand => hg hand.1⟩

theorem lookup_congr (hlinks : t.links = s.links) (h : ∀ g, t.binding? g y = s.binding? g y) :
    t.lookup g y = s.lookup g y := by
  rw [lookup, lookup, chain_congr hlinks, funext h]

theorem DiffersOnly.rebound (h : s.DiffersOnly t f x v) : s.Rebound t f x v := by
  have hfirst (g : FrameId) (hg : t.Resolves x g f) : t.lookup g x = some v := by
    rw [hg.lookup_eq, h.bound]
  have hother (g : FrameId) (y : String) (hy : ¬ (y = x ∧ t.Resolves x g f)) :
      t.lookup g y = s.lookup g y := by
    by_cases hyx : y = x
    · subst hyx
      have ht : ¬ t.Resolves y g f := fun hg => hy ⟨rfl, hg⟩
      exact (h.sameBut y).lookup_eq (fun hg => ht ((h.sameBut y).resolves_self hg h.bound)) ht
    · exact lookup_congr h.links fun e => h.unbound e y fun hand => hyx hand.2
  refine ⟨hfirst, hother, fun g => ?_⟩
  by_cases hg : t.Resolves x g f
  · exact iff_of_true (hfirst g hg) (.inl hg)
  · rw [hother g x fun hand => hg hand.2, or_iff_right hg]

theorem sameBut_teardown (s : State) (f : FrameId) (y : String) : s.SameBut (s.teardown f) f y where
  links := s.links_teardown f
  binding g hg := by rw [binding?_teardown, if_neg fun h => hg h.symm]

theorem not_resolves_teardown : ¬ (s.teardown f).Resolves y g f := by
  intro h
  obtain ⟨v, hv⟩ := h.bound
  rw [binding?_teardown, if_pos rfl] at hv
  cases hv

/-- What was looked up in `f` is now looked up as it is from `f`, which binds nothing. -/
theorem Resolves.lookup_teardown (h : s.Resolves y g f) :
    (s.teardown f).lookup g y = (s.teardown f).lookup f y := by
  induction h with
  | here => rfl
  | @inner g o f hnone ho _ ih =>
    have hstill : (s.teardown f).binding? g y = none := by
      rw [binding?_teardown, hnone, ite_self]
    rw [lookup_inner ((s.sameBut_teardown f y).liesIn ho), hstill, Option.none_or, ih]

theorem cleared_teardown (hs : s.Acyclic) (f : FrameId) : s.Cleared (s.teardown f) f where
  outward g o y hg ho := by
    have hempty : (s.teardown f).binding? f y = none := by rw [binding?_teardown, if_pos rfl]
    -- From the outer frame no way leads back to `f`.
    have haway : ¬ s.Resolves y o f := fun h => hs f (.head' ho h.outward)
    rw [hg.lookup_teardown, lookup_inner ((s.sameBut_teardown f y).liesIn ho), hempty,
      Option.none_or]
    exact (s.sameBut_teardown f y).lookup_eq haway not_resolves_teardown
  root g y hg hroot := by
    have hroot (o : FrameId) : ¬ (s.teardown f).LiesIn f o := fun ho =>
      hroot o ((s.sameBut_teardown f y).symm.liesIn ho)
    rw [hg.lookup_teardown, lookup_root hroot, binding?_teardown, if_pos rfl]
  other g y hg := (s.sameBut_teardown f y).lookup_eq hg not_resolves_teardown

theorem assign_of_resolves (h : s.Resolves x f g) (v : Value) :
    s.assign f x v = (.ok (), s.define g x v) := by
  rw [assign, owner?_eq_some_iff.mpr h]

theorem assign_of_lookup_eq_none (h : s.lookup f x = none) (v : Value) :
    s.assign f x v = (.error (.unbound x), s) := by
  have howner : s.owner? f x = none := by
    rw [Option.eq_none_iff_forall_ne_some]
    intro g hg
    have hg := owner?_eq_some_iff.mp hg
    obtain ⟨u, hu⟩ := hg.bound
    rw [hg.lookup_eq, hu] at h
    cases h
  rw [assign, howner]

/-- A name that was just assigned means what it was assigned. -/
theorem lookup_assign (h : (s.assign f x v).1 = .ok ()) :
    (s.assign f x v).2.lookup f x = some v := by
  cases howner : s.owner? f x with
  | none =>
    rw [assign, howner] at h
    cases h
  | some g =>
    have hg := owner?_eq_some_iff.mp howner
    have honly := differsOnly_define hg.lt_size x v
    rw [assign_of_resolves hg]
    exact honly.rebound.first f ((honly.sameBut x).resolves_self hg honly.bound)

/-- A name means what the first frame outward binds it to that binds it. What is bound, assigned or
cleared anywhere in a tree of scopes changes what names mean from any of its frames as far as this
says, and no further. -/
theorem lookups_follow_scopes {s : State} (hs : s.Acyclic) {f : FrameId} (hf : f < s.frames.size)
    (x : String) (v : Value) :
    (∀ g y u, s.lookup g y = some u ↔ ∃ h, s.Resolves y g h ∧ s.binding? h y = some u) ∧
    s.Rebound (s.define f x v) f x v ∧
    ((s.assign f x v).1 = .ok () ↔ ∃ u, s.lookup f x = some u) ∧
    (∀ u, s.lookup f x = some u → ∃ h t, s.assign f x v = (.ok (), t) ∧ s.Resolves x f h ∧
      s.DiffersOnly t h x v ∧ s.Rebound t h x v) ∧
    (s.lookup f x = none → s.assign f x v = (.error (.unbound x), s)) ∧
    s.Cleared (s.teardown f) f := by
  have hbound (u : Value) (hu : s.lookup f x = some u) : ∃ h t,
      s.assign f x v = (.ok (), t) ∧ s.Resolves x f h ∧ s.DiffersOnly t h x v ∧
        s.Rebound t h x v := by
    obtain ⟨h, hh, -⟩ := lookup_eq_some_iff.mp hu
    have honly := differsOnly_define hh.lt_size x v
    exact ⟨h, _, assign_of_resolves hh v, hh, honly, honly.rebound⟩
  refine ⟨fun g y u => lookup_eq_some_iff, (differsOnly_define hf x v).rebound, ?_, hbound,
    fun hnone => assign_of_lookup_eq_none hnone v, cleared_teardown hs f⟩
  cases hu : s.lookup f x with
  | none =>
    rw [assign_of_lookup_eq_none hu]
    exact ⟨nofun, nofun⟩
  | some u =>
    obtain ⟨h, t, hassign, -⟩ := hbound u hu
    rw [hassign]
    exact iff_of_true rfl ⟨u, rfl⟩

/-- Two frames in a root, and one in the first of these. What is bound in the first frame can be
seen from the frame in it and not from the other one, what is assigned from there to a name of the
root can be seen from both, and a cleared frame no longer hides what the root binds. -/
theorem lookups_follow_scopes_shadowed :
    let root : Frame := ⟨.ofList [("x", Value.int 1), ("y", Value.int 2)], none⟩
    let first : Frame := ⟨.ofList [("x", Value.int 10)], some 0⟩
    let s : State := ⟨#[root, first, .empty (some 1), .empty (some 0)], 0, #[], ""⟩
    s.Acyclic ∧ 1 < s.frames.size ∧
      (s.define 1 "y" (.int 5)).lookup 2 "y" = some (.int 5) ∧
      (s.define 1 "y" (.int 5)).lookup 3 "y" = some (.int 2) ∧
      (∃ t, s.assign 1 "y" (.int 5) = (.ok (), t) ∧ t.lookup 3 "y" = some (.int 5) ∧
        t.lookup 2 "x" = some (.int 10)) ∧
      (s.teardown 1).lookup 2 "x" = some (.int 1) := by
  intro root first s
  have hs : s.Acyclic := by
    refine acyclic_of_lt fun f o ho => ?_
    have hlink : [none, some 0, some 1, some 0][f]? = some (some o) :=
      liesIn_iff_getElem?_links.mp ho
    rcases f with _ | _ | _ | _ | f <;> cases hlink <;> decide
  have hx : s.Resolves "x" 2 1 := .inner rfl ⟨_, rfl, rfl⟩ (.here (v := .int 10) rfl)
  have hy : s.Resolves "y" 1 0 := .inner rfl ⟨_, rfl, rfl⟩ (.here (v := .int 2) rfl)
  have hbeside : s.Resolves "y" 3 0 := .inner rfl ⟨_, rfl, rfl⟩ (.here (v := .int 2) rfl)
  obtain ⟨-, hdefine, -, hassign, -, hclear⟩ :=
    lookups_follow_scopes hs (f := 1) (by decide) "y" (.int 5)
  refine ⟨hs, by decide, hdefine.first 2 ?_, ?_, ?_, hclear.outward 2 0 "x" hx ⟨_, rfl, rfl⟩⟩
  · exact .inner rfl ⟨_, rfl, rfl⟩ (.here (v := .int 5) rfl)
  · rw [hdefine.other 3 "y", hbeside.lookup_eq]
    · rfl
    · rintro ⟨-, h⟩
      cases h.unique (.inner rfl ⟨_, rfl, rfl⟩ (.here (v := .int 2) rfl))
  · obtain ⟨h, t, hassign, hh, honly, hrebound⟩ := hassign (.int 2) hy.lookup_eq
    obtain rfl := hy.unique hh
    refine ⟨t, hassign, hrebound.first 3 ?_, ?_⟩
    · exact (honly.sameBut "y").resolves_self hbeside honly.bound
    · rw [hrebound.other 2 "x" fun hand => absurd hand.1 (by decide), hx.lookup_eq]
      rfl

end State

end MiniLisp
