import MiniLisp.Proofs.Scope.Resolution
import Mathlib.Data.List.Forall2
import Mathlib.Data.String.Basic

/-!
# Listings of bindings

The bindings that are visible from a frame are found by laying frames over each other, the outermost
first; what is on top then is what looking a name up finds (`getElem?_foldr_overlay`). Listings are
in ascending order, so that they say no more than what each name is bound to (`rel_toList`,
`toList_congr`). So a listing can be put together from the listing of the outer frame
(`visible_eq_overlay`), in whatever order names come there.
-/

namespace MiniLisp

namespace State

/-- Bindings laid over others hide them. -/
theorem getElem?_insertMany_toList (seen upper : Bindings) (x : String) :
    (seen.insertMany upper.toList)[x]? = upper[x]?.or seen[x]? := by
  cases hv : upper[x]? with
  | some v =>
    exact Std.TreeMap.getElem?_insertMany_list_of_mem Std.ReflCmp.compare_self
      Std.TreeMap.distinct_keys_toList (Std.TreeMap.mem_toList_iff_getElem?_eq_some.mpr hv)
  | none =>
    refine Std.TreeMap.getElem?_insertMany_list_of_contains_eq_false ?_
    rw [Std.TreeMap.map_fst_toList_eq_keys, Std.TreeMap.contains_keys,
      Std.TreeMap.contains_eq_isSome_getElem?, hv]
    rfl

theorem getElem?_overlay (s : State) (f : FrameId) (seen : Bindings) (x : String) :
    (s.overlay f seen)[x]? = (s.binding? f x).or seen[x]? := by
  unfold overlay binding?
  cases s.frames[f]? with
  | none => rfl
  | some frame => exact getElem?_insertMany_toList seen frame.bindings x

/-- Frames laid over each other show what the first of them binds that binds the name. -/
theorem getElem?_foldr_overlay (s : State) (frames : List FrameId) (x : String) :
    (frames.foldr s.overlay ∅)[x]? = frames.findSome? (s.binding? · x) := by
  induction frames with
  | nil => simp
  | cons f rest ih =>
    rw [List.foldr_cons, getElem?_overlay, ih, List.findSome?_cons]
    cases s.binding? f x <;> rfl

end State

section Listings

variable {α β : Type} {R : α → β → Prop}

/-- Listings in ascending order that bind the same names agree entry by entry. -/
theorem forall₂_of_ascending {as : List (String × α)} {bs : List (String × β)}
    (has : as.Pairwise fun p q => compare p.1 q.1 = .lt)
    (hbs : bs.Pairwise fun p q => compare p.1 q.1 = .lt)
    (hab : ∀ x v, (x, v) ∈ as → ∃ w, (x, w) ∈ bs ∧ R v w)
    (hba : ∀ x w, (x, w) ∈ bs → ∃ v, (x, v) ∈ as) :
    List.Forall₂ (fun p q => p.1 = q.1 ∧ R p.2 q.2) as bs := by
  induction as generalizing bs with
  | nil =>
    cases bs with
    | nil => exact .nil
    | cons q bs =>
      obtain ⟨v, hv⟩ := hba q.1 q.2 (.head _)
      cases hv
  | cons p as ih =>
    cases bs with
    | nil =>
      obtain ⟨w, hw, -⟩ := hab p.1 p.2 (.head _)
      cases hw
    | cons q bs =>
      obtain ⟨x, v⟩ := p
      obtain ⟨y, w⟩ := q
      rw [List.pairwise_cons] at has hbs
      have hirrefl {z : String} : compare z z ≠ .lt := by simp
      -- Neither of the first names comes before the other, for it would be missing there.
      have hxy : x = y := by
        obtain ⟨w', hw', -⟩ := hab x v (.head _)
        obtain ⟨v', hv'⟩ := hba y w (.head _)
        rcases List.mem_cons.mp hw' with h | hw'
        · exact (Prod.mk.inj h).1
        · rcases List.mem_cons.mp hv' with h | hv'
          · exact (Prod.mk.inj h).1.symm
          · have hyx := hbs.1 _ hw'
            have hxy := has.1 _ hv'
            exact absurd (Std.TransCmp.lt_trans hxy hyx) hirrefl
      subst hxy
      have hother {z : String} {u : α} (h : (z, u) ∈ as) : z ≠ x := by
        rintro rfl
        exact hirrefl (has.1 (z, u) h)
      have hother' {z : String} {u : β} (h : (z, u) ∈ bs) : z ≠ x := by
        rintro rfl
        exact hirrefl (hbs.1 (z, u) h)
      have hvw : R v w := by
        obtain ⟨w', hw', hR⟩ := hab x v (.head _)
        rcases List.mem_cons.mp hw' with h | hw'
        · rwa [← (Prod.mk.inj h).2]
        · exact absurd rfl (hother' hw')
      refine .cons ⟨rfl, hvw⟩ (ih has.2 hbs.2 (fun z u hu => ?_) fun z u hu => ?_)
      · obtain ⟨w', hw', hR⟩ := hab z u (.tail _ hu)
        rcases List.mem_cons.mp hw' with h | hw'
        · exact absurd (Prod.mk.inj h).1 (hother hu)
        · exact ⟨w', hw', hR⟩
      · obtain ⟨v', hv'⟩ := hba z u (.tail _ hu)
        rcases List.mem_cons.mp hv' with h | hv'
        · exact absurd (Prod.mk.inj h).1 (hother' hu)
        · exact ⟨v', hv'⟩

/-- Bindings that agree name by name are listed alike. -/
theorem rel_toList {R : Value → Value → Prop} {a b : Bindings}
    (h : ∀ x : String, Option.Rel R a[x]? b[x]?) :
    List.Forall₂ (fun p q => p.1 = q.1 ∧ R p.2 q.2) a.toList b.toList := by
  refine forall₂_of_ascending Std.TreeMap.ordered_keys_toList Std.TreeMap.ordered_keys_toList
    (fun x v hv => ?_) fun x w hw => ?_
  · rw [Std.TreeMap.mem_toList_iff_getElem?_eq_some] at hv
    have hx := h x
    rw [hv] at hx
    cases hw : b[x]? with
    | none =>
      rw [hw] at hx
      cases hx
    | some w =>
      rw [hw] at hx
      cases hx with
      | some hR => exact ⟨w, Std.TreeMap.mem_toList_iff_getElem?_eq_some.mpr hw, hR⟩
  · rw [Std.TreeMap.mem_toList_iff_getElem?_eq_some] at hw
    have hx := h x
    rw [hw] at hx
    cases hv : a[x]? with
    | none =>
      rw [hv] at hx
      cases hx
    | some v => exact ⟨v, Std.TreeMap.mem_toList_iff_getElem?_eq_some.mpr hv⟩

/-- Bindings that agree are listed the same. -/
theorem toList_congr {a b : Bindings} (h : ∀ x : String, a[x]? = b[x]?) : a.toList = b.toList := by
  have hrel := rel_toList (R := Eq) (a := a) (b := b) fun x => by
    rw [h x]
    cases b[x]? with
    | none => exact .none
    | some v => exact .some rfl
  rw [← List.forall₂_eq_eq_eq]
  exact hrel.imp fun p q hpq => Prod.ext hpq.1 hpq.2

end Listings

namespace State

variable {s : State} {f o : FrameId} {x : String} {v : Value}

/-- What is listed for a name is what looking it up finds. -/
theorem mem_visible_iff : (x, v) ∈ s.visible f ↔ s.lookup f x = some v := by
  rw [visible, Std.TreeMap.mem_toList_iff_getElem?_eq_some, getElem?_foldr_overlay, lookup]

theorem visible_ascending (s : State) (f : FrameId) :
    (s.visible f).Pairwise fun p q => p.1 < q.1 :=
  Std.TreeMap.ordered_keys_toList.imp fun h => compare_lt_iff_lt.mp h

theorem mem_map_visible_iff :
    x ∈ (s.visible f).map Prod.fst ↔ (s.lookup f x).isSome := by
  rw [Option.isSome_iff_exists, List.mem_map]
  constructor
  · rintro ⟨⟨y, v⟩, hv, rfl⟩
    exact ⟨v, mem_visible_iff.mp hv⟩
  · rintro ⟨v, hv⟩
    exact ⟨(x, v), mem_visible_iff.mpr hv, rfl⟩

/-- The listing of a frame is that of its outer frame, if there is one, with its own bindings laid
over it. -/
theorem visible_eq_overlay (s : State) (f : FrameId) :
    s.visible f =
      (s.overlay f (.ofList ((s.frames[f]?.bind Frame.outer).elim [] s.visible))).toList := by
  refine toList_congr fun x => ?_
  rw [getElem?_foldr_overlay, getElem?_overlay, Std.TreeMap.ofList_eq_insertMany_empty, ← lookup]
  cases houter : s.frames[f]?.bind Frame.outer with
  | none =>
    have hroot (o : FrameId) : ¬ s.LiesIn f o := fun ho => by
      cases houter.symm.trans (Option.bind_eq_some_iff.mpr ho)
    rw [lookup_root hroot]
    simp
  | some o =>
    have ho : s.LiesIn f o := Option.bind_eq_some_iff.mp houter
    rw [lookup_inner ho, Option.elim_some, visible, getElem?_insertMany_toList,
      getElem?_foldr_overlay, ← lookup]
    simp

/-- The listing agrees with looking names up: it is in ascending order, so that no name comes twice,
it holds of every name what looking it up finds, and it holds no name that no frame outward binds.
It is what one gets from the listing of the outer frame by laying the bindings of the frame itself
over it. -/
theorem listing_agrees_with_lookup (s : State) (f : FrameId) :
    ((s.visible f).Pairwise fun p q => p.1 < q.1) ∧ ((s.visible f).map Prod.fst).Nodup ∧
    (∀ x v, (x, v) ∈ s.visible f ↔ s.lookup f x = some v) ∧
    (∀ x, x ∈ (s.visible f).map Prod.fst ↔
      ∃ g, Relation.ReflTransGen s.LiesIn f g ∧ (s.binding? g x).isSome) ∧
    s.visible f =
      (s.overlay f (.ofList ((s.frames[f]?.bind Frame.outer).elim [] s.visible))).toList := by
  refine ⟨s.visible_ascending f, ?_, fun x v => mem_visible_iff, fun x => ?_,
    s.visible_eq_overlay f⟩
  · rw [List.Nodup, List.pairwise_map]
    exact (s.visible_ascending f).imp fun h => ne_of_lt h
  · rw [mem_map_visible_iff, isSome_lookup_iff]

/-- The frame in the middle hides what the root binds, and the innermost frame binds nothing. -/
example :
    State.visible ⟨#[⟨.ofList [("y", Value.int 2), ("x", Value.int 1)], none⟩,
      ⟨.ofList [("x", Value.int 10)], some 0⟩, .empty (some 1)], 0, #[], ""⟩ 2 =
        [("x", .int 10), ("y", .int 2)] := rfl

end State

end MiniLisp
