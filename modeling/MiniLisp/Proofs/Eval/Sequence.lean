import MiniLisp.Proofs.Eval.Invariant
import MiniLisp.Proofs.Eval.Passing

/-!
# Calls one after the other

`map` calls a procedure on one row of its lists after the other and `apply` calls it once, and they
do nothing else. `Call.inTurn` says what such calls come to with the states written out: each starts
in the state that the one before has left, and the first that fails is the last. The rows are fixed
before the first call is made (`Call.areRows_rowsOf`).
-/

namespace MiniLisp

def Value.IsList (v : Value) : Prop := ∃ id items, v = .list id items

namespace Call

open Eval

/-- There are as many rows as the shortest list has elements, and each holds the elements at its
place, one from each list in order. -/
structure AreRows (lists rows : List (List Value)) : Prop where
  within : ∀ items ∈ lists, rows.length ≤ items.length
  shortest : ∃ items ∈ lists, items.length = rows.length
  row : ∀ (i : Nat) (vs : List Value), rows[i]? = some vs →
    List.Forall₂ (fun items v => items[i]? = some v) lists vs

/-- What calls have come to: which they were, each with the state that it was made in, and their
results in order or the first error. -/
abbrev Turns : Type := List (Call × State) × Outcome (List Value)

/-- After the first call come the others, unless it has failed. -/
def goOn (first : Call × State) (others : State → Turns) : Outcome Value → Turns
  | (.error e, t) => ([first], .error e, t)
  | (.ok v, t) =>
    let (calls, r, u) := others t
    (first :: calls, r.map (v :: ·), u)

/-- Calls of `p` on one row after the other. -/
def inTurn (p : Value) (depth : Nat) : List (List Value) → State → Turns
  | [], s => ([], .ok [], s)
  | vs :: rows, s =>
    goOn (.apply p vs depth, s) (inTurn p depth rows) ((Call.apply p vs depth).outcome s)

/-- A new list of the results, if there are results. -/
def listed : Outcome (List Value) → Outcome Value
  | (.ok vs, t) => (.ok (.list t.fresh vs), { t with fresh := t.fresh + 1 })
  | (.error e, t) => (.error e, t)

section Turns

variable {p v : Value} {vs results : List Value} {depth : Nat} {rows : List (List Value)}
  {s t : State} {e : Error} {y : Call × State}

theorem inTurn_cons_error (h : (Call.apply p vs depth).outcome s = (.error e, t)) :
    inTurn p depth (vs :: rows) s = ([(.apply p vs depth, s)], .error e, t) := by
  rw [inTurn, h, goOn]

theorem inTurn_cons_ok (h : (Call.apply p vs depth).outcome s = (.ok v, t)) :
    inTurn p depth (vs :: rows) s = ((.apply p vs depth, s) :: (inTurn p depth rows t).1,
      (inTurn p depth rows t).2.1.map (v :: ·), (inTurn p depth rows t).2.2) := by
  rw [inTurn, h, goOn]

theorem without_of_ne {c : Call} (h : y ≠ (c, s)) : without y c s = some (c.outcome s) :=
  if_neg fun heq => h heq.symm

/-- Where all calls end, they end as they do in turn. -/
theorem mapM_ends (rows : List (List Value)) (s : State) :
    (rows.mapM fun vs => ends (.apply p vs depth)) s = some (inTurn p depth rows s).2 := by
  induction rows generalizing s with
  | nil => rfl
  | cons vs rows ih =>
    rw [List.mapM_cons]
    rcases hout : (Call.apply p vs depth).outcome s with ⟨e | v, t⟩
    · rw [bind_error (congrArg some hout), inTurn_cons_error hout]
    · rw [bind_ok (congrArg some hout), inTurn_cons_ok hout, bind_apply, ih t]
      generalize inTurn p depth rows t = rest
      obtain ⟨calls, e | vs, u⟩ := rest <;> rfl

/-- The calls that the rest cannot do without are those that are made in turn. -/
theorem mapM_without_iff : (rows.mapM fun vs => without y (.apply p vs depth)) s = none ↔
    y ∈ (inTurn p depth rows s).1 := by
  induction rows generalizing s with
  | nil => exact ⟨nofun, nofun⟩
  | cons vs rows ih =>
    rw [List.mapM_cons]
    by_cases hy : y = (.apply p vs depth, s)
    · subst hy
      refine iff_of_true (bind_eq_none_iff.mpr (.inl (without_self _ _))) ?_
      rcases hout : (Call.apply p vs depth).outcome s with ⟨e | v, t⟩
      · rw [inTurn_cons_error hout]
        exact .head _
      · rw [inTurn_cons_ok hout]
        exact .head _
    · have hfirst := without_of_ne hy
      rcases hout : (Call.apply p vs depth).outcome s with ⟨e | v, t⟩
      · rw [bind_error (hfirst.trans (congrArg some hout)), inTurn_cons_error hout,
          List.mem_singleton]
        exact iff_of_false nofun hy
      · rw [bind_ok (hfirst.trans (congrArg some hout)), inTurn_cons_ok hout, List.mem_cons,
          or_iff_right hy, ← ih, bind_eq_none_iff]
        exact or_iff_left fun ⟨_, _, _, h⟩ => by cases h

/-- The calls are made on the rows in their order, whatever the calls before have done. -/
theorem calls_inTurn_prefix (rows : List (List Value)) (s : State) :
    (inTurn p depth rows s).1.map Prod.fst <+: rows.map (Call.apply p · depth) := by
  induction rows generalizing s with
  | nil => exact List.prefix_rfl
  | cons vs rows ih =>
    rcases hout : (Call.apply p vs depth).outcome s with ⟨e | v, t⟩
    · rw [inTurn_cons_error hout]
      exact (List.prefix_cons_inj _).mpr List.nil_prefix
    · rw [inTurn_cons_ok hout]
      exact (List.prefix_cons_inj _).mpr (ih t)

theorem inTurn_cons_eq_ok (h : (inTurn p depth (vs :: rows) s).2 = (.ok results, t)) :
    ∃ v u rest, (Call.apply p vs depth).outcome s = (.ok v, u) ∧
      (inTurn p depth rows u).2 = (.ok rest, t) ∧ results = v :: rest := by
  rcases hout : (Call.apply p vs depth).outcome s with ⟨e | v, u⟩
  · rw [inTurn_cons_error hout] at h
    cases h
  · rw [inTurn_cons_ok hout] at h
    refine ⟨v, u, ?_⟩
    generalize (inTurn p depth rows u).2 = rest at h ⊢
    obtain ⟨e | vs, t'⟩ := rest
    · cases h
    · cases h
      exact ⟨vs, rfl, rfl, rfl⟩

/-- Where no call fails there is one on every row. -/
theorem calls_of_inTurn_ok (h : (inTurn p depth rows s).2 = (.ok results, t)) :
    (inTurn p depth rows s).1.map Prod.fst = rows.map (Call.apply p · depth) := by
  induction rows generalizing s results with
  | nil => rfl
  | cons vs rows ih =>
    obtain ⟨v, u, rest, hout, hrest, -⟩ := inTurn_cons_eq_ok h
    rw [inTurn_cons_ok hout, List.map_cons, List.map_cons, ih hrest]

/-- The error that calls in turn come to is that of the last call, and the state is what that call
has left. -/
theorem last_of_inTurn_error (h : (inTurn p depth rows s).2 = (.error e, t)) :
    ∃ y, (inTurn p depth rows s).1.getLast? = some y ∧ y.1.outcome y.2 = (.error e, t) := by
  induction rows generalizing s with
  | nil => cases h
  | cons vs rows ih =>
    rcases hout : (Call.apply p vs depth).outcome s with ⟨e' | v, u⟩
    · rw [inTurn_cons_error hout] at h ⊢
      cases h
      exact ⟨_, rfl, hout⟩
    · rw [inTurn_cons_ok hout] at h ⊢
      have hrest : (inTurn p depth rows u).2 = (.error e, t) := by
        generalize inTurn p depth rows u = rest at h ⊢
        obtain ⟨calls, e'' | vs, t'⟩ := rest
        · cases h
          rfl
        · cases h
      obtain ⟨y, hlast, hy⟩ := ih hrest
      exact ⟨y, by rw [List.getLast?_cons, hlast]; rfl, hy⟩

end Turns

section Rows

variable {lists : List (List Value)} {vs before rest : List Value} {v : Value}

/-- The rows that `map` calls its procedure on. -/
def rowsOf (lists : List (List Value)) : List (List Value) :=
  (List.range (shortest lists)).map fun i => lists.filterMap (·[i]?)

theorem filterMap_of_forall₂ {i : Nat}
    (h : List.Forall₂ (fun items v => items[i]? = some v) lists vs) :
    lists.filterMap (·[i]?) = vs := by
  induction h with
  | nil => rfl
  | cons hv _ ih => rw [List.filterMap_cons, hv, ih]

theorem row_eq_filterMap {i : Nat} (hi : i < shortest lists) :
    row (lists.map List.toArray) i = .ok (lists.filterMap (·[i]?)) ∧
      List.Forall₂ (fun items v => items[i]? = some v) lists (lists.filterMap (·[i]?)) := by
  obtain ⟨vs, hrow, hvs⟩ := row_of_lt hi
  rw [filterMap_of_forall₂ hvs]
  exact ⟨hrow, hvs⟩

theorem areRows_rowsOf (h : lists ≠ []) : AreRows lists (rowsOf lists) := by
  have hlength : (rowsOf lists).length = shortest lists := by
    rw [rowsOf, List.length_map, List.length_range]
  refine ⟨fun items hitems => ?_, ?_, fun i vs hi => ?_⟩
  · rw [hlength]
    exact List.min?_getD_le_of_mem (List.mem_map_of_mem hitems)
  · obtain ⟨n, hn⟩ := Option.ne_none_iff_exists'.mp
      (List.min?_eq_none_iff.not.mpr (List.map_eq_nil_iff.not.mpr h : lists.map List.length ≠ []))
    rw [hlength, shortest, hn, Option.getD_some]
    exact List.mem_map.mp (List.min?_mem hn)
  · have hlt : i < shortest lists := hlength ▸ (List.getElem?_eq_some_iff.mp hi).1
    rw [rowsOf, List.getElem?_map, List.getElem?_range hlt] at hi
    cases hi
    exact (row_eq_filterMap hlt).2

example : rowsOf [[.int 1, .int 2, .int 3], [.int 10, .int 20]] =
    [[.int 1, .int 10], [.int 2, .int 20]] := rfl

theorem mapM_congr_of_forall₂ {α β γ : Type} {k : α → Eval γ} {k' : β → Eval γ} {as : List α}
    {bs : List β} (h : List.Forall₂ (fun a b => k a = k' b) as bs) : as.mapM k = bs.mapM k' := by
  induction h with
  | nil => rfl
  | cons hab _ ih => rw [List.mapM_cons, List.mapM_cons, hab, ih]

theorem mapOver_eq (recur : Call → Eval Value) (depth : Nat) (p : Value)
    (lists : List (List Value)) :
    mapOver recur depth p lists = (rowsOf lists).mapM fun vs => recur (.apply p vs depth) := by
  refine mapM_congr_of_forall₂ (List.forall₂_map_right_iff.mpr (List.forall₂_same.mpr ?_))
  intro i hi
  rw [(row_eq_filterMap (List.mem_range.mp hi)).1]

/-- Where not all values are lists, there is a first that is none. -/
theorem exists_first_other (h : ∃ v ∈ vs, ¬ v.IsList) : ∃ before v rest,
    vs = before ++ v :: rest ∧ (∀ u ∈ before, u.IsList) ∧ ¬ v.IsList := by
  classical
  have hsome : (vs.find? fun v => ¬ v.IsList).isSome := List.find?_isSome.mpr (by simpa using h)
  obtain ⟨v, hv⟩ := Option.isSome_iff_exists.mp hsome
  obtain ⟨hother, before, rest, hvs, hbefore⟩ := List.find?_eq_some_iff_append.mp hv
  exact ⟨before, v, rest, hvs, by simpa using hbefore, by simpa using hother⟩

theorem listsOf_of_forall₂ (h : List.Forall₂ (fun v items => ∃ id, v = .list id items) vs lists) :
    listsOf vs = .ok lists := by
  induction h with
  | nil => rfl
  | cons hv _ ih =>
    obtain ⟨id, rfl⟩ := hv
    rw [listsOf] at ih ⊢
    rw [List.mapM_cons, ih]
    rfl

theorem listsOf_append_other (h : ∀ u ∈ before, u.IsList) (hv : ¬ v.IsList) :
    listsOf (before ++ v :: rest) = .error (.type (.mapList v.typeName) none) := by
  induction before with
  | nil =>
    rw [List.nil_append, listsOf, List.mapM_cons]
    cases v with
    | list id items => exact absurd ⟨id, items, rfl⟩ hv
    | _ => rfl
  | cons u before ih =>
    obtain ⟨id, items, rfl⟩ := h u (.head _)
    have hrest := ih fun u hu => h u (.tail _ hu)
    rw [listsOf] at hrest ⊢
    rw [List.cons_append, List.mapM_cons, hrest]
    rfl

end Rows

section Results

variable {p v : Value} {vs : List Value} {lists : List (List Value)} {depth : Nat} {s : State}

/-- The call makes the calls of `p` on the rows in turn and no others, and ends in a new list of
their results or as the one that fails. -/
structure CallsInTurn (c : Call) (p : Value) (depth : Nat) (rows : List (List Value)) (s : State) :
    Prop where
  makes : ∀ y, Makes (c, s) y ↔ y ∈ (inTurn p depth rows s).1
  order : (inTurn p depth rows s).1.map Prod.fst <+: rows.map (Call.apply p · depth)
  all : ∀ results t, (inTurn p depth rows s).2 = (.ok results, t) →
    (inTurn p depth rows s).1.map Prod.fst = rows.map (Call.apply p · depth)
  last : ∀ e t, (inTurn p depth rows s).2 = (.error e, t) →
    ∃ y, (inTurn p depth rows s).1.getLast? = some y ∧ y.1.outcome y.2 = (.error e, t)
  outcome : c.outcome s = listed (inTurn p depth rows s).2

/-- The call ends in a type error, before it has made any call or changed anything. -/
structure Refuses (c : Call) (s : State) (cause : TypeCause) : Prop where
  outcome : c.outcome s = (.error (.type cause none), s)
  makes : ∀ y, ¬ Makes (c, s) y

theorem finishAll_map_value (vs : List Value) (n : Nat) :
    Draft.finishAll n (vs.map .value) = (vs, n) := by
  induction vs with
  | nil => rfl
  | cons v vs ih => simp only [List.map_cons, Draft.finishAll, Draft.finish, ih]

theorem make_ofList (vs : List Value) (s : State) :
    Eval.make (.ofList vs) s = some (listed (.ok vs, s)) := by
  rw [Eval.make, State.make, Draft.ofList, Draft.finish, finishAll_map_value, listed]

/-- What `map` does once it has its lists. -/
theorem body_map (hp : p.isProcedure = true) (h : listsOf vs = .ok lists)
    (recur : Call → Eval Value) :
    (Call.higher .map (p :: vs) depth).body recur =
      ((rowsOf lists).mapM fun vs => recur (.apply p vs depth)) >>= fun results =>
        Eval.make (.ofList results) := by
  rw [body, higherBody, if_pos hp, h, ← mapOver_eq]

theorem map_callsInTurn (hp : p.isProcedure = true) (h : listsOf vs = .ok lists) :
    CallsInTurn (.higher .map (p :: vs) depth) p depth (rowsOf lists) s where
  makes y := by
    rw [Makes, body_map hp h, bind_eq_none_iff, mapM_without_iff]
    exact or_iff_left fun ⟨_, _, _, hmake⟩ => by cases hmake
  order := calls_inTurn_prefix _ _
  all _ _ := calls_of_inTurn_ok
  last _ _ := last_of_inTurn_error
  outcome := by
    refine outcome_eq_of_body ?_
    rw [body_map hp h, bind_apply, mapM_ends]
    generalize (inTurn p depth (rowsOf lists) s).2 = out
    obtain ⟨e | results, t⟩ := out
    · rfl
    · exact make_ofList results t

theorem refuses_of_body {c : Call} {cause : TypeCause}
    (h : ∀ recur, c.body recur = Eval.fail (.type cause none)) : Refuses c s cause where
  outcome := outcome_eq_of_body (by rw [h]; rfl)
  makes y hy := by
    rw [Makes, h] at hy
    cases hy

theorem map_refuses_procedure (hp : p.isProcedure = false) :
    Refuses (.higher .map (p :: vs) depth) s (.mapProcedure p.typeName) :=
  refuses_of_body fun recur => by rw [body, higherBody, hp]; rfl

theorem map_refuses_list (hp : p.isProcedure = true)
    (h : listsOf vs = .error (.type (.mapList v.typeName) none)) :
    Refuses (.higher .map (p :: vs) depth) s (.mapList v.typeName) :=
  refuses_of_body fun recur => by rw [body, higherBody, if_pos hp, h]

theorem apply_refuses_other (hv : ¬ v.IsList) :
    Refuses (.higher .apply [p, v] depth) s (.applyArguments v.typeName) := by
  refine refuses_of_body fun recur => ?_
  cases v with
  | list id items => exact absurd ⟨id, items, rfl⟩ hv
  | _ => rfl

end Results

/-- Given a procedure and lists, `map` calls it on the rows one after the other, each in the state
that the call before has left, up to the first that fails. Anything else it refuses before any call
is made. With a list, `apply` is one call of what it is given on the items, and it takes nothing
else. -/
theorem higher_procedures_call_in_turn (p : Value) (vs : List Value) (depth : Nat) (s : State) :
    (∀ lists, p.isProcedure = true → vs ≠ [] →
      List.Forall₂ (fun v items => ∃ id, v = .list id items) vs lists →
      ∃ rows, AreRows lists rows ∧ CallsInTurn (.higher .map (p :: vs) depth) p depth rows s) ∧
    (p.isProcedure = false → Refuses (.higher .map (p :: vs) depth) s (.mapProcedure p.typeName)) ∧
    (p.isProcedure = true → (∃ v ∈ vs, ¬ v.IsList) →
      ∃ before v rest, vs = before ++ v :: rest ∧ (∀ u ∈ before, u.IsList) ∧ ¬ v.IsList ∧
        Refuses (.higher .map (p :: vs) depth) s (.mapList v.typeName)) ∧
    (∀ id items,
      (∀ y, Makes (.higher .apply [p, .list id items] depth, s) y ↔
        y = (.apply p items depth, s)) ∧
      (Call.higher .apply [p, .list id items] depth).outcome s =
        (Call.apply p items depth).outcome s) ∧
    ∀ v, ¬ v.IsList → Refuses (.higher .apply [p, v] depth) s (.applyArguments v.typeName) := by
  refine ⟨?_, map_refuses_procedure, ?_, fun id items => ⟨fun y => ?_, outcome_eq_of_body rfl⟩,
    fun v => apply_refuses_other⟩
  · intro lists hp hvs hlists
    have hne : lists ≠ [] := by
      rintro rfl
      cases hlists
      exact hvs rfl
    exact ⟨rowsOf lists, areRows_rowsOf hne, map_callsInTurn hp (listsOf_of_forall₂ hlists)⟩
  · intro hp hother
    obtain ⟨before, v, rest, rfl, hbefore, hv⟩ := exists_first_other hother
    exact ⟨before, v, rest, rfl, hbefore, hv, map_refuses_list hp (listsOf_append_other hbefore hv)⟩
  · exact ⟨eq_of_without, fun h => h ▸ without_self _ _⟩

end Call

end MiniLisp
