import MiniLisp.Proofs.Eval.Invariant
import MiniLisp.Proofs.Eval.Kind
import MiniLisp.Proofs.History.Situation
import Mathlib.Order.CompletePartialOrder

/-!
# Where builtin procedures come from

A builtin procedure is one of the language, or a host program has registered it under a name
(`Offers`). As long as registered procedures hand over what they are handed, runs find no other ones
(`State.Offers.outcome`), nor do they miss any procedure of the host, so that a defect they end in
is one that a registered procedure has answered with.
-/

namespace MiniLisp

/-- A name, and what a host program registers under it. -/
abbrev Registration := String × Entry

/-- The builtin procedures that there are after some registrations. -/
inductive Offers (R : List Registration) : Builtin → Prop where
  | language {b : Builtin} (h : b ∈ builtins) : Offers R b
  | registered {index : Nat} {name : String} {entry : Entry} (h : R[index]? = some (name, entry)) :
      Offers R ⟨name, entry.arity, .host index⟩

variable {R : List Registration}

theorem Offers.append {b : Builtin} (h : Offers R b) (R' : List Registration) :
    Offers (R ++ R') b := by
  cases h with
  | language h => exact .language h
  | registered h =>
    refine .registered ?_
    rwa [List.getElem?_append_left (List.getElem?_eq_some_iff.mp h).1]

theorem operation_ne_host_of_mem_builtins {b : Builtin} (h : b ∈ builtins) (index : Nat) :
    b.operation ≠ .host index := by
  rcases List.mem_append.mp h with h | h
  · obtain ⟨p, -, rfl⟩ := List.mem_map.mp h
    exact nofun
  · obtain ⟨higher, -, rfl⟩ := List.mem_map.mp h
    exact nofun

theorem Offers.lt_length {b : Builtin} (h : Offers R b) {index : Nat}
    (hb : b.operation = .host index) : index < R.length := by
  cases h with
  | language h => exact absurd hb (operation_ne_host_of_mem_builtins h index)
  | registered h =>
    cases hb
    exact (List.getElem?_eq_some_iff.mp h).1

namespace Value

/-- All builtin procedures found in the value are offered. -/
def Offered (R : List Registration) (v : Value) : Prop := ∀ b, (builtin b).Part v → Offers R b

theorem inheritable_offered (R : List Registration) : Inheritable (Offered R) where
  plain := by
    intro v hv b hb
    obtain rfl := hb.eq_of_isAtom hv.isAtom
    exact absurd hv id
  item := fun h v hv b hb => h b (.item hv hb)

theorem offered_builtin {b : Builtin} (h : Offers R b) : (builtin b).Offered R := by
  intro a ha
  obtain rfl := builtin.inj (ha.eq_of_isAtom trivial)
  exact h

theorem offered_list (id : Nat) {items : List Value} (h : Value.All (Offered R) items) :
    (list id items).Offered R := by
  intro b hb
  cases hb with
  | item hv hb => exact h _ hv b hb

theorem Offered.append {v : Value} (h : v.Offered R) (R' : List Registration) :
    v.Offered (R ++ R') :=
  fun b hb => (h b hb).append R'

end Value

/-- What a draft becomes is of a kind if all values in it are, and lists are as far as their items
are. -/
theorem Draft.All.finish {K : Value → Prop}
    (hK : ∀ id items, Value.All K items → K (.list id items)) {d : Draft} (h : d.All K) (n : Nat) :
    K (d.finish n).1 := by
  induction d using Draft.items_induction generalizing n with
  | value v =>
    cases h with
    | value h => exact h
  | list items ih =>
    cases h with
    | list h =>
      refine hK n _ ?_
      generalize n + 1 = m
      induction items generalizing m with
      | nil => exact nofun
      | cons d items ihitems =>
        refine List.forall_mem_cons.mpr ⟨ih d (.head _) (h d (.head _)) m, ?_⟩
        exact ihitems (fun d hd => ih d (.tail _ hd)) (fun d hd => h d (.tail _ hd)) _

/-- Runs find offered procedures only, and fail by a defect only if a registered one does. -/
def Invariant.offered (R : List Registration) : Invariant Unit where
  value _ := Value.Offered R
  frame _ _ := True
  hosted index := index < R.length
  shape _ _ _ := True
  error e := ∀ d, e = .internal d → ∃ r ∈ R, ∃ args, r.2.run args = .error (.internal d)
  inheritable _ := Value.inheritable_offered R
  value_mono _ h := h
  frame_mono _ h := h
  error_of he d hd := absurd (hd ▸ trivial : Error.IsDefect _) he
  host h hb := .inl ((h _ .self).lt_length hb)
  make _ hd := ⟨(), le_rfl, trivial, hd.finish (fun id _ => Value.offered_list id) _⟩
  close _ _ _ _ _ := ⟨(), le_rfl, trivial, fun b hb => by cases hb⟩
  enter _ _ := ⟨(), le_rfl, trivial, trivial⟩

/-- The procedures of the host are those registered, and all procedures found in bindings are
offered. -/
structure State.Offers (R : List Registration) (s : State) : Prop where
  bound : ∀ f x v, s.binding? f x = some v → v.Offered R
  hosts : s.hosts.toList = R.map fun r => r.2.run

/-- Every registered procedure hands over what it is handed. -/
def HandOver (R : List Registration) : Prop := ∀ r ∈ R, HandsOver r.2.run

namespace State.Offers

variable {s t : State} {c : Call}

theorem holds (h : s.Offers R) (hR : HandOver R) : (Invariant.offered R).Holds () s where
  bound := h.bound
  hosts run hrun _ _ args hargs := by
    rw [← Array.mem_toList_iff, h.hosts] at hrun
    obtain ⟨r, hr, rfl⟩ := List.mem_map.mp hrun
    refine ⟨hR r hr _ (Value.inheritable_offered R) args hargs, fun e he d hd => ?_⟩
    exact ⟨r, hr, args, hd ▸ he⟩
  hosted index hindex := by
    rw [← Array.length_toList, h.hosts, List.length_map]
    exact hindex
  shape := trivial

theorem of_holds (h : s.Offers R) (ht : (Invariant.offered R).Holds () t)
    (hhosts : t.hosts = s.hosts) : t.Offers R :=
  ⟨ht.bound, hhosts ▸ h.hosts⟩

/-- Evaluation and application find offered procedures only. -/
theorem outcome (h : s.Offers R) (hR : HandOver R) (hc : (Invariant.offered R).Ready () c) :
    (c.outcome s).2.Offers R ∧ (∀ v, (c.outcome s).1 = .ok v → v.Offered R) ∧
      FailsBy (Invariant.offered R).error (c.outcome s).1 := by
  obtain ⟨_, -, hstate, hvalue, herror⟩ := Invariant.outcome_ends (h.holds hR) hc
  exact ⟨h.of_holds hstate (Call.hosts_outcome c s), hvalue, herror⟩

/-- So do the calls inside. -/
theorem of_enters (h : s.Offers R) (hR : HandOver R) (hc : (Invariant.offered R).Ready () c)
    {y : Call × State} (hy : Call.Enters (c, s) y) :
    y.2.Offers R ∧ (Invariant.offered R).Ready () y.1 := by
  obtain ⟨_, -, hstate, hready⟩ := Invariant.of_enters (h.holds hR) hc hy
  exact ⟨h.of_holds hstate (Call.hosts_of_enters hy), hready⟩

end State.Offers

end MiniLisp
