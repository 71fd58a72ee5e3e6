import MiniLisp.Proofs.Builtin.HandsOn
import Mathlib.Data.List.Basic

/-!
# Procedures that select and procedures that make lists

`car`, `begin`, `min` and `max` answer with a value that they select among those they are handed, as
it is, whenever there is one to select (`Primitive.run_eq_ok_iff`); `min` and `max` select one among
numbers (`Primitive.exists_selects_extremum_iff`). `list`, `cons` and `cdr` answer with a new list,
whatever lists they are handed (`Primitive.ofList_of_run`).
-/

namespace MiniLisp

theorem Value.exists_toNumber_iff {v : Value} :
    (∃ n, v.toNumber = .ok n) ↔ v.number?.isSome := by
  unfold toNumber
  cases v.number? <;> simp

namespace Builtin

variable {e : Extremum} {items : List Value}

/-- Candidates are compared as long as they are numbers. -/
theorem exists_bestFrom_iff {best : Value × Number} :
    (∃ v, bestFrom e best items = .ok v) ↔ ∀ v ∈ items, v.number?.isSome := by
  induction items generalizing best with
  | nil => simp [bestFrom]
  | cons v rest ih =>
    rw [List.forall_mem_cons, ← Value.exists_toNumber_iff, bestFrom]
    cases v.toNumber with
    | error err => simp
    | ok n =>
      simp only [Except.ok.injEq, exists_eq', true_and]
      split <;> exact ih

/-- There is a best candidate if there are any and all are numbers. -/
theorem exists_extremum_iff {args : List Value} (h : candidates e args = .ok items) :
    (∃ v, extremum e args = .ok v) ↔ items ≠ [] ∧ ∀ v ∈ items, v.number?.isSome := by
  unfold extremum
  rw [h]
  cases items with
  | nil => simp
  | cons v rest =>
    dsimp only
    rw [List.forall_mem_cons, ← Value.exists_toNumber_iff]
    cases v.toNumber with
    | error err => simp
    | ok n => simpa using exists_bestFrom_iff

end Builtin

namespace Primitive

variable {p : Primitive} {args : List Value} {reply : Reply}

/-- The value that the primitive selects among its arguments. -/
inductive Selects : Primitive → List Value → Value → Prop where
  | car (id : Nat) (v : Value) (rest : List Value) : Selects car [.list id (v :: rest)] v
  | sequence {args : List Value} {v : Value} (h : args.getLast? = some v) : Selects sequence args v
  | extremum {e : Extremum} {args items : List Value} {v : Value}
      (hitems : Builtin.candidates e args = .ok items) (hv : v ∈ items)
      (hbest : Builtin.extremum e args = .ok v) : Selects (extremum e) args v

/-- Primitives that answer with a value that they are handed. -/
def IsSelector : Primitive → Prop
  | car => True
  | sequence => True
  | extremum _ => True
  | _ => False

/-- Primitives that answer with a new list. -/
def MakesList : Primitive → Prop
  | list => True
  | cons => True
  | cdr => True
  | _ => False

theorem selects_of_run (hp : p.IsSelector) (h : p.entry.run args = .ok reply) :
    ∃ v, reply = ⟨.value v, ""⟩ ∧ p.Selects args v := by
  cases p with
  | car =>
    obtain ⟨hlength, a, others, hfeed, hreply⟩ := Entry.feed_of_run_fixed h
    obtain ⟨v, rfl⟩ := List.length_eq_one_iff.mp hlength
    cases v with
    | list id items =>
      cases hfeed
      cases items with
      | nil => cases hreply
      | cons v rest =>
        cases hreply
        exact ⟨v, rfl, .car id v rest⟩
    | _ => cases hfeed
  | sequence =>
    have hreply : Answer.reply (Builtin.sequence args) = .ok reply := h
    unfold Builtin.sequence at hreply
    split at hreply
    · cases hreply
    · rename_i v hlast
      cases hreply
      exact ⟨v, rfl, .sequence hlast⟩
  | extremum e =>
    have hreply : Answer.reply (Builtin.extremum e args) = .ok reply := h
    cases hv : Builtin.extremum e args with
    | error e =>
      rw [hv] at hreply
      cases hreply
    | ok v =>
      rw [hv] at hreply
      cases hreply
      obtain ⟨items, hitems, hmem⟩ := Builtin.extremum_mem hv
      exact ⟨v, rfl, .extremum hitems hmem hv⟩
  | _ => exact absurd hp id

theorem run_of_selects {v : Value} (h : p.Selects args v) :
    p.entry.run args = .ok ⟨.value v, ""⟩ := by
  cases h with
  | car id v rest => rfl
  | sequence hlast =>
    have hv : Builtin.sequence args = .ok v := by rw [Builtin.sequence, hlast]
    exact congrArg Answer.reply hv
  | extremum _ _ hbest => exact congrArg Answer.reply hbest

/-- A selector answers with what it selects, and if there is nothing to select it fails. -/
theorem run_eq_ok_iff (hp : p.IsSelector) :
    p.entry.run args = .ok reply ↔ ∃ v, reply = ⟨.value v, ""⟩ ∧ p.Selects args v := by
  constructor
  · exact selects_of_run hp
  · rintro ⟨v, rfl, hv⟩
    exact run_of_selects hv

/-- The extremum is selected if there are candidates and all of them are numbers. -/
theorem exists_selects_extremum_iff {e : Extremum} {items : List Value}
    (hitems : Builtin.candidates e args = .ok items) :
    (∃ v, (extremum e).Selects args v) ↔ items ≠ [] ∧ ∀ v ∈ items, v.number?.isSome := by
  rw [← Builtin.exists_extremum_iff hitems]
  constructor
  · rintro ⟨v, hv⟩
    cases hv with
    | extremum _ _ hbest => exact ⟨v, hbest⟩
  · rintro ⟨v, hv⟩
    obtain ⟨items, hitems, hmem⟩ := Builtin.extremum_mem hv
    exact ⟨v, .extremum hitems hmem hv⟩

theorem ofList_of_run (hp : p.MakesList) (h : p.entry.run args = .ok reply) :
    ∃ items, reply = ⟨.ofList items, ""⟩ := by
  cases p with
  | list =>
    cases h
    exact ⟨args, rfl⟩
  | cons =>
    obtain ⟨hlength, a, others, hfeed, hreply⟩ := Entry.feed_of_run_fixed h
    obtain ⟨v, w, rfl⟩ := List.length_eq_two.mp hlength
    cases hfeed
    cases w with
    | list id items =>
      cases hreply
      exact ⟨v :: items, rfl⟩
    | _ => cases hreply
  | cdr =>
    obtain ⟨hlength, a, others, hfeed, hreply⟩ := Entry.feed_of_run_fixed h
    obtain ⟨v, rfl⟩ := List.length_eq_one_iff.mp hlength
    cases v with
    | list id items =>
      cases hfeed
      cases items with
      | nil => cases hreply
      | cons v rest =>
        cases hreply
        exact ⟨rest, rfl⟩
    | _ => cases hfeed
  | _ => exact absurd hp id

end Primitive

end MiniLisp
