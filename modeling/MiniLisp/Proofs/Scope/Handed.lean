import MiniLisp.Host
import MiniLisp.Proofs.Builtin.HandsOn
import MiniLisp.Proofs.Scope.Chain

/-!
# Closures that host procedures hand out

A procedure that hands on what it is handed makes no closures. So do all procedures that a host
program may register (`Host.handsOver_entry`).
-/

namespace MiniLisp

variable {K : Value → Prop}

/-- All closures found in values are of a kind as far as those found in their items are. -/
theorem hereditary_holds (P : Closure → Prop) : Hereditary fun v => ∀ c, v.Holds c → P c where
  atom := by
    intro v hv c hc
    cases hc with
    | self => exact absurd hv id
    | item => exact absurd hv id
  item := fun h v hv c hc => h c (.item hv hc)

theorem Draft.All.of_holds {P : Closure → Prop} {d : Draft}
    (h : d.All fun v => ∀ c, v.Holds c → P c) {c : Closure} (hc : d.Holds c) : P c := by
  induction hc with
  | value hc =>
    cases h with
    | value h => exact h _ hc
  | item hd _ ih =>
    cases h with
    | list h => exact ih (h _ hd)

theorem HandsOn.makesNoClosures {run : HostFunction} (h : HandsOn run) : MakesNoClosures run := by
  intro args reply hreply c hc
  have hargs : Value.All (fun v => ∀ c, v.Holds c → ∃ a ∈ args, a.Holds c) args :=
    fun v hv c hc => ⟨v, hv, hc⟩
  exact (h _ (hereditary_holds _) args hargs reply hreply).of_holds hc

namespace Host

open Answer

theorem all_upTo (hK : Inheritable K) (n : Int64) : (upTo n).All K := by
  refine .ofList fun v hv => ?_
  obtain ⟨i, -, rfl⟩ := List.mem_map.mp hv
  exact hK.plain trivial

theorem all_slot (hK : Inheritable K) (n : Int64) {v : Value} (h : K v) {vs : List Value}
    (hvs : Value.All K vs) : (slot n v vs).All K := by
  refine .list fun d hd => ?_
  simp only [List.mem_cons, List.not_mem_nil, or_false] at hd
  rcases hd with rfl | rfl | rfl
  · exact .value (hK.plain trivial)
  · exact .value h
  · exact .ofList hvs

/-- Every procedure that a host program may register hands on what it is handed. -/
theorem handsOver_entry {kind : String} {entry : Entry} (h : entry? kind = some entry) :
    HandsOver entry.run := by
  unfold entry? at h
  split at h <;> cases h
  · intro K hK args hargs reply hreply
    simp only [Entry.raw] at hreply
    split at hreply
    · cases hreply
      exact .value (hargs _ (.tail _ (.head _)))
    · cases hreply
  · intro K hK args hargs reply hreply
    simp only [Entry.raw] at hreply
    split at hreply
    · cases hreply
      exact .value (hargs _ (.head _))
    · cases hreply
      exact .ofList nofun
  · exact handsOver_of_atomic _
  · exact handsOver_of_atomic _
  · exact handsOver_of_atomic _
  · exact handsOver_of_atomic _
  · exact handsOver_fixed fun K hK items hitems =>
      only_draft (.ofList fun v hv => hitems v (List.mem_reverse.mp hv))
  · exact handsOver_of_atomic _
  · exact handsOver_of_atomic _
  · exact handsOver_fixed fun K hK n _ => only_draft (all_upTo hK n)
  · refine handsOver_fixed fun K hK a _ b _ => only_draft (.ofList fun v hv => ?_)
    simp only [List.mem_cons, List.not_mem_nil, or_false] at hv
    rcases hv with rfl | rfl
    · exact hK.plain trivial
    · exact hK.plain trivial
  · exact handsOver_of_atomic _
  · exact handsOver_variadic fun K hK weight _ numbers _ =>
      Atomic.only hK (weightedSum weight numbers)
  · exact handsOver_variadic fun K hK weight _ numbers _ =>
      Atomic.only hK (weightedSum weight numbers)
  · exact handsOver_variadic fun K hK args _ => Atomic.only hK (Int64.ofNat args.length)
  · exact handsOver_variadic fun K hK n _ label hlabel others hothers =>
      only_draft (all_slot hK n hlabel hothers)
  · exact handsOver_variadic fun K hK n _ label hlabel others hothers =>
      only_draft (all_slot hK n hlabel hothers)

/-- No procedure that a host program may register makes closures. -/
theorem makesNoClosures_entry {kind : String} {entry : Entry} (h : entry? kind = some entry) :
    MakesNoClosures entry.run :=
  (handsOver_entry h).handsOn.makesNoClosures

end Host

end MiniLisp
