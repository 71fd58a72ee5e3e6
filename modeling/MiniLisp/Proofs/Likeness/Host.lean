import MiniLisp.Host
import MiniLisp.Proofs.Likeness.Primitive

/-!
# Answers of host procedures

The procedures that a host program may register look at numbers only to tell them apart, hand out no
closures of their own, and fail without naming a form.
-/

namespace MiniLisp

variable {L : Likeness}

namespace Host

theorem numeric_quotient (a b : Int64) : Numeric (quotient a b) := by
  unfold quotient
  refine Numeric.ite (.error _) ?_
  generalize int64? (a.toInt.tdiv b.toInt) = o
  cases o with
  | none => exact .error _
  | some q => exact .ok q

theorem quiet_byte (n : Int64) : Quiet (byte n) := by
  unfold byte
  split
  · exact .ok n
  · exact .error trivial

theorem alike_upTo (L : Likeness) (st : Stage) (n : Int64) : (upTo n).Alike L st (upTo n) := by
  refine .ofList (List.forall₂_same.mpr fun v hv => ?_)
  obtain ⟨i, -, rfl⟩ := List.mem_map.mp hv
  exact .int _

theorem alike_slot {st : Stage} (n : Int64) {v w : Value} (h : v.Alike L st w)
    {vs ws : List Value} (hvs : Value.AllAlike L st vs ws) :
    (slot n v vs).Alike L st (slot n w ws) :=
  Draft.alike_list_iff.mpr (.cons (.value (.int n)) (.cons (.value h) (.cons (.ofList hvs) .nil)))

open Answer in
/-- Every procedure that a host program may register answers alike to arguments that are alike. -/
theorem answers_entry {kind : String} {entry : Entry} (h : entry? kind = some entry)
    (L : Likeness) : L.Answers entry.run entry.run := by
  have hdraft {st : Stage} {d e : Draft} (h : d.Alike L st e) : Answer.Alike L st d e :=
    .ok ⟨h, rfl⟩
  have hsum (rest rest' : List Number) (h : rest = rest') (n : Int64) (st : Stage) :
      Answer.Alike L st (weightedSum n rest) (weightedSum n rest') := by
    rw [h]
    exact Plain.alike L st _
  unfold entry? at h
  split at h <;> cases h
  · intro st vs ws hvs
    cases hvs with
    | nil => exact .error (L.error_of_silent trivial)
    | cons _ hvs => cases hvs with
      | nil => exact .error (L.error_of_silent trivial)
      | cons hv _ => exact .ok ⟨.value hv, rfl⟩
  · intro st vs ws hvs
    cases hvs with
    | nil => exact .ok ⟨.ofList .nil, rfl⟩
    | cons hv _ => exact .ok ⟨.value hv, rfl⟩
  · exact answers_fixed fun st => Plain.alike L st (42 : Int64)
  · refine answers_fixed ?_
    intro st a b hab a' b' hab'
    cases hab
    cases hab'
    exact Plain.alike L st _
  · exact answers_binary same_integer same_integer fun _ _ => (numeric_quotient _ _).quiet
  · refine answers_fixed ?_
    intro st a b hab
    cases hab
    exact Plain.alike L st _
  · refine answers_fixed ?_
    intro st vs ws hvs
    exact hdraft (.ofList (List.forall₂_reverse_iff.mpr hvs))
  · refine answers_fixed ?_
    intro st a b hab low low' hlow high high' hhigh
    cases hab
    cases hlow
    cases hhigh
    exact Plain.alike L st _
  · refine answers_fixed ?_
    intro st a b hab
    cases hab
    exact Plain.alike L st _
  · refine answers_fixed ?_
    intro st a b hab
    cases hab
    exact hdraft (alike_upTo L st a)
  · refine answers_fixed ?_
    intro st a b hab a' b' hab'
    cases hab
    cases hab'
    exact hdraft (.ofList (.cons (.float _) (.cons (.float _) .nil)))
  · exact answers_unary same_integer quiet_byte
  · refine answers_variadic ?_
    intro st a b hab rest rest' hrest
    cases hab
    exact hsum rest rest' hrest a st
  · refine answers_variadic ?_
    intro st a b hab rest rest' hrest
    cases hab
    exact hsum rest rest' hrest a st
  · refine answers_variadic ?_
    intro st vs ws hvs
    simp only [List.Forall₂.length_eq hvs]
    exact Plain.alike L st _
  · refine answers_variadic ?_
    intro st a b hab v w hv vs ws hvs
    cases hab
    exact hdraft (alike_slot a hv hvs)
  · refine answers_variadic ?_
    intro st a b hab v w hv vs ws hvs
    cases hab
    exact hdraft (alike_slot a hv hvs)

end Host

end MiniLisp
