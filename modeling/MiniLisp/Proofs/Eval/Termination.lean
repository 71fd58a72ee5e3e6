import MiniLisp.Proofs.Eval.CallTree
import MiniLisp.Proofs.Scope.Chain

/-!
# Every program ends

Evaluation has a depth limit, but `apply` and `map` go on below it, and the state is rewritten while
it runs. Still no call runs forever: `Call.Smaller` orders calls by what is left of the depth, then
by their kind, then by the size of their arguments, which no state has a part in.
-/

namespace MiniLisp

namespace Call

/-- A family of outcomes that more fuel keeps starts at some amount of fuel. -/
theorem exists_threshold {c : Call} {s : State} {n : Nat} {r : Except Error Value × State}
    (hn : run n c s = some r) :
    ∃ least, ∀ fuel, run fuel c s = if fuel < least then none else some r := by
  classical
  have hne : run n c s ≠ none := by simp [hn]
  have hex : ∃ k, run k c s ≠ none := ⟨n, hne⟩
  refine ⟨Nat.find hex, fun fuel => ?_⟩
  by_cases hf : fuel < Nat.find hex
  · rw [if_pos hf]
    exact not_not.mp (Nat.find_min hex hf)
  · rw [if_neg hf]
    -- The first answer is kept up to `fuel`, and up to `n`, so that it is `r`.
    obtain ⟨r', hr'⟩ := Option.ne_none_iff_exists'.mp (Nat.find_spec hex)
    have hfuel := run_mono (Nat.le_of_not_lt hf) c s r' hr'
    have hleast := run_mono (Nat.find_min' hex hne) c s r' hr'
    rw [hfuel, ← hleast, hn]

/-- Every call in every state ends, by itself: from some amount of fuel on it answers, always the
same, and it makes finitely many calls. Looking up a name ends as well, for where no frame lies
inside itself the frames outward of any frame come to an end by themselves. -/
theorem run_settles (c : Call) (s : State) :
    (∃ least r, ∀ fuel, run fuel c s = if fuel < least then none else some r) ∧
    {y | Enters (c, s) y}.Finite ∧
    (s.Acyclic → ∀ f, s.Outward f (s.chain f)) := by
  refine ⟨?_, enters_finite (c, s), fun hs f => State.outward_chain hs f⟩
  obtain ⟨n, r, hn⟩ := (run_converges c).ends s
  obtain ⟨least, h⟩ := exists_threshold hn
  exact ⟨least, r, h⟩

end Call

end MiniLisp
