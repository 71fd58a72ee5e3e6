import MiniLisp.Proofs.Builtin.Conversion
import MiniLisp.Proofs.Number.Order

/-!
# Extrema

`min` and `max` go through their candidates once and keep the best so far. Nothing that they have
seen beats what they keep (`Builtin.bestFrom_ofNumber`), although NaN is ordered with nothing and
numbers that equal a third one need not equal each other: all that is used of the order is that
beating is transitive (`Number.Beats.trans`).
-/

namespace MiniLisp

namespace Extremum

/-- What an extremum is looked for among: the elements of a single list, or several arguments
themselves. -/
inductive Among : List Value → List Value → Prop where
  | elements (id : Nat) (items : List Value) : Among [.list id items] items
  | arguments (u v : Value) (rest : List Value) : Among (u :: v :: rest) (u :: v :: rest)

/-- The comparison that tells which of two numbers is the better one. -/
def comparison : Extremum → Comparison
  | least => .below
  | greatest => .above

end Extremum

variable {e : Extremum}

namespace Number

variable {a b c : Number}

/-- The first number is strictly better than the second one. -/
def Beats (e : Extremum) (a b : Number) : Prop := a.order b = some e.better

theorem beats_greatest_iff : a.Beats .greatest b ↔ b.Beats .least a := by
  rw [Beats, Beats, order_swap b a, Option.map_eq_some_iff]
  simp only [Extremum.better, Ordering.swap_eq_gt, exists_eq_right]

theorem Beats.trans (h : a.Beats e b) (h' : b.Beats e c) : a.Beats e c := by
  cases e with
  | least => exact order_trans h h'
  | greatest =>
    rw [beats_greatest_iff] at h h' ⊢
    exact order_trans h' h

theorem not_beats_self (e : Extremum) (a : Number) : ¬ a.Beats e a := by
  intro h
  have hswap := order_swap a a
  rw [h] at hswap
  cases e <;> cases hswap

/-- Which number beats which is what the comparison answers. -/
theorem answers_comparison_iff :
    (Primitive.compare e.comparison).Answers (.ofNumber a) (.ofNumber b) false ↔ ¬ a.Beats e b := by
  have hanswer := Primitive.answers_compare e.comparison a b
  have hholds : Number.stands e.comparison.orders a b = true ↔ a.Beats e b := by
    rw [← hanswer.true_iff]
    cases e with
    | least => exact Primitive.holds_below_iff
    | greatest => exact Primitive.holds_above_iff
  rw [← hholds, Bool.not_eq_true]
  exact ⟨fun h => hanswer.unique h, fun h => h ▸ hanswer⟩

end Number

namespace Builtin

/-- The next candidate that is a number is kept or passed over. -/
theorem bestFrom_cons (e : Extremum) (best : Value × Number) (n : Number) (rest : List Value) :
    (n.Beats e best.2 ∧ bestFrom e best (.ofNumber n :: rest) = bestFrom e (.ofNumber n, n) rest) ∨
      ¬ n.Beats e best.2 ∧ bestFrom e best (.ofNumber n :: rest) = bestFrom e best rest := by
  rw [bestFrom, Value.toNumber_ofNumber]
  by_cases h : n.order best.2 = some e.better
  · exact .inl ⟨h, if_pos h⟩
  · exact .inr ⟨h, if_neg h⟩

/-- The number found is the first one or beats it, and no candidate beats the number found. -/
theorem bestFrom_ofNumber (e : Extremum) (best : Number) (ns : List Number) :
    ∃ n ∈ best :: ns, bestFrom e (.ofNumber best, best) (ns.map .ofNumber) = .ok (.ofNumber n) ∧
      (n = best ∨ n.Beats e best) ∧ ∀ m ∈ best :: ns, ¬ m.Beats e n := by
  induction ns generalizing best with
  | nil =>
    refine ⟨best, .head _, rfl, .inl rfl, ?_⟩
    rw [List.forall_mem_singleton]
    exact Number.not_beats_self e best
  | cons a ns ih =>
    rw [List.map_cons]
    rcases bestFrom_cons e (.ofNumber best, best) a (ns.map .ofNumber) with
      ⟨ha, hstep⟩ | ⟨ha, hstep⟩
    · obtain ⟨n, hn, hfound, hbetter, hall⟩ := ih a
      have hbest : n.Beats e best := by
        rcases hbetter with rfl | hbetter
        · exact ha
        · exact hbetter.trans ha
      refine ⟨n, .tail _ hn, hstep.trans hfound, .inr hbest, List.forall_mem_cons.mpr ⟨?_, hall⟩⟩
      exact fun h => Number.not_beats_self e best (h.trans hbest)
    · obtain ⟨n, hn, hfound, hbetter, hall⟩ := ih best
      obtain ⟨hbest, hrest⟩ := List.forall_mem_cons.mp hall
      have hpassed : ¬ a.Beats e n := by
        rcases hbetter with rfl | hbetter
        · exact ha
        · exact fun h => ha (h.trans hbetter)
      refine ⟨n, ?_, hstep.trans hfound, hbetter, ?_⟩
      · rcases List.mem_cons.mp hn with rfl | hn
        · exact .head _
        · exact .tail _ (.tail _ hn)
      · exact List.forall_mem_cons.mpr ⟨hbest, List.forall_mem_cons.mpr ⟨hpassed, hrest⟩⟩

theorem bestFrom_other (e : Extremum) (best : Value × Number) {vs : List Value} {v : Value}
    (h : FirstOther vs v) : bestFrom e best vs = .error (v.mismatch .number) := by
  induction vs generalizing best with
  | nil => cases h.mem
  | cons w vs ih =>
    rcases h.cons_cases with ⟨rfl, hv⟩ | ⟨n, rfl, hrest⟩
    · rw [bestFrom, Value.toNumber_of_none hv]
    · rcases bestFrom_cons e best n vs with ⟨-, hstep⟩ | ⟨-, hstep⟩
      · exact hstep.trans (ih _ hrest)
      · exact hstep.trans (ih _ hrest)

section Extremum

variable {args items : List Value}

theorem candidates_of_among (h : Extremum.Among args items) : candidates e args = .ok items := by
  cases h <;> simp only [candidates]

theorem extremum_empty (h : Extremum.Among args []) :
    extremum e args = .error (.index (.emptySequence e.name)) := by
  rw [extremum, candidates_of_among h]

theorem extremum_ofNumber {ns : List Number} (h : Extremum.Among args (ns.map .ofNumber))
    (hns : ns ≠ []) :
    ∃ n ∈ ns, extremum e args = .ok (.ofNumber n) ∧ ∀ m ∈ ns, ¬ m.Beats e n := by
  obtain ⟨first, rest, rfl⟩ := List.exists_cons_of_ne_nil hns
  obtain ⟨n, hn, hfound, -, hall⟩ := bestFrom_ofNumber e first rest
  refine ⟨n, hn, ?_, hall⟩
  rw [extremum, candidates_of_among h, List.map_cons]
  simp only [Value.toNumber_ofNumber, hfound]

/-- The first candidate that is no number is the error. -/
theorem extremum_other {v : Value} (h : Extremum.Among args items) (hv : FirstOther items v) :
    extremum e args = .error (v.mismatch .number) := by
  rw [extremum, candidates_of_among h]
  cases items with
  | nil => cases hv.mem
  | cons w items =>
    rcases hv.cons_cases with ⟨rfl, hv⟩ | ⟨n, rfl, hrest⟩
    · simp only [Value.toNumber_of_none hv]
    · simp only [Value.toNumber_ofNumber, bestFrom_other e _ hrest]

theorem extremum_single {v : Value} (hv : ∀ id items, v ≠ .list id items) :
    extremum e [v] = .error (.type (.extremum e.name v.shown) none) := by
  cases v with
  | list id items => exact absurd rfl (hv id items)
  | _ => rfl

end Extremum

end Builtin

/-- What `min` and `max` do is look for an extremum, if they have any argument. -/
theorem Call.outcome_extremum {args : List Value} (h : args ≠ []) (s : State) (depth : Nat) :
    (Call.apply (.builtin (Primitive.extremum e).builtin) args depth).outcome s =
      (Builtin.extremum e args, s) := by
  have hcount : (Primitive.extremum e).entry.arity.accepts args.length := by
    simpa [Primitive.entry, Entry.variadic, Arity.accepts, Nat.one_le_iff_ne_zero] using h
  refine outcome_of_run hcount ?_ s depth
  change Answer.reply (Builtin.extremum e args) = _
  cases Builtin.extremum e args <;> rfl

/-- In any state and at any depth, `min` and `max` answer with one of their candidates, as it is,
that no candidate is strictly better than, if all candidates are numbers and there is one. The first
candidate that is no number is an error, and so are an empty list and a single argument that is no
list. Nothing else happens. -/
theorem extremum_is_not_beaten (e : Extremum) {args : List Value}
    (haccepts : (Primitive.extremum e).builtin.arity.accepts args.length) (s : State)
    (depth : Nat) :
    ∃ r, (Call.apply (.builtin (Primitive.extremum e).builtin) args depth).outcome s = (r, s) ∧
      (∀ items, Extremum.Among args items →
        (items = [] → r = .error (.index (.emptySequence e.name))) ∧
        (items ≠ [] → (∀ v ∈ items, v.number?.isSome) → ∃ v ∈ items, r = .ok v ∧
          ∀ w ∈ items, (Primitive.compare e.comparison).Answers w v false) ∧
        (∀ v, FirstOther items v → r = .error (v.mismatch .number))) ∧
      (∀ v, args = [v] → (∀ id items, v ≠ .list id items) →
        r = .error (.type (.extremum e.name v.shown) none)) := by
  have hargs : args ≠ [] := by
    rintro rfl
    cases haccepts
  refine ⟨_, Call.outcome_extremum hargs s depth, fun items hitems => ⟨?_, ?_, ?_⟩, ?_⟩
  · rintro rfl
    exact Builtin.extremum_empty hitems
  · intro hsome hnumbers
    obtain ⟨ns, rfl⟩ := numbers_of_forall hnumbers
    have hns : ns ≠ [] := fun h => hsome (h ▸ rfl)
    obtain ⟨n, hn, hfound, hall⟩ := Builtin.extremum_ofNumber hitems hns
    refine ⟨_, List.mem_map_of_mem hn, hfound, ?_⟩
    rw [List.forall_mem_map]
    exact fun m hm => Number.answers_comparison_iff.mpr (hall m hm)
  · exact fun v hv => Builtin.extremum_other hitems hv
  · rintro v rfl hv
    exact Builtin.extremum_single hv

/-- The largest of a list with NaN in it and with integers that share their place with a float, and
of arguments of which the second is the first that is no number. -/
theorem extremum_is_not_beaten_mixed :
    let items : List Value := [.int 9007199254740992, .float (0.0 / 0.0),
      .float 9007199254740992.0, .int 9007199254740993]
    let largest := Value.builtin (Primitive.extremum .greatest).builtin
    (∃ v ∈ items, (Call.apply largest [.list 0 items] 0).outcome .empty = (.ok v, .empty) ∧
      ∀ w ∈ items, (Primitive.compare .above).Answers w v false) ∧
    (Call.apply largest [.int 3, .symbol "x", .list 0 items] 0).outcome .empty =
      (.error ((Value.symbol "x").mismatch .number), .empty) := by
  intro items largest
  constructor
  · obtain ⟨r, hout, hamong, -⟩ :=
      @extremum_is_not_beaten .greatest [.list 0 items] rfl .empty 0
    obtain ⟨v, hv, hr, hbest⟩ := (hamong items (.elements 0 items)).2.1 (List.cons_ne_nil _ _)
      (by simp [items, Value.number?])
    exact ⟨v, hv, hr ▸ hout, hbest⟩
  · obtain ⟨r, hout, hamong, -⟩ := @extremum_is_not_beaten .greatest
      [.int 3, .symbol "x", .list 0 items] rfl .empty 0
    have hr := (hamong _ (.arguments ..)).2.2 (.symbol "x") (.behind [.int 3] rfl [.list 0 items])
    rw [hr] at hout
    exact hout

end MiniLisp
