import MiniLisp.Builtin.Registry
import MiniLisp.Proofs.Number.Rounding

/-!
# How primitives fail

A primitive that is given as many arguments as it is declared to take answers, or fails by an error
about one of them. Given another number, it may besides fail by an arity error, and a primitive of
exactly so many arguments always does.
-/

namespace MiniLisp

variable {α β : Type} {E : Error → Prop}

/-- Errors about an argument, and not about how many there are. -/
inductive Error.OfArgument : Error → Prop where
  | type (cause : TypeCause) (context : Option String) : OfArgument (.type cause context)
  | index (cause : IndexCause) : OfArgument (.index cause)
  | arithmetic (cause : ArithmeticCause) : OfArgument (.arithmetic cause)

/-- Errors that no program should bring about. -/
def Error.IsDefect : Error → Prop
  | internal _ => True
  | _ => False

theorem Error.OfArgument.not_isDefect {e : Error} (h : e.OfArgument) : ¬ e.IsDefect := by
  cases h <;> exact id

open Error (OfArgument)

/-- The result is no error or an error of the kind. -/
def FailsBy (E : Error → Prop) (r : Except Error α) : Prop := ∀ e, r = .error e → E e

namespace FailsBy

theorem ok (a : α) : FailsBy E (.ok a : Except Error α) := fun e he => by cases he

theorem error {e : Error} (h : E e) : FailsBy E (.error e : Except Error α) :=
  fun e he => by cases he; exact h

theorem bind {r : Except Error α} (h : FailsBy E r) {k : α → Except Error β}
    (hk : ∀ a, r = .ok a → FailsBy E (k a)) : FailsBy E (r >>= k) := by
  cases r with
  | ok a => exact hk a rfl
  | error e => exact .error (h e rfl)

theorem map {r : Except Error α} (h : FailsBy E r) (g : α → β) : FailsBy E (r.map g) := by
  cases r with
  | ok a => exact .ok (g a)
  | error e => exact .error (h e rfl)

theorem mapM {k : α → Except Error β} {xs : List α} (h : ∀ x, FailsBy E (k x)) :
    FailsBy E (xs.mapM k) := by
  induction xs with
  | nil => exact .ok []
  | cons x xs ih =>
    rw [List.mapM_cons]
    exact (h x).bind fun b _ => ih.bind fun bs _ => .ok (b :: bs)

theorem imp {E' : Error → Prop} {r : Except Error α} (h : FailsBy E r) (hE : ∀ e, E e → E' e) :
    FailsBy E' r :=
  fun e he => hE e (h e he)

end FailsBy

theorem Numeric.failsBy {r : Except Error α} (h : Numeric r) : FailsBy OfArgument r := by
  cases h with
  | ok a => exact .ok a
  | error cause => exact .error (.arithmetic cause)

section Conversion

theorem Value.failsBy_toNumber (v : Value) : FailsBy OfArgument v.toNumber := by
  unfold toNumber
  split
  · exact .ok _
  · exact .error (.type _ _)

/-- No value that passed the check is found not to be a number. -/
theorem failsBy_numbersOf (vs : List Value) : FailsBy OfArgument (numbersOf vs) := by
  rw [numbersOf_eq_mapM]
  exact .mapM Value.failsBy_toNumber

theorem Param.failsBy_convert (p : Param) (v : Value) : FailsBy OfArgument (p.convert v) := by
  cases p with
  | value => exact .ok v
  | number => exact v.failsBy_toNumber
  | integer =>
    cases v with
    | int n => exact .ok n
    | _ => exact .error (.type _ _)
  | real => exact v.failsBy_toNumber.map _
  | list =>
    cases v with
    | list id items => exact .ok items
    | _ => exact .error (.type _ _)
  | numbers =>
    cases v with
    | list id items => exact failsBy_numbersOf items
    | _ => exact .error (.type _ _)

theorem Rest.failsBy_convert (r : Rest) (vs : List Value) : FailsBy OfArgument (r.convert vs) := by
  cases r with
  | values => exact .ok vs
  | numbers => exact failsBy_numbersOf vs

namespace Function

/-- Functions whose results are of a kind whatever the arguments. -/
def Always (R : α → Prop) : (ps : List Param) → Function ps α → Prop
  | [], a => R a
  | _ :: ps, f => ∀ a, Always R ps (f a)

theorem Always.feed {R : α → Prop} {ps : List Param} {f : Function ps α} (h : Always R ps f)
    {vs others : List Value} {a : α} (hfeed : Function.feed ps f vs = .ok (a, others)) : R a := by
  induction ps generalizing vs with
  | nil =>
    cases hfeed
    exact h
  | cons p ps ih =>
    cases vs with
    | nil => cases hfeed
    | cons v vs =>
      simp only [Function.feed] at hfeed
      split at hfeed
      · cases hfeed
      · rename_i b hb
        exact ih (h b) hfeed

/-- Handing over arguments that are enough fails only where one of them does not convert. -/
theorem failsBy_feed {ps : List Param} (f : Function ps α) {vs : List Value}
    (h : ps.length ≤ vs.length) : FailsBy OfArgument (feed ps f vs) := by
  induction ps generalizing vs with
  | nil => exact .ok _
  | cons p ps ih =>
    cases vs with
    | nil => cases h
    | cons v vs =>
      have hconvert := p.failsBy_convert v
      unfold feed
      split
      · rename_i e he
        exact .error (hconvert e he)
      · exact ih _ (Nat.le_of_succ_le_succ h)

end Function

end Conversion

namespace Entry

variable [Answer α]

/-- What an entry fails by: where its arity accepts the number of arguments, errors about arguments
alone, and elsewhere arity errors besides. -/
def Sound (entry : Entry) : Prop :=
  ∀ args, FailsBy (fun e => e.OfArgument ∨ entry.arity.accepts args.length = false ∧
    ∃ expected, e = .arity expected args.length none) (entry.run args)

theorem Sound.not_isDefect {entry : Entry} (h : entry.Sound) (args : List Value) :
    FailsBy (fun e => ¬ e.IsDefect) (entry.run args) := by
  refine (h args).imp fun e he => ?_
  rcases he with he | ⟨-, expected, rfl⟩
  · exact he.not_isDefect
  · exact id

/-- An entry of exactly so many arguments refuses every other number of them. -/
theorem run_fixed_of_rejects {ps : List Param} {f : Function ps α} {args : List Value}
    (h : (fixed ps f).arity.accepts args.length = false) :
    (fixed ps f).run args = .error (.arity (fixed ps f).arity args.length none) := by
  have hlength : args.length ≠ ps.length := by
    simpa [fixed, Arity.accepts] using h
  simp only [fixed, if_neg hlength]

theorem sound_fixed {ps : List Param} {f : Function ps α}
    (h : Function.Always (fun a => FailsBy OfArgument (Answer.reply a)) ps f) :
    (fixed ps f).Sound := by
  intro args
  by_cases hlength : args.length = ps.length
  · have hfeed := Function.failsBy_feed f (Nat.le_of_eq hlength.symm)
    simp only [fixed, hlength, if_true]
    split
    · rename_i e he
      exact .error (.inl (hfeed e he))
    · rename_i a others ha
      exact (h.feed ha).imp fun _ => .inl
  · have hrejects : (fixed ps f).arity.accepts args.length = false := by
      simpa [fixed, Arity.accepts] using hlength
    rw [run_fixed_of_rejects hrejects]
    exact .error (.inr ⟨hrejects, _, rfl⟩)

theorem sound_variadic {arity : Arity} {ps : List Param} {rest : Rest}
    {f : Function ps (rest.Carrier → α)} (harity : ∀ n, arity.accepts n = true → ps.length ≤ n)
    (h : Function.Always (fun g => ∀ a, FailsBy OfArgument (Answer.reply (g a))) ps f) :
    (variadic arity ps rest f).Sound := by
  intro args
  simp only [variadic]
  split
  · rename_i hlength
    have hrejects : arity.accepts args.length = false := by
      rw [Bool.eq_false_iff]
      intro haccepts
      have := harity _ haccepts
      omega
    exact .error (.inr ⟨hrejects, _, rfl⟩)
  · rename_i hlength
    have hfeed := Function.failsBy_feed f (Nat.le_of_not_lt hlength)
    split
    · rename_i e he
      exact .error (.inl (hfeed e he))
    · rename_i g others hg
      split
      · rename_i e he
        exact .error (.inl (rest.failsBy_convert others e he))
      · exact (h.feed hg _).imp fun _ => .inl

section Answers

/-- An answer that may fail fails by what it fails by. -/
theorem failsBy_reply {r : Except Error α} (hr : FailsBy E r)
    (h : ∀ a : α, FailsBy E (Answer.reply a)) : FailsBy E (Answer.reply r) := by
  cases r with
  | ok a => exact h a
  | error e => exact .error (hr e rfl)

theorem sound_unary {p : Param} {f : p.Carrier → Except Error α}
    (hα : ∀ a : α, FailsBy OfArgument (Answer.reply a)) (h : ∀ a, FailsBy OfArgument (f a)) :
    (fixed [p] f).Sound :=
  sound_fixed fun a => failsBy_reply (h a) hα

theorem sound_binary {p q : Param} {f : p.Carrier → q.Carrier → Except Error α}
    (hα : ∀ a : α, FailsBy OfArgument (Answer.reply a)) (h : ∀ a b, FailsBy OfArgument (f a b)) :
    (fixed [p, q] f).Sound :=
  sound_fixed fun a b => failsBy_reply (h a b) hα

end Answers

end Entry

namespace Builtin

theorem failsBy_car (vs : List Value) : FailsBy OfArgument (car vs) := by
  cases vs with
  | nil => exact .error (.index _)
  | cons v vs => exact .ok v

theorem failsBy_cdr (vs : List Value) : FailsBy OfArgument (cdr vs) := by
  cases vs with
  | nil => exact .error (.index _)
  | cons v vs => exact .ok _

theorem failsBy_cons (v w : Value) : FailsBy OfArgument (cons v w) := by
  cases w with
  | list id items => exact .ok _
  | _ => exact .error (.type _ _)

theorem failsBy_bestFrom (e : Extremum) (best : Value × Number) (vs : List Value) :
    FailsBy OfArgument (bestFrom e best vs) := by
  induction vs generalizing best with
  | nil => exact .ok _
  | cons v vs ih =>
    have hnumber := v.failsBy_toNumber
    unfold bestFrom
    split
    · rename_i err herr
      exact .error (hnumber err herr)
    · split
      · exact ih _
      · exact ih _

theorem failsBy_candidates (e : Extremum) (vs : List Value) :
    FailsBy OfArgument (candidates e vs) := by
  unfold candidates
  split
  · exact .ok _
  · exact .error (.type _ _)
  · exact .ok _

theorem failsBy_extremum (e : Extremum) (vs : List Value) :
    FailsBy OfArgument (extremum e vs) := by
  have hcandidates := failsBy_candidates e vs
  unfold extremum
  split
  · rename_i err herr
    exact .error (hcandidates err herr)
  · exact .error (.index _)
  · rename_i v rest hmore
    have hnumber := v.failsBy_toNumber
    split
    · rename_i err herr
      exact .error (hnumber err herr)
    · exact failsBy_bestFrom e _ rest

theorem failsBy_round (a : Number) (digits : List Number) :
    FailsBy OfArgument (round a digits) := by
  unfold round
  split
  · exact .ok _
  · exact ((numeric_toInteger _ _).map _).failsBy
  · exact ((numeric_roundWord _ _).map _).failsBy
  · exact .ok _
  · exact .error (.type _ _)

/-- Without arguments there is no last one; that is refused before. -/
theorem failsBy_sequence {vs : List Value} (h : vs ≠ []) : FailsBy OfArgument (sequence vs) := by
  unfold sequence
  rw [List.getLast?_eq_some_getLast h]
  exact .ok _

theorem sound_sequence : Primitive.sequence.entry.Sound := by
  intro args
  have hrun : Primitive.sequence.entry.run args = Answer.reply (sequence args) := rfl
  rw [hrun]
  cases args with
  | nil => exact .error (.inr ⟨rfl, _, rfl⟩)
  | cons v vs =>
    have hanswer := Entry.failsBy_reply (failsBy_sequence (List.cons_ne_nil v vs))
      fun _ => .ok _
    exact hanswer.imp fun _ => .inl

end Builtin

open Entry in
/-- No primitive fails by anything but errors about its arguments or their number. -/
theorem Primitive.sound (p : Primitive) : p.entry.Sound := by
  have hnumber (n : Number) : FailsBy OfArgument (Answer.reply n) := .ok _
  have hint (n : Int64) : FailsBy OfArgument (Answer.reply n) := .ok _
  have hfloat (x : Float) : FailsBy OfArgument (Answer.reply x) := .ok _
  have hvalue (v : Value) : FailsBy OfArgument (Answer.reply v) := .ok _
  have hdraft (d : Draft) : FailsBy OfArgument (Answer.reply d) := .ok _
  have hrange (n : Nat) (h : (Arity.between 1 2).accepts n = true) : 1 ≤ n :=
    of_decide_eq_true (Bool.and_eq_true_iff.mp h).1
  cases p with
  | add => exact sound_binary hnumber fun _ _ => (numeric_combine ..).failsBy
  | sub => exact sound_binary hnumber fun _ _ => (numeric_combine ..).failsBy
  | mul => exact sound_binary hnumber fun _ _ => (numeric_combine ..).failsBy
  | div => exact sound_binary hfloat fun _ _ => (numeric_div _ _).failsBy
  | abs => exact sound_unary hnumber fun _ => (numeric_abs _).failsBy
  | expt => exact sound_binary hfloat fun _ _ => (numeric_checked ..).failsBy
  | extremum e =>
    exact sound_variadic (fun n _ => Nat.zero_le n) fun vs =>
      failsBy_reply (Builtin.failsBy_extremum e vs) hvalue
  | round =>
    exact sound_variadic hrange fun a digits =>
      failsBy_reply (Builtin.failsBy_round a digits) hnumber
  | compare c => exact sound_fixed fun _ _ => .ok _
  | numericEqual => exact sound_fixed fun _ _ => .ok _
  | equal => exact sound_fixed fun _ _ => .ok _
  | identical => exact sound_fixed fun _ _ => .ok _
  | car => exact sound_unary hvalue Builtin.failsBy_car
  | cdr => exact sound_unary hdraft Builtin.failsBy_cdr
  | cons => exact sound_binary hdraft Builtin.failsBy_cons
  | list => exact sound_variadic (fun n _ => Nat.zero_le n) fun _ => .ok _
  | length => exact sound_fixed fun _ => .ok _
  | test t => exact sound_fixed fun _ => .ok _
  | sequence => exact Builtin.sound_sequence
  | print => exact sound_variadic (fun n _ => Nat.zero_le n) fun _ => .ok _
  | elementary f => exact sound_unary hfloat fun _ => (numeric_checked ..).failsBy
  | log =>
    exact sound_variadic hrange fun x bases =>
      failsBy_reply (numeric_logarithm x bases).failsBy hfloat
  | toInteger r => exact sound_unary hint fun _ => (numeric_rounding r _).failsBy
  | dyadic f => exact sound_binary hfloat fun _ _ => (numeric_checked ..).failsBy
  | copysign => exact sound_fixed fun _ _ => .ok _
  | factorial => exact sound_unary hint fun _ => (numeric_factorial _).failsBy
  | gcd => exact sound_binary hint fun _ _ => (numeric_gcd _ _).failsBy
  | classify c => exact sound_fixed fun _ => .ok _

end MiniLisp
