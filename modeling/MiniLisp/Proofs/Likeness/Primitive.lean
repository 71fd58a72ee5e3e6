import MiniLisp.Proofs.Likeness.Answer
import MiniLisp.Proofs.Number.Rounding

/-!
# Primitives answer alike

Every primitive answers alike to arguments that are alike (`Primitive.answers`). Those on numbers
see the same numbers in both runs, and their errors do not say what was being evaluated; the others
look at values only in ways that likeness allows.
-/

namespace MiniLisp

variable {L : Likeness} {st : Stage} {α β : Type}

/-- A result whose error, if it is one, does not say what was being evaluated. -/
inductive Quiet : Except Error α → Prop where
  | ok (a : α) : Quiet (.ok a)
  | error {e : Error} (h : e.Silent) : Quiet (.error e)

/-- Arithmetic errors do not say what was being evaluated. -/
theorem Numeric.quiet {r : Except Error α} (h : Numeric r) : Quiet r := by
  cases h with
  | ok a => exact .ok a
  | error cause => exact .error trivial

section Answers

/-- Answers that are made of no value but numbers and booleans. -/
class Answer.Plain (α : Type) [Answer α] : Prop where
  alike (L : Likeness) (st : Stage) (a : α) : Answer.Alike L st a a

namespace Answer

instance : Plain Number := ⟨fun _ _ a => .ok ⟨.value (by cases a <;> constructor), rfl⟩⟩

instance : Plain Int64 := ⟨fun _ _ n => .ok ⟨.value (.int n), rfl⟩⟩

instance : Plain Float := ⟨fun _ _ x => .ok ⟨.value (.float x), rfl⟩⟩

instance : Plain Bool := ⟨fun _ _ b => .ok ⟨.value (.bool b), rfl⟩⟩

variable [Answer α]

theorem alike_of_quiet [Plain α] {r : Except Error α} (h : Quiet r) : Answer.Alike L st r r := by
  cases h with
  | ok a => exact Plain.alike L st a
  | error he => exact .error (L.error_of_silent he)

theorem alike_of_agrees {r r' : Except Error α} (h : L.Agrees (Answer.Alike L st) r r') :
    Answer.Alike L st r r' := by
  cases h with
  | error he => exact .error he
  | ok h => exact h

end Answer

open Answer

/-- Parameters that ask for numbers see the same in both runs. -/
def Param.Same (p : Param) : Prop := ∀ {L : Likeness} {st : Stage} {a b : p.Carrier},
  p.Alike L st a b → a = b

theorem same_number : Param.number.Same := id

theorem same_integer : Param.integer.Same := id

theorem same_real : Param.real.Same := id

theorem answers_unary [Answer α] [Plain α] {p : Param} {f : p.Carrier → Except Error α}
    (hp : p.Same) (h : ∀ a, Quiet (f a)) :
    L.Answers (Entry.fixed [p] f).run (Entry.fixed [p] f).run := by
  refine answers_fixed ?_
  intro st a b hab
  rw [hp hab]
  exact alike_of_quiet (h b)

theorem answers_binary [Answer α] [Plain α] {p q : Param}
    {f : p.Carrier → q.Carrier → Except Error α} (hp : p.Same) (hq : q.Same)
    (h : ∀ a b, Quiet (f a b)) :
    L.Answers (Entry.fixed [p, q] f).run (Entry.fixed [p, q] f).run := by
  refine answers_fixed ?_
  intro st a b hab c d hcd
  rw [hp hab, hq hcd]
  exact alike_of_quiet (h b d)

end Answers

namespace Builtin

variable {v w : Value} {vs ws : List Value}

theorem agrees_round (a : Number) (digits : List Number) :
    L.Agrees (Answer.Alike L st) (round a digits) (round a digits) := by
  have hquiet {r : Except Error Number} (h : Quiet r) : L.Agrees (Answer.Alike L st) r r := by
    cases h with
    | ok n => exact .ok (Answer.Plain.alike L st n)
    | error he => exact .error (L.error_of_silent he)
  unfold round
  split
  · exact hquiet (.ok _)
  · exact hquiet ((numeric_toInteger _ _).map _).quiet
  · exact hquiet ((numeric_roundWord _ _).map _).quiet
  · exact hquiet (.ok _)
  · exact .error (L.error_of_type (L.text_of_line (by decide)))

theorem agrees_car (h : Value.AllAlike L st vs ws) :
    L.Agrees (Value.Alike L st) (car vs) (car ws) := by
  cases h with
  | nil => exact .error (L.error_of_silent trivial)
  | cons hv _ => exact .ok hv

theorem agrees_cdr (h : Value.AllAlike L st vs ws) :
    L.Agrees (Draft.Alike L st) (cdr vs) (cdr ws) := by
  cases h with
  | nil => exact .error (L.error_of_silent trivial)
  | cons _ hvs => exact .ok (.ofList hvs)

theorem agrees_cons {v' w' : Value} (h : v.Alike L st w) (h' : v'.Alike L st w') :
    L.Agrees (Draft.Alike L st) (cons v v') (cons w w') := by
  have hother (u : Value) : L.error (.type (.consTail u.typeName) none) :=
    L.error_of_type (L.text_append (L.text_of_line (by decide)) (u.text_typeName L))
  cases h' with
  | list hid hlength hitems =>
    have hlist := Value.alike_list_iff.mp (.list hid hlength hitems)
    exact .ok (.ofList (.cons h hlist.2))
  | closure => exact .error (hother (.closure _))
  | builtin => exact .error (hother (.builtin _))
  | _ => exact .error (hother _)

theorem agrees_sequence (h : Value.AllAlike L st vs ws) :
    L.Agrees (Value.Alike L st) (sequence vs) (sequence ws) := by
  have hlast : Option.Rel (Value.Alike L st) vs.getLast? ws.getLast? := by
    rw [List.getLast?_eq_head?_reverse, List.getLast?_eq_head?_reverse]
    have hreverse := List.forall₂_reverse_iff.mpr h
    generalize vs.reverse = us at hreverse ⊢
    generalize ws.reverse = us' at hreverse ⊢
    cases hreverse with
    | nil => exact .none
    | cons hv _ => exact .some hv
  unfold sequence
  generalize vs.getLast? = o at hlast ⊢
  generalize ws.getLast? = o' at hlast ⊢
  cases hlast with
  | none => exact .error (L.error_of_silent trivial)
  | some hv => exact .ok hv

theorem print_eq (h : Value.AllAlike L st vs ws) : print vs = print ws := by
  have htexts : vs.map Value.text = ws.map Value.text := by
    induction h with
    | nil => rfl
    | cons hv _ ih => rw [List.map_cons, List.map_cons, hv.text_eq, ih]
  rw [print, print, htexts]

@[simp] theorem candidates_several (e : Extremum) (v w : Value) (rest : List Value) :
    candidates e (v :: w :: rest) = .ok (v :: w :: rest) := by
  cases v <;> rfl

theorem agrees_candidates (e : Extremum) (h : Value.AllAlike L st vs ws) :
    L.Agrees (Value.AllAlike L st) (candidates e vs) (candidates e ws) := by
  cases h with
  | nil => exact .ok List.Forall₂.nil
  | @cons v w vs ws hv hvs =>
    cases hvs with
    | cons hv' hvs =>
      rw [candidates_several, candidates_several]
      exact .ok (List.Forall₂.cons hv (List.Forall₂.cons hv' hvs))
    | nil =>
      have hmessage : L.text (TypeCause.extremum e.name v.shown).message := by
        have hname : L.text e.name := L.text_of_line (by cases e <;> decide)
        have hparts := L.text_append (L.text_append (L.text_append (L.text_append hname
          (L.text_of_line (by decide :
            '\n' ∉ " expects a list or at least two arguments, got ".toList)))
          (v.text_typeName L)) (L.text_of_line (by decide : '\n' ∉ ": ".toList))) hv.text
        exact hparts
      have hsingle : L.Agrees (Value.AllAlike L st)
          (.error (.type (.extremum e.name v.shown) none))
          (.error (.type (.extremum e.name w.shown) none)) := by
        rw [← hv.shown_eq]
        exact .error (L.error_of_type hmessage)
      cases hv with
      | list hid hlength hitems =>
        exact .ok (Value.alike_list_iff.mp (.list hid hlength hitems)).2
      | _ => exact hsingle

theorem agrees_bestFrom (e : Extremum) (n : Number) (h : Value.Alike L st v w)
    (hvs : Value.AllAlike L st vs ws) :
    L.Agrees (Value.Alike L st) (bestFrom e (v, n) vs) (bestFrom e (w, n) ws) := by
  induction hvs generalizing v w n with
  | nil => exact .ok h
  | @cons v' w' vs ws hv' _ ih =>
    have hnumber := hv'.toNumber
    simp only [bestFrom]
    generalize v'.toNumber = r at hnumber ⊢
    generalize w'.toNumber = r' at hnumber ⊢
    cases hnumber with
    | error he => exact .error he
    | ok hab =>
      subst hab
      simp only
      split
      · exact ih _ hv'
      · exact ih _ h

theorem agrees_extremum (e : Extremum) (h : Value.AllAlike L st vs ws) :
    L.Agrees (Value.Alike L st) (extremum e vs) (extremum e ws) := by
  have hcandidates := agrees_candidates e h
  unfold extremum
  generalize candidates e vs = r at hcandidates ⊢
  generalize candidates e ws = r' at hcandidates ⊢
  cases hcandidates with
  | error he => exact .error he
  | ok hall =>
    cases hall with
    | nil => exact .error (L.error_of_silent trivial)
    | @cons v w vs ws hv hvs =>
      have hnumber := hv.toNumber
      simp only
      generalize v.toNumber = r at hnumber ⊢
      generalize w.toNumber = r' at hnumber ⊢
      cases hnumber with
      | error he => exact .error he
      | ok hab =>
        subst hab
        exact agrees_bestFrom e _ hv hvs

theorem test_eq (t : Test) (h : Value.Alike L st v w) : test t v = test t w := by
  cases t with
  | number => exact congrArg Option.isSome h.number?_eq
  | symbol => cases h <;> rfl
  | list => cases h <;> rfl
  | procedure => exact h.isProcedure_eq
  | null => exact h.isNil_eq
  | not => exact congrArg Bool.not h.isTruthy_eq

end Builtin

open Answer in
/-- Every primitive answers alike to arguments that are alike. -/
theorem Primitive.answers (L : Likeness) (p : Primitive) : L.Answers p.entry.run p.entry.run := by
  have hvalue {st : Stage} {v w : Value} (h : v.Alike L st w) : Answer.Alike L st v w :=
    .ok ⟨.value h, rfl⟩
  have hdraft {st : Stage} {d e : Draft} (h : d.Alike L st e) : Answer.Alike L st d e :=
    .ok ⟨h, rfl⟩
  cases p with
  | add => exact answers_binary same_number same_number fun _ _ => (numeric_combine _ _ _ _ _).quiet
  | sub => exact answers_binary same_number same_number fun _ _ => (numeric_combine _ _ _ _ _).quiet
  | mul => exact answers_binary same_number same_number fun _ _ => (numeric_combine _ _ _ _ _).quiet
  | div => exact answers_binary same_number same_number fun _ _ => (numeric_div _ _).quiet
  | abs => exact answers_unary same_number fun _ => (numeric_abs _).quiet
  | expt => exact answers_binary same_real same_real fun _ _ => (numeric_checked _ _ _).quiet
  | extremum e =>
    refine answers_variadic ?_
    intro st vs ws h
    exact alike_of_agrees ((Builtin.agrees_extremum e h).imp fun _ _ => hvalue)
  | round =>
    refine answers_variadic ?_
    intro st a b hab digits digits' hdigits
    cases hab
    cases hdigits
    exact alike_of_agrees (Builtin.agrees_round a digits)
  | compare c =>
    refine answers_fixed ?_
    intro st a b hab a' b' hab'
    cases hab
    cases hab'
    exact Plain.alike L st _
  | numericEqual =>
    refine answers_fixed ?_
    intro st v w h v' w' h'
    simp only [Value.Alike.equal_eq h h']
    exact Plain.alike L st _
  | equal =>
    refine answers_fixed ?_
    intro st v w h v' w' h'
    simp only [Value.Alike.equal_eq h h']
    exact Plain.alike L st _
  | identical =>
    refine answers_fixed ?_
    intro st v w h v' w' h'
    simp only [Value.Alike.identical_eq h h']
    exact Plain.alike L st _
  | car =>
    refine answers_fixed ?_
    intro st vs ws h
    exact alike_of_agrees ((Builtin.agrees_car h).imp fun _ _ => hvalue)
  | cdr =>
    refine answers_fixed ?_
    intro st vs ws h
    exact alike_of_agrees ((Builtin.agrees_cdr h).imp fun _ _ => hdraft)
  | cons =>
    refine answers_fixed ?_
    intro st v w h v' w' h'
    exact alike_of_agrees ((Builtin.agrees_cons h h').imp fun _ _ => hdraft)
  | list =>
    refine answers_variadic ?_
    intro st vs ws h
    exact hdraft (.ofList h)
  | length =>
    refine answers_fixed ?_
    intro st vs ws h
    simp only [List.Forall₂.length_eq h]
    exact Plain.alike L st _
  | test t =>
    refine answers_fixed ?_
    intro st v w h
    rw [Builtin.test_eq t h]
    exact Plain.alike L st _
  | sequence =>
    refine answers_variadic ?_
    intro st vs ws h
    exact alike_of_agrees ((Builtin.agrees_sequence h).imp fun _ _ => hvalue)
  | print =>
    refine answers_variadic ?_
    intro st vs ws h
    rw [Builtin.print_eq h]
    exact .ok ⟨.value .unspecified, rfl⟩
  | elementary f => exact answers_unary same_real fun _ => (numeric_checked _ _ _).quiet
  | log =>
    refine answers_variadic ?_
    intro st a b hab bases bases' hbases
    cases hab
    cases hbases
    exact alike_of_quiet (numeric_logarithm a bases).quiet
  | toInteger r => exact answers_unary same_number fun _ => (numeric_rounding r _).quiet
  | dyadic f => exact answers_binary same_real same_real fun _ _ => (numeric_checked _ _ _).quiet
  | copysign =>
    refine answers_fixed ?_
    intro st a b hab a' b' hab'
    cases hab
    cases hab'
    exact Plain.alike L st _
  | factorial => exact answers_unary same_integer fun _ => (numeric_factorial _).quiet
  | gcd => exact answers_binary same_integer same_integer fun _ _ => (numeric_gcd _ _).quiet
  | classify c =>
    refine answers_fixed ?_
    intro st a b hab
    cases hab
    exact Plain.alike L st _

end MiniLisp
