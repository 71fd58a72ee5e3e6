import MiniLisp.Host

/-!
# Typed arguments

Which values a typed parameter takes and what it takes them for (`Param.Takes`), and which values it
refuses and by which error (`Param.Refuses`), is said here without the conversions themselves. A
procedure counts its arguments, refuses them for the leftmost that is refused, and otherwise calls
its function with what they are taken for (`Entry.typed_procedures_convert_first`). The error is
settled before the function comes into it, so that it is the same for all functions.
-/

namespace MiniLisp

section Numbers

@[simp] theorem Value.toNumber_ofNumber (n : Number) : (ofNumber n).toNumber = .ok n := by
  cases n <;> rfl

theorem Value.toNumber_of_none {v : Value} (h : v.number? = none) :
    v.toNumber = .error (v.mismatch .number) := by
  rw [toNumber, h]

theorem Value.eq_ofNumber {v : Value} {n : Number} (h : v.number? = some n) : v = .ofNumber n := by
  cases v <;> cases h <;> rfl

/-- A value is a number or none. -/
theorem Value.number_cases (v : Value) : (∃ n, v = .ofNumber n) ∨ v.number? = none := by
  cases h : v.number? with
  | none => exact .inr rfl
  | some n => exact .inl ⟨n, Value.eq_ofNumber h⟩

/-- The value is the first one in the list that is no number. -/
inductive FirstOther : List Value → Value → Prop where
  | behind (ns : List Number) {v : Value} (hv : v.number? = none) (rest : List Value) :
      FirstOther (ns.map .ofNumber ++ v :: rest) v

theorem FirstOther.cons {vs : List Value} {v : Value} (h : FirstOther vs v) (n : Number) :
    FirstOther (.ofNumber n :: vs) v := by
  cases h with
  | behind ns hv rest => exact .behind (n :: ns) hv rest

theorem FirstOther.mem {vs : List Value} {v : Value} (h : FirstOther vs v) : v ∈ vs := by
  cases h with
  | behind ns hv rest => exact List.mem_append_right _ (.head _)

theorem FirstOther.number_eq {vs : List Value} {v : Value} (h : FirstOther vs v) :
    v.number? = none := by
  cases h with
  | behind _ hv _ => exact hv

theorem FirstOther.cons_cases {w v : Value} {vs : List Value} (h : FirstOther (w :: vs) v) :
    (w = v ∧ v.number? = none) ∨ ∃ n : Number, w = .ofNumber n ∧ FirstOther vs v := by
  generalize hall : w :: vs = all at h
  cases h with
  | behind ns hv rest =>
    cases ns with
    | nil =>
      obtain ⟨rfl, rfl⟩ := List.cons.inj hall
      exact .inl ⟨rfl, hv⟩
    | cons n ns =>
      obtain ⟨rfl, rfl⟩ := List.cons.inj hall
      exact .inr ⟨n, rfl, .behind ns hv rest⟩

/-- All values are numbers, or there is a first one that is none. -/
theorem numbers_or_firstOther (vs : List Value) :
    (∃ ns : List Number, vs = ns.map .ofNumber) ∨ ∃ v, FirstOther vs v := by
  induction vs with
  | nil => exact .inl ⟨[], rfl⟩
  | cons v vs ih =>
    rcases v.number_cases with ⟨n, rfl⟩ | hv
    · rcases ih with ⟨ns, rfl⟩ | ⟨w, hw⟩
      · exact .inl ⟨n :: ns, rfl⟩
      · exact .inr ⟨w, hw.cons n⟩
    · exact .inr ⟨v, .behind [] hv vs⟩

theorem numbers_of_forall {vs : List Value} (h : ∀ v ∈ vs, v.number?.isSome) :
    ∃ ns : List Number, vs = ns.map .ofNumber := by
  rcases numbers_or_firstOther vs with hnumbers | ⟨v, hv⟩
  · exact hnumbers
  · have hsome := h v hv.mem
    rw [hv.number_eq] at hsome
    cases hsome

theorem numbersOf_ofNumber_cons (n : Number) (vs : List Value) :
    numbersOf (.ofNumber n :: vs) = (numbersOf vs).map (n :: ·) := by
  rw [numbersOf_eq_mapM, numbersOf_eq_mapM, List.mapM_cons, Value.toNumber_ofNumber]
  cases vs.mapM Value.toNumber <;> rfl

theorem numbersOf_map_ofNumber (ns : List Number) : numbersOf (ns.map .ofNumber) = .ok ns := by
  induction ns with
  | nil => rfl
  | cons n ns ih => rw [List.map_cons, numbersOf_ofNumber_cons, ih]; rfl

theorem numbersOf_of_firstOther {vs : List Value} {v : Value} (h : FirstOther vs v) :
    numbersOf vs = .error (v.mismatch .number) := by
  induction vs with
  | nil => cases h.mem
  | cons w vs ih =>
    rcases h.cons_cases with ⟨rfl, hv⟩ | ⟨n, rfl, hrest⟩
    · rw [numbersOf_eq_mapM, List.mapM_cons, Value.toNumber_of_none hv]
      rfl
    · rw [numbersOf_ofNumber_cons, ih hrest]
      rfl

end Numbers

namespace Param

/-- What a value is taken for where a parameter asks for it: an integer for itself, or for the float
nearest to it where a float is asked for, and a list for its elements in order. -/
inductive Takes : (p : Param) → Value → p.Carrier → Prop where
  | value (v : Value) : Takes value v v
  | number (n : Number) : Takes number (.ofNumber n) n
  | integer (n : Int64) : Takes integer (.int n) n
  | real (x : Float) : Takes real (.float x) x
  | widened (n : Int64) : Takes real (.int n) (realOf n)
  | list (id : Nat) (items : List Value) : Takes list (.list id items) items
  | numbers (id : Nat) (ns : List Number) : Takes numbers (.list id (ns.map .ofNumber)) ns

/-- The error by which a parameter refuses a value: what was asked for and the value, or the first
element of a list that should be a number. -/
inductive Refuses : Param → Value → Error → Prop where
  | number {v : Value} (h : v.number? = none) : Refuses number v (v.mismatch .number)
  | integer {v : Value} (h : ∀ n, v ≠ .int n) : Refuses integer v (v.mismatch .integer)
  | real {v : Value} (h : v.number? = none) : Refuses real v (v.mismatch .number)
  | list {v : Value} (h : ∀ id items, v ≠ .list id items) : Refuses list v (v.mismatch .list)
  | numbers {v : Value} (h : ∀ id items, v ≠ .list id items) : Refuses numbers v (v.mismatch .list)
  | element (id : Nat) {items : List Value} {v : Value} (h : FirstOther items v) :
      Refuses numbers (.list id items) (v.mismatch .number)

variable {p : Param} {v : Value}

theorem Takes.convert_eq {a : p.Carrier} (h : p.Takes v a) : p.convert v = .ok a := by
  cases h with
  | value => rfl
  | number n => exact Value.toNumber_ofNumber n
  | integer => rfl
  | real => rfl
  | widened => rfl
  | list => rfl
  | numbers id ns => exact numbersOf_map_ofNumber ns

theorem Refuses.convert_eq {e : Error} (h : p.Refuses v e) : p.convert v = .error e := by
  cases h with
  | number h => exact Value.toNumber_of_none h
  | integer h =>
    cases v with
    | int n => exact absurd rfl (h n)
    | _ => rfl
  | real h => exact congrArg (Except.map Number.toReal) (Value.toNumber_of_none h)
  | list h =>
    cases v with
    | list id items => exact absurd rfl (h id items)
    | _ => rfl
  | numbers h =>
    cases v with
    | list id items => exact absurd rfl (h id items)
    | _ => rfl
  | element id h => exact numbersOf_of_firstOther h

theorem takes_or_refuses (p : Param) (v : Value) : (∃ a, p.Takes v a) ∨ ∃ e, p.Refuses v e := by
  cases p with
  | value => exact .inl ⟨v, .value v⟩
  | number =>
    rcases v.number_cases with ⟨n, rfl⟩ | hv
    · exact .inl ⟨n, .number n⟩
    · exact .inr ⟨_, .number hv⟩
  | integer =>
    cases v with
    | int n => exact .inl ⟨n, .integer n⟩
    | _ => exact .inr ⟨_, .integer nofun⟩
  | real =>
    rcases v.number_cases with ⟨n | x, rfl⟩ | hv
    · exact .inl ⟨_, .widened n⟩
    · exact .inl ⟨x, .real x⟩
    · exact .inr ⟨_, .real hv⟩
  | list =>
    cases v with
    | list id items => exact .inl ⟨items, .list id items⟩
    | _ => exact .inr ⟨_, .list nofun⟩
  | numbers =>
    cases v with
    | list id items =>
      rcases numbers_or_firstOther items with ⟨ns, rfl⟩ | ⟨v, hv⟩
      · exact .inl ⟨ns, .numbers id ns⟩
      · exact .inr ⟨_, .element id hv⟩
    | _ => exact .inr ⟨_, .numbers nofun⟩

end Param

namespace Rest

/-- What all further arguments are taken for. -/
inductive Takes : (r : Rest) → List Value → r.Carrier → Prop where
  | values (vs : List Value) : Takes values vs vs
  | numbers (ns : List Number) : Takes numbers (ns.map .ofNumber) ns

inductive Refuses : Rest → List Value → Error → Prop where
  | numbers {vs : List Value} {v : Value} (h : FirstOther vs v) :
      Refuses numbers vs (v.mismatch .number)

variable {r : Rest} {vs : List Value}

theorem Takes.convert_eq {a : r.Carrier} (h : r.Takes vs a) : r.convert vs = .ok a := by
  cases h with
  | values => rfl
  | numbers ns => exact numbersOf_map_ofNumber ns

theorem Refuses.convert_eq {e : Error} (h : r.Refuses vs e) : r.convert vs = .error e := by
  cases h with
  | numbers h => exact numbersOf_of_firstOther h

theorem takes_or_refuses (r : Rest) (vs : List Value) :
    (∃ a, r.Takes vs a) ∨ ∃ e, r.Refuses vs e := by
  cases r with
  | values => exact .inl ⟨vs, .values vs⟩
  | numbers =>
    rcases numbers_or_firstOther vs with ⟨ns, rfl⟩ | ⟨v, hv⟩
    · exact .inl ⟨ns, .numbers ns⟩
    · exact .inr ⟨_, .numbers hv⟩

end Rest

/-- Arguments of the given types. -/
inductive Arguments : List Param → Type where
  | nil : Arguments []
  | cons {p : Param} {ps : List Param} (a : p.Carrier) (as : Arguments ps) : Arguments (p :: ps)

namespace Arguments

/-- The values are taken for the arguments, each for the one in its place. -/
inductive Taken : {ps : List Param} → List Value → Arguments ps → Prop where
  | nil : Taken [] nil
  | cons {p : Param} {ps : List Param} {v : Value} {vs : List Value} {a : p.Carrier}
      {as : Arguments ps} (h : p.Takes v a) (hs : Taken vs as) : Taken (v :: vs) (cons a as)

/-- The error by which the leftmost value is refused that is refused at all. -/
inductive Refused : List Param → List Value → Error → Prop where
  | here {p : Param} {v : Value} {e : Error} (h : p.Refuses v e) (ps : List Param)
      (vs : List Value) : Refused (p :: ps) (v :: vs) e
  | later {p : Param} {ps : List Param} {v : Value} {vs : List Value} {a : p.Carrier} {e : Error}
      (h : p.Takes v a) (hs : Refused ps vs e) : Refused (p :: ps) (v :: vs) e

theorem Taken.length_eq {ps : List Param} {vs : List Value} {as : Arguments ps}
    (h : Taken vs as) : vs.length = ps.length := by
  induction h with
  | nil => rfl
  | cons _ _ ih => rw [List.length_cons, List.length_cons, ih]

theorem taken_or_refused {ps : List Param} {vs : List Value} (h : vs.length = ps.length) :
    (∃ as : Arguments ps, Taken vs as) ∨ ∃ e, Refused ps vs e := by
  induction ps generalizing vs with
  | nil =>
    obtain rfl := List.length_eq_zero_iff.mp h
    exact .inl ⟨nil, .nil⟩
  | cons p ps ih =>
    obtain ⟨v, vs, rfl⟩ := List.exists_cons_of_length_eq_add_one h
    rcases p.takes_or_refuses v with ⟨a, ha⟩ | ⟨e, he⟩
    · rcases ih (Nat.succ.inj h) with ⟨as, has⟩ | ⟨e, he⟩
      · exact .inl ⟨cons a as, .cons ha has⟩
      · exact .inr ⟨e, .later ha he⟩
    · exact .inr ⟨e, .here he ps vs⟩

end Arguments

namespace Function

variable {α : Type}

def call : {ps : List Param} → Function ps α → Arguments ps → α
  | [], a, .nil => a
  | _ :: _, f, .cons a as => call (f a) as

open Arguments

variable {ps : List Param} {vs : List Value}

theorem feed_of_taken {as : Arguments ps} (h : Taken vs as) (f : Function ps α)
    (others : List Value) : feed ps f (vs ++ others) = .ok (f.call as, others) := by
  induction h with
  | nil => rfl
  | cons h _ ih =>
    rw [List.cons_append, feed, h.convert_eq]
    exact ih _

theorem feed_of_refused {e : Error} (h : Refused ps vs e) (f : Function ps α)
    (others : List Value) : feed ps f (vs ++ others) = .error e := by
  induction h with
  | here h => rw [List.cons_append, feed, h.convert_eq]
  | later h _ ih =>
    rw [List.cons_append, feed, h.convert_eq]
    exact ih _

end Function

/-- What becomes of the arguments of a procedure before its function comes into it. -/
inductive Intake (β : Type) where
  | refused (e : Error)
  | taken (b : β)

/-- What a procedure answers: an error, or what its function does, which is called only then. -/
def Intake.answer {α β : Type} [Answer α] (f : β → α) : Intake β → Except Error Reply
  | refused e => .error e
  | taken b => Answer.reply (f b)

namespace Entry

open Arguments

/-- How a procedure of the parameters `ps` takes in arguments: it counts them first. -/
inductive TakesIn (ps : List Param) : List Value → Intake (Arguments ps) → Prop where
  | miscounted {args : List Value} (h : args.length ≠ ps.length) :
      TakesIn ps args (.refused (.arity (.exactly ps.length) args.length none))
  | refused {args : List Value} {e : Error} (h : args.length = ps.length)
      (he : Refused ps args e) : TakesIn ps args (.refused e)
  | taken {args : List Value} {as : Arguments ps} (h : Taken args as) : TakesIn ps args (.taken as)

/-- How a procedure of the parameters `ps` and a rest parameter takes in arguments: it looks at
those for the rest parameter when it has taken all others. -/
inductive TakesInRest (ps : List Param) (rest : Rest) :
    List Value → Intake (Arguments ps × rest.Carrier) → Prop where
  | miscounted {args : List Value} (h : args.length < ps.length) :
      TakesInRest ps rest args (.refused (.arity (.atLeast ps.length) args.length none))
  | refused {front : List Value} {e : Error} (h : front.length = ps.length)
      (he : Refused ps front e) (others : List Value) :
      TakesInRest ps rest (front ++ others) (.refused e)
  | refusedRest {front others : List Value} {as : Arguments ps} {e : Error} (h : Taken front as)
      (he : rest.Refuses others e) : TakesInRest ps rest (front ++ others) (.refused e)
  | taken {front others : List Value} {as : Arguments ps} {bs : rest.Carrier} (h : Taken front as)
      (hs : rest.Takes others bs) : TakesInRest ps rest (front ++ others) (.taken (as, bs))

variable {α : Type} [Answer α] {ps : List Param} {rest : Rest} {args : List Value}

theorem exists_takesIn (ps : List Param) (args : List Value) : ∃ i, TakesIn ps args i := by
  by_cases h : args.length = ps.length
  · rcases taken_or_refused h with ⟨as, has⟩ | ⟨e, he⟩
    · exact ⟨_, .taken has⟩
    · exact ⟨_, .refused h he⟩
  · exact ⟨_, .miscounted h⟩

theorem exists_takesInRest (ps : List Param) (rest : Rest) (args : List Value) :
    ∃ i, TakesInRest ps rest args i := by
  rcases Nat.lt_or_ge args.length ps.length with h | h
  · exact ⟨_, .miscounted h⟩
  · have hfront : (args.take ps.length).length = ps.length := List.length_take_of_le h
    rw [← List.take_append_drop ps.length args]
    rcases taken_or_refused hfront with ⟨as, has⟩ | ⟨e, he⟩
    · rcases rest.takes_or_refuses (args.drop ps.length) with ⟨bs, hbs⟩ | ⟨e, he⟩
      · exact ⟨_, .taken has hbs⟩
      · exact ⟨_, .refusedRest has he⟩
    · exact ⟨_, .refused hfront he _⟩

theorem run_fixed_of_takesIn {i : Intake (Arguments ps)} (h : TakesIn ps args i)
    (f : Function ps α) : (fixed ps f).run args = i.answer f.call := by
  cases h with
  | miscounted h => simp only [fixed, if_neg h, Intake.answer]
  | refused h he =>
    have hfeed := Function.feed_of_refused he f []
    rw [List.append_nil] at hfeed
    simp only [fixed, if_pos h, hfeed, Intake.answer]
  | taken h =>
    have hfeed := Function.feed_of_taken h f []
    rw [List.append_nil] at hfeed
    simp only [fixed, if_pos h.length_eq, hfeed, Intake.answer]

theorem run_variadic_of_takesInRest {i : Intake (Arguments ps × rest.Carrier)}
    (h : TakesInRest ps rest args i) (arity : Arity) (f : Function ps (rest.Carrier → α)) :
    (variadic arity ps rest f).run args = i.answer fun a => f.call a.1 a.2 := by
  have hcount {front : List Value} (hfront : front.length = ps.length) (others : List Value) :
      ¬ (front ++ others).length < ps.length := by
    rw [List.length_append, hfront]
    exact Nat.not_lt.mpr (Nat.le_add_right _ _)
  cases h with
  | miscounted h => simp only [variadic, if_pos h, Intake.answer]
  | refused h he others =>
    simp only [variadic, if_neg (hcount h others), Function.feed_of_refused he, Intake.answer]
  | @refusedRest front others as e h he =>
    simp only [variadic, if_neg (hcount h.length_eq others), Function.feed_of_taken h,
      he.convert_eq, Intake.answer]
  | @taken front others as bs h hs =>
    simp only [variadic, if_neg (hcount h.length_eq others), Function.feed_of_taken h,
      hs.convert_eq, Intake.answer]

/-- A typed procedure, of any parameters and with a rest parameter or without one, counts its
arguments, refuses them for the leftmost that its parameter does not take, and otherwise answers as
its function does on what they are taken for. What refuses them does not depend on the function. -/
theorem typed_procedures_convert_first (ps : List Param) (args : List Value) :
    ((∃ i, TakesIn ps args i) ∧ ∀ i, TakesIn ps args i →
      ∀ (α : Type) [Answer α] (f : Function ps α), (fixed ps f).run args = i.answer f.call) ∧
    ∀ rest : Rest,
      (∃ i, TakesInRest ps rest args i) ∧ ∀ i, TakesInRest ps rest args i →
        ∀ (arity : Arity) (α : Type) [Answer α] (f : Function ps (rest.Carrier → α)),
          (variadic arity ps rest f).run args = i.answer fun a => f.call a.1 a.2 :=
  ⟨⟨exists_takesIn ps args, fun _ h _ _ f => run_fixed_of_takesIn h f⟩, fun rest =>
    ⟨exists_takesInRest ps rest args, fun _ h arity _ _ f => run_variadic_of_takesInRest h arity f⟩⟩

/-- A weight and numbers to sum up: refused for the weight, for the first of two arguments that are
no numbers, and taken; and three floats, one of which is given as an integer. -/
theorem typed_procedures_convert_first_weighted :
    let weighted := variadic .any [.integer] .numbers Host.weightedSum
    let between := fixed [.real, .real, .real] fun x low high : Float => decide (low ≤ x ∧ x ≤ high)
    weighted.run [.float 2.0, .symbol "x"] = .error ((Value.float 2.0).mismatch .integer) ∧
    weighted.run [.int 2, .int 3, .symbol "x", .symbol "y"] =
      .error ((Value.symbol "x").mismatch .number) ∧
    weighted.run [.int 2, .int 3, .float 0.5] =
      Answer.reply (Host.weightedSum 2 [.int 3, .float 0.5]) ∧
    between.run [.int 1, .float 0.5] = .error (.arity (.exactly 3) 2 none) ∧
    between.run [.int 1, .float 0.5, .int 2] =
      Answer.reply (decide ((0.5 : Float) ≤ realOf 1 ∧ realOf 1 ≤ realOf 2)) := by
  intro weighted between
  have hrest (args : List Value) := (typed_procedures_convert_first [.integer] args).2 .numbers
  have hfixed (args : List Value) := (typed_procedures_convert_first [.real, .real, .real] args).1
  have htwo : Taken [.int 2] (@Arguments.cons .integer [] (2 : Int64) .nil) :=
    .cons (.integer 2) .nil
  refine ⟨?_, ?_, ?_, ?_, ?_⟩
  · exact (hrest [.float 2.0, .symbol "x"]).2 _
      (.refused rfl (.here (.integer fun _ h => by cases h) [] []) [.symbol "x"]) _ _ _
  · exact (hrest [.int 2, .int 3, .symbol "x", .symbol "y"]).2 _
      (.refusedRest htwo (.numbers (.behind [.int 3] rfl [.symbol "y"]))) _ _ _
  · exact (hrest [.int 2, .int 3, .float 0.5]).2 _
      (.taken htwo (.numbers [.int 3, .float 0.5])) _ _ _
  · exact (hfixed [.int 1, .float 0.5]).2 _ (.miscounted (by decide)) _ _
  · exact (hfixed [.int 1, .float 0.5, .int 2]).2 _
      (.taken (.cons (.widened 1) (.cons (.real 0.5) (.cons (.widened 2) .nil)))) _ _

end Entry

end MiniLisp
