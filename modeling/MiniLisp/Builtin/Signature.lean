import MiniLisp.State

/-!
# Typed procedures

A function of typed arguments becomes a procedure on values: the arguments are counted, converted
from left to right, and handed over only when all of them fit. A procedure with a rest parameter
takes all further arguments as one list, converted last.
-/

namespace MiniLisp

/-- The types that one argument may be asked to have. -/
inductive Param where
  | value
  | number
  | integer
  | real
  | list
  | numbers
  deriving DecidableEq, Repr

/-- The types that the remaining arguments may be asked to have. -/
inductive Rest where
  | values
  | numbers
  deriving DecidableEq, Repr

/-- The error of a value that does not fit. -/
def Value.mismatch (v : Value) (wanted : Wanted) : Error := .type (.expected wanted v.shown) none

def Value.toNumber (v : Value) : Except Error Number :=
  match v.number? with
  | some n => .ok n
  | none => .error (v.mismatch .number)

/-- Refuses values of which some is no number; the first such value is the error. -/
def requireNumbers (vs : List Value) : Except Error Unit :=
  match vs.find? fun v => v.number?.isNone with
  | some v => .error (v.mismatch .number)
  | none => .ok ()

/-- A value that was found to be a number. -/
def Value.project (v : Value) : Except Error Number :=
  match v.number? with
  | some n => .ok n
  | none => .error (.internal .elementNotNumber)

/-- Every value as a number. All of them are looked at before the first is taken over. -/
def numbersOf (vs : List Value) : Except Error (List Number) := do
  requireNumbers vs
  vs.mapM Value.project

/-- Looking at all values first comes to the same as converting them one by one: the first that is
no number is the error. -/
theorem numbersOf_eq_mapM (vs : List Value) : numbersOf vs = vs.mapM Value.toNumber := by
  induction vs with
  | nil => rfl
  | cons v vs ih =>
    rw [List.mapM_cons, ← ih]
    cases hv : v.number? with
    | none =>
      simp only [numbersOf, requireNumbers, List.find?_cons, hv, Value.toNumber]
      rfl
    | some n =>
      have hrest : requireNumbers (v :: vs) = requireNumbers vs := by
        simp only [requireNumbers, List.find?_cons, hv, Option.isNone_some]
      simp only [numbersOf, hrest, Value.toNumber, hv, List.mapM_cons, Value.project]
      cases requireNumbers vs with
      | error e => rfl
      | ok => rfl

namespace Param

def Carrier : Param → Type
  | value => Value
  | number => Number
  | integer => Int64
  | real => Float
  | list => List Value
  | numbers => List Number

/-- Integers widen where a float is asked for; there are no other conversions between types. -/
def convert : (p : Param) → Value → Except Error p.Carrier
  | value, v => .ok v
  | number, v => v.toNumber
  | integer, .int n => .ok n
  | integer, v => .error (v.mismatch .integer)
  | real, v => v.toNumber.map Number.toReal
  | list, .list _ items => .ok items
  | list, v => .error (v.mismatch .list)
  | numbers, .list _ items => numbersOf items
  | numbers, v => .error (v.mismatch .list)

end Param

namespace Rest

def Carrier : Rest → Type
  | values => List Value
  | numbers => List Number

def convert : (r : Rest) → List Value → Except Error r.Carrier
  | values, vs => .ok vs
  | numbers, vs => numbersOf vs

end Rest

/-- Functions of arguments of the given types. -/
def Function : List Param → Type → Type
  | [], α => α
  | p :: ps, α => p.Carrier → Function ps α

/-- Hands converted arguments to `f`, and gives back the arguments that are left. -/
def Function.feed {α : Type} :
    (ps : List Param) → Function ps α → List Value → Except Error (α × List Value)
  | [], f, vs => .ok (f, vs)
  | p :: ps, f, v :: vs =>
    match p.convert v with
    | .error e => .error e
    | .ok a => feed ps (f a) vs
  | _ :: _, _, [] => .error (.internal .argumentMissing)

/-- What a function may answer in order to become a procedure. -/
class Answer (α : Type) where
  reply : α → Except Error Reply

namespace Answer

instance : Answer Reply := ⟨.ok⟩
instance : Answer Draft := ⟨fun d => .ok ⟨d, ""⟩⟩
instance : Answer Value := ⟨fun v => .ok ⟨.value v, ""⟩⟩
instance : Answer Number := ⟨fun n => .ok ⟨.value (.ofNumber n), ""⟩⟩
instance : Answer Int64 := ⟨fun n => .ok ⟨.value (.int n), ""⟩⟩
instance : Answer Float := ⟨fun x => .ok ⟨.value (.float x), ""⟩⟩
instance : Answer Bool := ⟨fun b => .ok ⟨.value (.bool b), ""⟩⟩

instance {α : Type} [Answer α] : Answer (Except Error α) where
  reply
    | .error e => .error e
    | .ok a => reply a

end Answer

/-- A procedure as it is registered: the counts it is declared to take, and what it does with the
arguments, which counts them itself as far as it must. -/
structure Entry where
  arity : Arity
  run : HostFunction

namespace Entry

variable {α : Type} [Answer α]

/-- A procedure of exactly the arguments `ps`. -/
def fixed (ps : List Param) (f : Function ps α) : Entry where
  arity := .exactly ps.length
  run args :=
    if args.length = ps.length then
      match Function.feed ps f args with
      | .error e => .error e
      | .ok (a, _) => Answer.reply a
    else .error (.arity (.exactly ps.length) args.length none)

/-- A procedure of the arguments `ps` and any further ones that the declared arity lets through. -/
def variadic (arity : Arity) (ps : List Param) (rest : Rest)
    (f : Function ps (rest.Carrier → α)) : Entry where
  arity := arity
  run args :=
    if args.length < ps.length then
      .error (.arity (.atLeast ps.length) args.length none)
    else
      match Function.feed ps f args with
      | .error e => .error e
      | .ok (g, others) =>
        match rest.convert others with
        | .error e => .error e
        | .ok remaining => Answer.reply (g remaining)

/-- A procedure that sees its arguments as they are. -/
def raw (arity : Arity) (run : HostFunction) : Entry := ⟨arity, run⟩

end Entry

end MiniLisp
