import MiniLisp.Builtin.Signature
import MiniLisp.Number.Integer
import MiniLisp.Number.Real
import MiniLisp.Value.Equality

/-!
# Procedures on lists and on values of any type
-/

namespace MiniLisp

/-- The answer of a procedure that is called for its effect. -/
def nothing : Reply := ⟨.value .unspecified, ""⟩

namespace Builtin

def car : List Value → Except Error Value
  | [] => .error (.index (.emptyList "car"))
  | v :: _ => .ok v

def cdr : List Value → Except Error Draft
  | [] => .error (.index (.emptyList "cdr"))
  | _ :: rest => .ok (.ofList rest)

def cons (v : Value) : Value → Except Error Draft
  | .list _ items => .ok (.ofList (v :: items))
  | other => .error (.type (.consTail other.typeName) none)

/-- The last of the arguments, all of which were evaluated in order. -/
def sequence (args : List Value) : Except Error Value :=
  match args.getLast? with
  | none => .error (.arity (.atLeast 1) 0 none)
  | some v => .ok v

def print (args : List Value) : Reply :=
  { nothing with printed := " ".intercalate (args.map Value.text) ++ "\n" }

/-- What `min` and `max` choose from: the elements of a single list, or all of several
arguments. -/
def candidates (e : Extremum) : List Value → Except Error (List Value)
  | [.list _ items] => .ok items
  | [single] => .error (.type (.extremum e.name single.shown) none)
  | args => .ok args

/-- The best of the candidates, `best` being the best of those before them. A candidate replaces
the best one only if it is strictly better; NaN is never better. -/
def bestFrom (e : Extremum) (best : Value × Number) : List Value → Except Error Value
  | [] => .ok best.1
  | v :: rest =>
    match v.toNumber with
    | .error err => .error err
    | .ok n =>
      if n.order best.2 = some e.better then bestFrom e (v, n) rest else bestFrom e best rest

def extremum (e : Extremum) (args : List Value) : Except Error Value :=
  match candidates e args with
  | .error err => .error err
  | .ok [] => .error (.index (.emptySequence e.name))
  | .ok (v :: rest) =>
    match v.toNumber with
    | .error err => .error err
    | .ok n => bestFrom e (v, n) rest

def test : Test → Value → Bool
  | .number, v => v.number?.isSome
  | .symbol, .symbol _ => true
  | .symbol, _ => false
  | .list, .list _ _ => true
  | .list, _ => false
  | .procedure, v => v.isProcedure
  | .null, v => v.isNil
  | .not, v => !v.isTruthy

/-- Rounds to a whole number, or to as many decimal places as the first of `digits` says; only the
second way keeps floats floats. -/
def round : Number → List Number → Except Error Number
  | .int n, [] => .ok (.int n)
  | .float x, [] => (Real.toInteger "round" (Real.roundHalfEven x)).map .int
  | .int n, .int digits :: _ => (roundWord n digits).map .int
  | .float x, .int digits :: _ => .ok (.float (Real.roundTo x digits))
  | _, .float _ :: _ => .error (.type .digitCount none)

end Builtin

end MiniLisp
