import MiniLisp.Number
import MiniLisp.Primitive

/-!
# Values

What evaluation produces. Lists and closures carry the identity that they got when they were made,
which is what `eq?` compares; everything else a value is made of is in the value. A closure refers
to the frame it was made in by number, so that values are finite however the frames refer to each
other.
-/

namespace MiniLisp

abbrev FrameId := Nat

/-- What a builtin procedure runs: a primitive, a host function by its number, or `apply` and
`map`. -/
inductive Operation where
  | primitive (p : Primitive)
  | host (index : Nat)
  | higher (h : Higher)
  deriving DecidableEq, Repr

/-- Builtin procedures are told apart by their names alone. -/
structure Builtin where
  id : String
  arity : Arity
  operation : Operation
  deriving DecidableEq

structure Closure where
  id : Nat
  params : List String
  body : Expr
  frame : FrameId

inductive Value where
  | int (n : Int64)
  | float (x : Float)
  | symbol (name : String)
  | bool (b : Bool)
  | list (id : Nat) (items : List Value)
  | builtin (b : Builtin)
  | closure (c : Closure)
  | unspecified
  deriving Inhabited

namespace Value

def ofNumber : Number → Value
  | .int n => int n
  | .float x => float x

def number? : Value → Option Number
  | int n => some (.int n)
  | float x => some (.float x)
  | _ => none

def isNil : Value → Bool
  | list _ [] => true
  | _ => false

/-- Everything except false and the empty list counts as true. -/
def isTruthy : Value → Bool
  | bool false => false
  | v => !v.isNil

def isProcedure : Value → Bool
  | builtin _ => true
  | closure _ => true
  | _ => false

def typeName : Value → String
  | int _ => "integer"
  | float _ => "float"
  | symbol _ => "symbol"
  | bool _ => "boolean"
  | list _ _ => "list"
  | builtin _ => "procedure"
  | closure _ => "procedure"
  | unspecified => "unspecified"

mutual

def text : Value → String
  | int n => toString n.toInt
  | float x => Decimal.Layout.value.text x
  | symbol name => name
  | bool b => if b then "#t" else "#f"
  | list _ items => "(" ++ " ".intercalate (texts items) ++ ")"
  | builtin b => "#<builtin-function:" ++ b.id ++ ">"
  | closure _ => "#<procedure>"
  | unspecified => "#<unspecified>"

def texts : List Value → List String
  | [] => []
  | v :: rest => text v :: texts rest

end

@[simp] theorem texts_eq_map (items : List Value) : texts items = items.map text := by
  induction items with
  | nil => rfl
  | cons v rest ih => simp [texts, ih]

@[simp] theorem text_int (n : Int64) : (int n).text = toString n.toInt := rfl

@[simp] theorem text_float (x : Float) : (float x).text = Decimal.Layout.value.text x := rfl

@[simp] theorem text_symbol (name : String) : (symbol name).text = name := rfl

@[simp] theorem text_list (id : Nat) (items : List Value) :
    (list id items).text = "(" ++ " ".intercalate (items.map text) ++ ")" := by
  rw [← texts_eq_map]
  rfl

@[simp] theorem text_builtin (b : Builtin) :
    (builtin b).text = "#<builtin-function:" ++ b.id ++ ">" := rfl

/-- What holds of a value that is no list, and of a list if it holds of its items, holds of all
values. -/
@[elab_as_elim]
theorem items_induction {motive : Value → Prop}
    (atom : ∀ v, (∀ id items, v ≠ .list id items) → motive v)
    (list : ∀ id items, (∀ v ∈ items, motive v) → motive (.list id items)) (v : Value) :
    motive v := by
  refine @Value.rec motive (fun items => ∀ v ∈ items, motive v) (fun n => atom _ nofun)
    (fun x => atom _ nofun) (fun name => atom _ nofun) (fun b => atom _ nofun) list
    (fun b => atom _ nofun) (fun c => atom _ nofun) (atom _ nofun) ?_ ?_ v
  · exact fun _ hv => by cases hv
  · intro head rest hhead hrest v hv
    rcases List.mem_cons.mp hv with rfl | hv
    · exact hhead
    · exact hrest v hv

/-- What an error says of a value. -/
def shown (v : Value) : Shown := ⟨v.typeName, v.text⟩

end Value

end MiniLisp
