import MiniLisp.Builtin.Lists

/-!
# Host procedures

Procedures that a host program may register, at least one for every kind of signature.
-/

namespace MiniLisp.Host

/-- The sum of numbers as floats, from left to right and starting with zero. -/
def sum (numbers : List Number) : Float := numbers.foldl (fun total n => total + n.toReal) 0

/-- The quotient rounded toward zero. -/
def quotient (a b : Int64) : Except Error Int64 :=
  let undefined : Except Error Int64 := .error (.arithmetic (.stated "division by zero"))
  if b = 0 then undefined
  else
    match int64? (a.toInt.tdiv b.toInt) with
    | some q => .ok q
    | none => undefined

/-- The integers from zero up to below `n`, at most twenty of them. -/
def upTo (n : Int64) : Draft :=
  .ofList ((List.range (min n.toInt 20).toNat).map fun i => .int (Int64.ofNat i))

def byte (n : Int64) : Except Error Int64 :=
  if 0 ≤ n ∧ n ≤ 255 then .ok n else .error (.index (.stated s!"not a byte: {n.toInt}"))

def weightedSum (weight : Int64) (numbers : List Number) : Float := realOf weight * sum numbers

/-- A number, a label and all further values as a list of three. -/
def slot (n : Int64) (label : Value) (rest : List Value) : Draft :=
  .list [.value (.int n), .value label, .ofList rest]

/-- The procedure of a kind that a host program names. -/
def entry? : String → Option Entry
  | "second" => some <| .raw (.exactly 2) fun args =>
      match args with
      | _ :: v :: _ => Answer.reply v
      | _ => .error (.internal .argumentMissing)
  | "first-or-nil" => some <| .raw .any fun args =>
      match args with
      | v :: _ => Answer.reply v
      | [] => Answer.reply (Draft.ofList [])
  | "forty-two" => some <| .fixed [] (42 : Int64)
  | "add2" => some <| .fixed [.integer, .integer] fun a b : Int64 => a + b
  | "safe-div" => some <| .fixed [.integer, .integer] quotient
  | "sum-list" => some <| .fixed [.numbers] sum
  | "reverse" => some <| .fixed [.list] fun items : List Value => Draft.ofList items.reverse
  | "between" => some <| .fixed [.real, .real, .real] fun x low high : Float =>
      decide (low ≤ x ∧ x ≤ high)
  | "number" => some <| .fixed [.number] fun n : Number => n
  | "upto" => some <| .fixed [.integer] upTo
  | "pair" => some <| .fixed [.real, .real] fun a b : Float =>
      Draft.ofList [.float b, .float a]
  | "byte" => some <| .fixed [.integer] byte
  | "weighted-sum" => some <| .variadic (.atLeast 1) [.integer] .numbers weightedSum
  | "weighted-sum-any" => some <| .variadic .any [.integer] .numbers weightedSum
  | "count-args" => some <| .variadic (.between 1 3) [] .values fun args : List Value =>
      Int64.ofNat args.length
  | "slot" => some <| .variadic (.atLeast 2) [.integer, .value] .values slot
  | "slot-any" => some <| .variadic .any [.integer, .value] .values slot
  | _ => none

end MiniLisp.Host
