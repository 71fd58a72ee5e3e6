import MiniLisp.Builtin.Lists
import MiniLisp.Number.Elementary

/-!
# Registry of builtin procedures

`Primitive.entry` says of every primitive how many arguments it is declared to take and what it
does; `Frame.standard` binds them all, with `apply`, `map` and three constants.
-/

namespace MiniLisp

namespace Primitive

def entry : Primitive → Entry
  | add => .fixed [.number, .number] Number.add
  | sub => .fixed [.number, .number] Number.sub
  | mul => .fixed [.number, .number] Number.mul
  | div => .fixed [.number, .number] Number.div
  | abs => .fixed [.number] Number.abs
  | expt => .fixed [.real, .real] Dyadic.pow.run
  | extremum e => .variadic (.atLeast 1) [] .values (Builtin.extremum e)
  | round => .variadic (.between 1 2) [.number] .numbers Builtin.round
  | compare c => .fixed [.number, .number] (Number.stands c.orders)
  | numericEqual => .fixed [.value, .value] Value.equal
  | equal => .fixed [.value, .value] Value.equal
  | identical => .fixed [.value, .value] Value.identical
  | car => .fixed [.list] Builtin.car
  | cdr => .fixed [.list] Builtin.cdr
  | cons => .fixed [.value, .value] Builtin.cons
  | list => .variadic .any [] .values Draft.ofList
  | length => .fixed [.list] fun items : List Value => Int64.ofNat items.length
  | test t => .fixed [.value] (Builtin.test t)
  | sequence => .variadic (.atLeast 1) [] .values Builtin.sequence
  | print => .variadic .any [] .values Builtin.print
  | elementary f => .fixed [.real] f.run
  | log => .variadic (.between 1 2) [.real] .numbers logarithm
  | toInteger r => .fixed [.number] r.run
  | dyadic f => .fixed [.real, .real] f.run
  | copysign => .fixed [.real, .real] Real.copySign
  | factorial => .fixed [.integer] MiniLisp.factorial
  | gcd => .fixed [.integer, .integer] MiniLisp.gcd
  | classify c => .fixed [.real] c.holds

/-- The primitive as a value. -/
def builtin (p : Primitive) : Builtin := ⟨p.name, p.entry.arity, .primitive p⟩

end Primitive

namespace Higher

def arity : Higher → Arity
  | apply => .exactly 2
  | map => .atLeast 2

def builtin (h : Higher) : Builtin := ⟨h.name, h.arity, .higher h⟩

end Higher

/-- All procedures of the language. -/
def builtins : List Builtin := Primitive.all.map Primitive.builtin ++ Higher.all.map Higher.builtin

def builtin? (name : String) : Option Builtin := builtins.find? (·.id == name)

def constants : List (String × Float) := [("pi", Real.pi), ("e", Real.e), ("tau", Real.tau)]

def constant? (name : String) : Option Float := constants.lookup name

/-- A root frame that holds the procedures and the constants of the language. -/
def Frame.standard : Frame where
  bindings := Std.TreeMap.ofList <|
    builtins.map (fun b => (b.id, Value.builtin b)) ++
    constants.map fun c => (c.1, Value.float c.2)
  outer := none

end MiniLisp
