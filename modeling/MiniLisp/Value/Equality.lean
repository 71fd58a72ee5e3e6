import MiniLisp.Value

/-!
# Equality of values

`Value.identical` answers `eq?`: numbers by type and value, all empty lists the same, other lists
and closures by the identity they were made with. `Value.equal` answers `equal?` and `=`: numbers by
value across integers and floats, lists element by element. Nothing equals the unspecified value,
not even itself.
-/

namespace MiniLisp.Value

/-- Floats are identical when they have the same bits: `0.0` and `-0.0` are not, NaN is. There is a
single NaN among the floats, without a sign or other contents, so that `nan` and `-nan` are read as
one value and `(eq? nan -nan)` holds. -/
def identical : Value → Value → Bool
  | int m, int n => m == n
  | float x, float y => x.toBits == y.toBits
  | symbol a, symbol b => a == b
  | bool a, bool b => a == b
  | list i xs, list j ys => (xs.isEmpty && ys.isEmpty) || i == j
  | builtin a, builtin b => a.id == b.id
  | closure c, closure d => c.id == d.id
  | _, _ => false

mutual

def equal : Value → Value → Bool
  | int m, int n => m == n
  | float x, float y => x == y
  | int m, float y => realOf m == y
  | float x, int n => realOf n == x
  | symbol a, symbol b => a == b
  | bool a, bool b => a == b
  | list _ xs, list _ ys => equalAll xs ys
  | builtin a, builtin b => a.id == b.id
  | closure c, closure d => c.id == d.id
  | _, _ => false

def equalAll : List Value → List Value → Bool
  | [], [] => true
  | v :: vs, w :: ws => equal v w && equalAll vs ws
  | _, _ => false

end

end MiniLisp.Value
