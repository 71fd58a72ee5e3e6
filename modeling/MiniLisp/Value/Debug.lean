import MiniLisp.Text.Quoted
import MiniLisp.Value

/-!
# Diagnostic texts of values

The diagnostic text of a value names its type along with its contents. A closure shows its
parameters and its body but not its frame, in which it may itself be bound.
-/

namespace MiniLisp

def Closure.debug (c : Closure) : String :=
  "Procedure \x7b params: " ++ quotedList c.params ++ ", body: " ++ c.body.text ++ ", .. \x7d"

namespace Value

mutual

def debug : Value → String
  | int n => "Integer(" ++ toString n.toInt ++ ")"
  | float x => "Float(" ++ Decimal.Layout.debug.text x ++ ")"
  | symbol name => "Symbol(" ++ name ++ ")"
  | bool b => if b then "Bool(true)" else "Bool(false)"
  | list _ items => "List(" ++ ", ".intercalate (debugs items) ++ ")"
  | builtin b => "BuiltinFunction(" ++ b.id ++ ")"
  | closure c => c.debug
  | unspecified => "Unspecified"

def debugs : List Value → List String
  | [] => []
  | v :: rest => debug v :: debugs rest

end

end Value

end MiniLisp
