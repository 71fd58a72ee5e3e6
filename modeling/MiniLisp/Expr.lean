import MiniLisp.Decimal.Layout
import MiniLisp.Decimal.Literal

/-!
# Expressions

What the reader produces and the evaluator consumes: numbers, symbols and lists of expressions.
`Expr.text` writes an expression so that reading it gives the expression back.
-/

namespace MiniLisp

inductive Expr where
  | int (n : Int64)
  | float (x : Float)
  | symbol (name : String)
  | list (items : List Expr)
  deriving Inhabited

namespace Expr

/-- The atom that a word stands for: an integer if it can be one, else a float, else a symbol. -/
def ofWord (word : String) : Expr :=
  match Decimal.int? word.toList with
  | some n => int n
  | none =>
    match Decimal.float? word.toList with
    | some x => float x
    | none => symbol word

mutual

def text : Expr → String
  | int n => toString n.toInt
  | float x => Decimal.Layout.value.text x
  | symbol name => name
  | list items => "(" ++ " ".intercalate (texts items) ++ ")"

def texts : List Expr → List String
  | [] => []
  | e :: rest => text e :: texts rest

end

@[simp] theorem texts_eq_map (items : List Expr) : texts items = items.map text := by
  induction items with
  | nil => rfl
  | cons e rest ih => simp [texts, ih]

/-- The name of a symbol; other expressions have none. -/
def symbol? : Expr → Option String
  | symbol name => some name
  | _ => none

end Expr

end MiniLisp
