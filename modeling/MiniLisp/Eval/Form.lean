import MiniLisp.Error

/-!
# Forms

A list is evaluated by what it is: one of five special forms, told by the keyword at its head before
any name is looked up, or a call. `Form.ofList` says which, or why the list is none of them.
-/

namespace MiniLisp

inductive Keyword where
  | quote | cond | define | assign | lambda
  deriving DecidableEq, Repr

namespace Keyword

def ofName? : String → Option Keyword
  | "quote" => some quote
  | "if" => some cond
  | "define" => some define
  | "set!" => some assign
  | "lambda" => some lambda
  | _ => none

/-- How many operands follow the keyword. -/
def operands : Keyword → Nat
  | quote => 1
  | cond => 3
  | define => 2
  | assign => 2
  | lambda => 2

end Keyword

inductive Form where
  | quote (datum : Expr)
  | cond (test yes no : Expr)
  | define (name : String) (value : Expr)
  | assign (name : String) (value : Expr)
  | lambda (params : List String) (body : Expr)
  | call (head : Expr) (operands : List Expr)

namespace Form

/-- The names in a parameter list, none of which may be in `seen` or occur twice. -/
def paramsFrom (seen : List String) : List Expr → Except Error (List String)
  | [] => .ok []
  | e :: rest =>
    match e.symbol? with
    | none => .error (.type (.parameterNotSymbol e.text) none)
    | some name =>
      if name ∈ seen then .error (.eval (.duplicateParameter name) none)
      else (paramsFrom (name :: seen) rest).map (name :: ·)

/-- The parameters of a procedure: a list of distinct symbols. -/
def params : Expr → Except Error (List String)
  | .list items => paramsFrom [] items
  | _ => .error (.type .parametersNotList none)

/-- The name that a `define` or `set!` is about. -/
def target (keyword : String) (e : Expr) : Except Error String :=
  match e.symbol? with
  | some name => .ok name
  | none => .error (.type (.targetNotSymbol keyword e.text) none)

def ofList : List Expr → Except Error Form
  | [] => .error (.eval .emptyList none)
  | head :: operands =>
    match head.symbol?.bind Keyword.ofName? with
    | none => .ok (call head operands)
    | some keyword =>
      match keyword, operands with
      | .quote, [datum] => .ok (quote datum)
      | .cond, [test, yes, no] => .ok (cond test yes no)
      | .define, [e, value] => (target "define" e).map (define · value)
      | .assign, [e, value] => (target "set!" e).map (assign · value)
      | .lambda, [e, body] => (params e).map (lambda · body)
      | _, _ =>
        .error (.arity (.exactly keyword.operands) operands.length
          (some (Expr.list (head :: operands)).text))

end Form

end MiniLisp
