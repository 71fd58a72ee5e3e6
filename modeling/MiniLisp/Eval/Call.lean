import MiniLisp.Builtin.Registry
import MiniLisp.Eval
import MiniLisp.Eval.Form

/-!
# Calls

Evaluation goes back and forth between three kinds of calls: evaluating an expression in a frame,
applying a procedure to arguments, and running `apply` or `map`. `Call.body` says what each kind
does, given how the calls inside it run; it holds no recursion of its own. Each call has a depth,
and expressions at depth `evalLimit` are refused, so that runaway recursion ends.
-/

namespace MiniLisp

inductive Call where
  | eval (e : Expr) (f : FrameId) (depth : Nat)
  | apply (p : Value) (args : List Value) (depth : Nat)
  | higher (h : Higher) (args : List Value) (depth : Nat)

namespace Call

/-- Operands are evaluated from left to right; the first error ends them. -/
def args (recur : Call → Eval Value) (f : FrameId) (depth : Nat) (operands : List Expr) :
    Eval (List Value) :=
  operands.mapM fun e => recur (.eval e f depth)

def form (recur : Call → Eval Value) (f : FrameId) (depth : Nat) : Form → Eval Value
  | .quote datum => .make (.ofExpr datum)
  | .cond test yes no => do
    let v ← recur (.eval test f (depth + 1))
    recur (.eval (if v.isTruthy then yes else no) f (depth + 1))
  | .define name value => do
    let v ← recur (.eval value f (depth + 1))
    Eval.define f name v
    return .unspecified
  | .assign name value => do
    let v ← recur (.eval value f (depth + 1))
    Eval.assign f name v
    return .unspecified
  | .lambda params body => .close params body f
  | .call head operands => do
    let p ← recur (.eval head f (depth + 1))
    let vs ← args recur f (depth + 1) operands
    recur (.apply p vs depth)

def expr (recur : Call → Eval Value) (f : FrameId) (depth : Nat) : Expr → Eval Value
  | .int n => pure (.int n)
  | .float x => pure (.float x)
  | .symbol name => .lookup f name
  | .list items =>
    Eval.inForm (.list items) <|
      match Form.ofList items with
      | .error e => .fail e
      | .ok whole => form recur f depth whole

/-- A closure evaluates its body in a new frame inside its own, with the arguments bound to its
parameters. -/
def applyTo (recur : Call → Eval Value) (args : List Value) (depth : Nat) : Value → Eval Value
  | .builtin b =>
    if b.arity.accepts args.length then
      match b.operation with
      | .primitive p => .accept (p.entry.run args)
      | .host index => do
        let run ← Eval.host index
        .accept (run args)
      | .higher h => recur (.higher h args (depth + 1))
    else .fail (.arity b.arity args.length none)
  | .closure c =>
    if c.params.length = args.length then do
      let f ← Eval.enter c.frame (c.params.zip args)
      recur (.eval c.body f (depth + 1))
    else .fail (.arity (.exactly c.params.length) args.length none)
  | v => .fail (.type (.notProcedure v.shown) none)

/-- The lists that `map` runs along. -/
def listsOf (vs : List Value) : Except Error (List (List Value)) :=
  vs.mapM fun
    | .list _ items => .ok items
    | v => .error (.type (.mapList v.typeName) none)

/-- How many calls `map` makes: as many as the shortest list has elements. -/
def shortest (lists : List (List Value)) : Nat := (lists.map List.length).min?.getD 0

/-- The arguments of the call number `i` of `map`, one from each of the lists. -/
def row (lists : List (Array Value)) (i : Nat) : Except Error (List Value) :=
  match lists.mapM fun items : Array Value => items[i]? with
  | some vs => .ok vs
  | none => .error (.internal .elementOutOfRange)

def mapOver (recur : Call → Eval Value) (depth : Nat) (p : Value) (lists : List (List Value)) :
    Eval (List Value) :=
  let indexed := lists.map List.toArray
  (List.range (shortest lists)).mapM fun i =>
    match row indexed i with
    | .error e => .fail e
    | .ok vs => recur (.apply p vs depth)

def higherBody (recur : Call → Eval Value) (depth : Nat) : Higher → List Value → Eval Value
  | .apply, [p, .list _ items] => recur (.apply p items depth)
  | .apply, [_, v] => .fail (.type (.applyArguments v.typeName) none)
  | .apply, args => .fail (.arity (.exactly 2) args.length none)
  | .map, [] => .fail (.arity (.atLeast 2) 0 none)
  | .map, p :: vs =>
    if p.isProcedure then
      match listsOf vs with
      | .error e => .fail e
      | .ok lists => do
        let results ← mapOver recur depth p lists
        .make (.ofList results)
    else .fail (.type (.mapProcedure p.typeName) none)

/-- What a call does, where `recur` runs the calls inside it. -/
def body (recur : Call → Eval Value) : Call → Eval Value
  | .eval e f depth =>
    if evalLimit ≤ depth then .fail (.eval .depthLimit none) else expr recur f depth e
  | .apply p args depth => applyTo recur args depth p
  | .higher h args depth => higherBody recur depth h args

/-- Runs a call whose calls are nested less than `fuel` deep. -/
def run : Nat → Call → Eval Value
  | 0, _ => fun _ => none
  | fuel + 1, c => c.body (run fuel)

end Call

end MiniLisp
