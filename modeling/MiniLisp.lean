import MiniLisp.Expr.Parse
import MiniLisp.Error
import MiniLisp.Number
import MiniLisp.Primitive
import MiniLisp.Value
import MiniLisp.Value.Draft
import MiniLisp.Value.Equality
import MiniLisp.Eval
import MiniLisp.Builtin.Signature
import MiniLisp.Number.Elementary
import MiniLisp.Number.Integer
import MiniLisp.Builtin.Lists
import MiniLisp.Builtin.Registry
import MiniLisp.Eval.Call
import MiniLisp.Eval.Plan
import MiniLisp.Eval.Halting
import MiniLisp.Eval.Outcome
import MiniLisp.Text.Quoted
import MiniLisp.Value.Debug
import MiniLisp.Host
import MiniLisp.Session
import MiniLisp.Main
import MiniLisp.Proofs.Expr.Tree
import MiniLisp.Proofs.Expr.Grammar
import MiniLisp.Proofs.Scope.Chain
import MiniLisp.Proofs.Eval.CallTree
import MiniLisp.Proofs.Eval.Termination
import MiniLisp.Proofs.Eval.DepthLimit
import MiniLisp.Proofs.Eval.Nesting
import MiniLisp.Proofs.Decimal.Numeral
import MiniLisp.Proofs.Expr.Occurrence
import MiniLisp.Proofs.Expr.Reread
import MiniLisp.Proofs.Context.Innermost
import MiniLisp.Proofs.Context.Mark
import MiniLisp.Proofs.Scope.Isolation
import MiniLisp.Proofs.Scope.Visible
import MiniLisp.Proofs.Scope.Writes
import MiniLisp.Proofs.Session.Interleaving
import MiniLisp.Proofs.Eval.Primitive
import MiniLisp.Proofs.Number.Exact
import MiniLisp.Proofs.Number.Rounding
import MiniLisp.Proofs.History.Equality
import MiniLisp.Proofs.Builtin.Failures
import MiniLisp.Proofs.Eval.Invariant
import MiniLisp.Proofs.Builtin.Defects
import MiniLisp.Proofs.History.Known
import MiniLisp.Proofs.History.Scopes
import MiniLisp.Proofs.Builtin.Selection
import MiniLisp.Proofs.History.Identity
import MiniLisp.Proofs.History.Session
import MiniLisp.Proofs.Eval.Kind
import MiniLisp.Proofs.History.Offered
import MiniLisp.Proofs.Session.Procedures
import MiniLisp.Proofs.Eval.Output
import MiniLisp.Proofs.ReadLoop.Session
import MiniLisp.Proofs.Likeness.Shift
import MiniLisp.Proofs.Likeness.Besides
import MiniLisp.Proofs.Scope.Unmentioned
import MiniLisp.Proofs.Eval.Closure
import MiniLisp.Proofs.Eval.Sequence
import MiniLisp.Proofs.Eval.Block
import MiniLisp.Proofs.Builtin.Conversion
import MiniLisp.Proofs.Builtin.Extremum
import MiniLisp.Proofs.Expr.Split
import MiniLisp.Proofs.Scope.Kept
import MiniLisp.Proofs.Counters.Counting
import MiniLisp.Proofs.Counters.Turns
import MiniLisp.Proofs.Number.Divisor
import MiniLisp.Proofs.Number.Finite
import MiniLisp.Proofs.Number.Checked
import MiniLisp.Proofs.Eval.ClosureFree
import MiniLisp.Proofs.Number.Quotient
import MiniLisp.Proofs.Number.Operations
import MiniLisp.Proofs.Number.Overflow
import MiniLisp.Proofs.Number.Factorial
