import MiniLisp.Expr.Parse

/-!
# Errors

Every way in which reading or evaluating can fail, as a cause; all wording is in `message`, except
that a host function may word its errors itself (`stated`). Type and evaluation errors also name
the innermost list form that was being evaluated.
-/

namespace MiniLisp

/-- How many arguments a procedure or a special form takes. -/
inductive Arity where
  | exactly (n : Nat)
  | atLeast (n : Nat)
  | between (low high : Nat)
  | any
  deriving DecidableEq, Repr

namespace Arity

def accepts : Arity → Nat → Bool
  | exactly n, count => count == n
  | atLeast n, count => n ≤ count
  | between low high, count => low ≤ count && count ≤ high
  | any, _ => true

def text : Arity → String
  | exactly n => s!"exactly {n}"
  | atLeast n => s!"at least {n}"
  | between low high => s!"between {low} and {high}"
  | any => "any number of"

end Arity

/-- The deepest nesting of evaluations that still proceeds is one below this. -/
def evalLimit : Nat := 1000

/-- What an error says of an offending value: its type and its text. -/
structure Shown where
  type : String
  text : String
  deriving DecidableEq, Repr

/-- What a typed parameter asks for. -/
inductive Wanted where
  | number
  | integer
  | list
  deriving DecidableEq, Repr

def Wanted.text : Wanted → String
  | number => "number"
  | integer => "integer"
  | list => "list"

inductive TypeCause where
  | expected (wanted : Wanted) (got : Shown)
  | notProcedure (got : Shown)
  | targetNotSymbol (keyword target : String)
  | parameterNotSymbol (parameter : String)
  | parametersNotList
  | digitCount
  | extremum (name : String) (got : Shown)
  | consTail (gotType : String)
  | applyArguments (gotType : String)
  | mapProcedure (gotType : String)
  | mapList (gotType : String)
  | stated (message : String)
  deriving DecidableEq, Repr

def TypeCause.message : TypeCause → String
  | expected wanted got => s!"expected {wanted.text}, got {got.type}: {got.text}"
  | notProcedure got => s!"Cannot apply non-procedure: {got.text}"
  | targetNotSymbol keyword target => s!"{keyword} requires a symbol, got {target}"
  | parameterNotSymbol parameter => s!"Lambda parameters must be symbols, got {parameter}"
  | parametersNotList => "Lambda parameters must be a list"
  | digitCount => "round() digit count must be an integer"
  | extremum name got =>
    s!"{name} expects a list or at least two arguments, got {got.type}: {got.text}"
  | consTail gotType => s!"cons requires a list as second argument, got {gotType}"
  | applyArguments gotType => s!"apply requires a list of arguments, got {gotType}"
  | mapProcedure gotType => s!"map requires a procedure, got {gotType}"
  | mapList gotType => s!"map requires list arguments, got {gotType}"
  | stated message => message

inductive IndexCause where
  | emptyList (operation : String)
  | emptySequence (name : String)
  | stated (message : String)
  deriving DecidableEq, Repr

def IndexCause.message : IndexCause → String
  | emptyList operation => s!"{operation} of empty list"
  | emptySequence name => s!"{name}() arg is an empty sequence"
  | stated message => message

inductive ArithmeticCause where
  | overflow (operation : String)
  | divisionByZero
  | domain (name : String)
  | range (name : String)
  | nanToInteger (name : String)
  | outOfIntegerRange (name : String) (x : Float)
  | negativeFactorial
  | stated (message : String)
  deriving DecidableEq

def ArithmeticCause.message : ArithmeticCause → String
  | overflow operation => s!"integer overflow in {operation}"
  | divisionByZero => "division by zero"
  | domain name => s!"math domain error in {name}"
  | range name => s!"math range error in {name}"
  | nanToInteger name => s!"{name}: cannot convert NaN to integer"
  | outOfIntegerRange name x =>
    s!"{name}: {Decimal.Layout.prose.text x} is out of integer range"
  | negativeFactorial => "factorial() not defined for negative values"
  | stated message => message

inductive EvalCause where
  | depthLimit
  | emptyList
  | duplicateParameter (name : String)
  | stated (message : String)
  deriving DecidableEq, Repr

def EvalCause.message : EvalCause → String
  | depthLimit => s!"Evaluation depth limit exceeded (max: {evalLimit})"
  | emptyList => "Cannot evaluate empty list"
  | duplicateParameter name => s!"Duplicate parameter name: {name}"
  | stated message => message

/-- Defects of the interpreter itself, which no program is able to bring about. -/
inductive Defect where
  | wordOverflow
  | zeroDivisor
  | elementOutOfRange
  | elementNotNumber
  | argumentMissing
  | hostMissing
  deriving DecidableEq, Repr

def Defect.message : Defect → String
  | wordOverflow => "intermediate result out of range"
  | zeroDivisor => "division by zero"
  | elementOutOfRange => "element out of range"
  | elementNotNumber => "element not a number after type check"
  | argumentMissing => "argument missing after count check"
  | hostMissing => "host function missing"

inductive Error where
  | malformed (e : ParseError)
  | unbound (name : String)
  | arity (expected : Arity) (got : Nat) (form : Option String)
  | type (cause : TypeCause) (context : Option String)
  | index (cause : IndexCause)
  | arithmetic (cause : ArithmeticCause)
  | eval (cause : EvalCause) (context : Option String)
  | internal (defect : Defect)
  deriving DecidableEq

namespace Error

/-- What separates a message from the form it names. -/
def contextMark : String := "\n  Context: while evaluating: "

/-- The message of a type or evaluation error, with the form that it names. -/
def inContext (message : String) : Option String → String
  | none => message
  | some form => message ++ contextMark ++ form

def message : Error → String
  | malformed e => "SyntaxError: " ++ e.message
  | unbound name => "Unbound symbol: " ++ name
  | arity expected got (some form) =>
    s!"ArityError: {form}: expected {expected.text} arguments, got {got}"
  | arity expected got none => s!"ArityError: expected {expected.text} arguments but got {got}"
  | type cause context => "TypeError: " ++ inContext cause.message context
  | index cause => "IndexError: " ++ cause.message
  | arithmetic cause => "ArithmeticError: " ++ cause.message
  | eval cause context => "EvaluationError: " ++ inContext cause.message context
  | internal defect => "InternalError: " ++ defect.message

/-- A message names a form once it holds the mark, whether put there by `withContext` or as part
of a name that the message quotes. -/
def marked (message : String) : Option String → Bool
  | some _ => true
  | none => occursIn contextMark.toList message.toList

/-- Names `form` as the one being evaluated, in errors that name forms and do not name one yet. -/
def withContext (form : String) : Error → Error
  | type cause context =>
    if marked cause.message context then type cause context else type cause (some form)
  | eval cause context =>
    if marked cause.message context then eval cause context else eval cause (some form)
  | e => e

/-- The error that ends runaway recursion, whichever form it names. -/
def IsDepthLimit : Error → Prop
  | eval .depthLimit _ => True
  | _ => False

@[simp] theorem isDepthLimit_withContext (form : String) (e : Error) :
    (e.withContext form).IsDepthLimit ↔ e.IsDepthLimit := by
  cases e with
  | type cause context => simp only [withContext]; split <;> simp [IsDepthLimit]
  | eval cause context => simp only [withContext]; split <;> cases cause <;> simp [IsDepthLimit]
  | _ => rfl

end Error

end MiniLisp
