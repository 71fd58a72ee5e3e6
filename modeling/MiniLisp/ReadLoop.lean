import MiniLisp.Builtin.Signature
import MiniLisp.Eval.Outcome
import MiniLisp.Text.Edited

/-!
# The read loop

Lines are evaluated one after the other in one standard frame, and what they evaluate to is printed.
A line that is one of four commands, which start with a colon, is not evaluated. No line that can
be read ends the loop, but for the two commands to leave, whatever goes wrong in it.

How a typed line is edited before it is taken is left open: the loop works with any `Editor`
(`runWith`), and on the command line with the one of `edited` (`run`).
-/

namespace MiniLisp.ReadLoop

def lines (texts : List String) : String := String.join (texts.map (· ++ "\n"))

def banner : String := lines
  ["stutter - a minimal Lisp interpreter",
   "Enter expressions like: (+ 1 (* 2 3))",
   "Type :help for more commands, or Ctrl+D to exit.",
   ""]

def helpText : String := lines
  ["stutter commands:",
   "  :help      - Show this help message",
   "  :env       - Show current environment bindings",
   "  :quit      - Exit the interpreter",
   "  :exit      - Exit the interpreter",
   "  Ctrl+D     - Exit the interpreter",
   "",
   "Special forms:",
   "  (quote x)  (if test then else)  (define name expr)",
   "  (set! name expr)  (lambda (params...) body)",
   "",
   "Examples:",
   "  (define square (lambda (x) (* x x)))",
   "  (square 12)",
   "  (map square (list 1 2 3))",
   "  (define fact (lambda (n) (if (<= n 1) 1 (* n (fact (- n 1))))))",
   ""]

def farewell : String := "Goodbye!\n"

/-- The procedure that prints the help text. -/
def help : Entry := .fixed [] (⟨.value .unspecified, helpText⟩ : Reply)

/-- The loop before its first line; the frame of all lines is number 0. -/
def start : State := (State.standard.register 0 "help" help.arity help.run).print banner

/-- A name in a column of fifteen characters; longer names are not cut. -/
def cell (name : String) : String :=
  "  " ++ name ++ String.ofList (List.replicate (15 - name.length) ' ')

/-- The names of builtin procedures, four to a row. -/
def rows : List String → List String
  | [] => []
  | a :: b :: c :: d :: rest => String.join ([a, b, c, d].map cell) :: rows rest
  | few => [String.join (few.map cell)]

def isBuiltin : Value → Bool
  | .builtin _ => true
  | _ => false

/-- The listing of everything bound: builtin procedures by name, other values with their text. -/
def listing (bindings : List (String × Value)) : String :=
  if bindings.isEmpty then lines ["Environment is empty."]
  else
    let builtins := (bindings.filter (isBuiltin ·.2)).map (·.1)
    let others := bindings.filter (!isBuiltin ·.2)
    lines <|
      [s!"Environment bindings ({bindings.length} total):", ""] ++
      (if builtins.isEmpty then []
        else s!"Built-in functions ({builtins.length}):" :: rows builtins ++ [""]) ++
      (if others.isEmpty then []
        else s!"User-defined values ({others.length}):" ::
          others.map fun b => s!"  {b.1} = {b.2.text}")

/-- What is printed of the outcome of a line: nothing for the unspecified value. -/
def answer : Except Error Value → String
  | .error e => lines ["Error: " ++ e.message]
  | .ok .unspecified => ""
  | .ok v => lines [v.text]

/-- Takes a line; `none` means to leave the loop. -/
def take (s : State) (line : String) : Option State :=
  let text := trimBlank line
  if text.isEmpty then some s
  else if text = ":help" then some (s.print helpText)
  else if text = ":env" then some (s.print (listing (s.visible 0)))
  else if text = ":quit" ∨ text = ":exit" then none
  else
    let (r, s) := s.evalText 0 text false
    some (s.print (answer r))

/-- How the loop is left: what it printed, and 1 if a line could not be read, otherwise 0. -/
structure Ending where
  output : String
  status : Nat

def leave (s : State) : Ending := ⟨(s.print farewell).output, 0⟩

/-- What remains of a typed line, unless the line cannot be read. -/
abbrev Editor : Type := String → Option String

/-- Reads a line and takes what remains of it. -/
def step (edit : Editor) (s : State) (line : String) : Except Ending State :=
  match edit line with
  | none => .error ⟨s.output, 1⟩
  | some text =>
    match take s text with
    | none => .error (leave s)
    | some s => .ok s

/-- Reads lines until one ends the loop or there are no more. -/
def runFrom (edit : Editor) (s : State) : List String → Ending
  | [] => leave s
  | line :: rest =>
    match step edit s line with
    | .error ending => ending
    | .ok s => runFrom edit s rest

/-- What comes of the loop when it is given these lines. -/
def runWith (edit : Editor) (input : List String) : Ending := runFrom edit start input

/-- What comes of the loop on the command line, where backspaces are the only way to edit. -/
def run (input : List String) : Ending := runWith edited input

end MiniLisp.ReadLoop
