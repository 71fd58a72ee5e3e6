import MiniLisp.Expr
import MiniLisp.Text

/-!
# Reading expressions

A source text is cut into parentheses, each a token of its own, and words: maximal runs of
characters that are neither blank nor parentheses. `Expr.parse` reads the first expression of a
text. The lists that are still open are kept innermost first, so that their number is the nesting
depth of the next token.
-/

namespace MiniLisp

inductive Token where
  | opening
  | closing
  | word (text : String)
  deriving DecidableEq, Repr

namespace Token

def text : Token → String
  | opening => "("
  | closing => ")"
  | word text => text

/-- The token of a word whose letters were met in the order opposite to `letters`. -/
def ofLetters : List Char → List Token
  | [] => []
  | letters => [word (String.ofList letters.reverse)]

/-- Scans on with the letters of an unfinished word, the last one first. -/
def scanFrom (letters : List Char) : List Char → List Token
  | [] => ofLetters letters
  | c :: rest =>
    if isBlank c then ofLetters letters ++ scanFrom [] rest
    else if c = '(' then ofLetters letters ++ opening :: scanFrom [] rest
    else if c = ')' then ofLetters letters ++ closing :: scanFrom [] rest
    else scanFrom (c :: letters) rest

def scan (source : String) : List Token := scanFrom [] source.toList

end Token

/-- The deepest nesting at which a token may still start an expression is one below this. -/
def nestingLimit : Nat := 128

/-- Why a text is no expression. -/
inductive Malformed where
  | unexpectedEnd
  | unexpectedClosing
  | trailingContent
  | tooDeeplyNested
  deriving DecidableEq, Repr

def Malformed.message : Malformed → String
  | unexpectedEnd => "unexpected end of input"
  | unexpectedClosing => "unexpected close-parenthesis"
  | trailingContent => "unexpected trailing input"
  | tooDeeplyNested => "expression too deeply nested"

/-- A failed reading: its kind, and the offending token with its index, unless the text ended. -/
structure ParseError where
  kind : Malformed
  found : Option (Token × Nat)
  deriving DecidableEq, Repr

def ParseError.message (e : ParseError) : String :=
  match e.found with
  | none => e.kind.message
  | some (token, position) =>
    s!"{e.kind.message}\nFound: {token.text} (token {position})"

namespace Expr

/-- An expression, with the index of the first token after it and those tokens. -/
abbrev Parsed := Expr × Nat × List Token

/-- Reads on inside the lists `pending`, whose items so far stand in reverse order. -/
def parseTokens (pending : List (List Expr)) (position : Nat) :
    List Token → Except ParseError Parsed
  | [] => .error ⟨.unexpectedEnd, none⟩
  | .closing :: rest =>
    match pending with
    | [] => .error ⟨.unexpectedClosing, some (.closing, position)⟩
    | [items] => .ok (.list items.reverse, position + 1, rest)
    | items :: outer :: others =>
      parseTokens ((.list items.reverse :: outer) :: others) (position + 1) rest
  | .opening :: rest =>
    if nestingLimit ≤ pending.length then
      .error ⟨.tooDeeplyNested, some (.opening, position)⟩
    else parseTokens ([] :: pending) (position + 1) rest
  | .word text :: rest =>
    if nestingLimit ≤ pending.length then
      .error ⟨.tooDeeplyNested, some (.word text, position)⟩
    else
      match pending with
      | [] => .ok (ofWord text, position + 1, rest)
      | items :: outer => parseTokens ((ofWord text :: items) :: outer) (position + 1) rest

/-- What is made of a reading: the tokens that are left are ignored unless it is `strict`. -/
def conclude (strict : Bool) : Except ParseError Parsed → Except ParseError Expr
  | .error e => .error e
  | .ok (e, position, extra :: _) =>
    if strict then .error ⟨.trailingContent, some (extra, position)⟩ else .ok e
  | .ok (e, _, []) => .ok e

/-- Reads the first expression of a sequence of tokens. -/
def ofTokens (tokens : List Token) (strict : Bool) : Except ParseError Expr :=
  conclude strict (parseTokens [] 0 tokens)

/-- Reads the first expression of a text. -/
def parse (source : String) (strict : Bool) : Except ParseError Expr :=
  ofTokens (Token.scan source) strict

end Expr

end MiniLisp
