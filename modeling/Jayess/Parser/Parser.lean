import Jayess.Ast
import Jayess.Lexer.Lexer

/-! # The state of the parser -/

namespace Jayess

inductive ParseError where
  | diagnostic (line column : Nat) (message : String)
  /-- The bound on the nesting of productions is used up; the source has no such error. -/
  | outOfFuel
deriving DecidableEq, Repr

/-- `parser.Parser`, with the Unicode tables its lexer reads from. -/
structure Parser where
  unicode : Unicode
  lexer : Lexer
  previous : Token
  current : Token

abbrev Parse := StateT Parser (Except ParseError)

namespace Parser

/-- The zero value of `lexer.Token`; only the line of the previous token is read before the parser
has advanced. -/
def noToken : Token := ⟨.tokenEOF, "", 0, 0⟩

def new (unicode : Unicode) (input : List Char) : Parser :=
  let (token, lexer) := (Lexer.new input).nextToken unicode
  ⟨unicode, lexer, noToken, token⟩

def advanced (p : Parser) : Parser :=
  let (token, lexer) := p.lexer.nextToken p.unicode
  { p with lexer, previous := p.current, current := token }

def advance : Parse Unit := modify advanced

def currentToken : Parse Token := do return (← get).current

def currentType : Parse TokenType := do return (← get).current.type

/-- `match`. -/
def matchToken (tokenType : TokenType) : Parse Bool := do
  if (← currentType) ≠ tokenType then return false
  advance
  return true

def errorAtPosition {α : Type} (pos : SourcePos) (message : String) : Parse α :=
  throw (.diagnostic pos.line pos.column message)

def errorAtToken {α : Type} (token : Token) (message : String) : Parse α :=
  throw (.diagnostic token.line token.column
    (if token.type = .tokenIllegal then token.literal else message))

def errorAtCurrent {α : Type} (message : String) : Parse α := do
  errorAtToken (← currentToken) message

def expect (tokenType : TokenType) : Parse Unit := do
  let current ← currentType
  if current ≠ tokenType then
    if current = .tokenEOF then
      errorAtCurrent ("expected " ++ tokenType.text ++ " before end of file")
    errorAtCurrent ("expected " ++ tokenType.text ++ ", got " ++ current.text)
  advance

/-- A check between `snapshot` and `restore`: it answers no where the source returns early on an
error. -/
def lookahead (check : Parse Bool) : Parse Bool := fun p =>
  match check p with
  | .ok (answer, _) => .ok (answer, p)
  | .error .outOfFuel => .error .outOfFuel
  | .error _ => .ok (false, p)

def baseFrom (token : Token) : SourcePos := ⟨token.line, token.column⟩

def hasLineTerminator (p : Parser) : Bool :=
  p.previous.line > 0 && p.current.line > p.previous.line

def hasLineTerminatorBeforeCurrent : Parse Bool := do return (← get).hasLineTerminator

end Parser

end Jayess
