import Jayess.Lexer.Token

/-! # The lexer -/

namespace Jayess

/-- What the lexer takes from Go's Unicode tables and from `%q`; of the tables only the ASCII part
is fixed. -/
structure Unicode where
  isLetter : Char → Bool
  isDigit : Char → Bool
  quote : Char → String
  isLetter_ascii : ∀ ch, ch.toNat < 128 → isLetter ch = ch.isAlpha
  isDigit_ascii : ∀ ch, ch.toNat < 128 → isDigit ch = ch.isDigit

def isSpace (ch : Char) : Bool :=
  let code := ch.toNat
  (9 ≤ code && code ≤ 13) || code = 0x20 || code = 0x85 || code = 0xA0 || code = 0x1680 ||
    (0x2000 ≤ code && code ≤ 0x200A) || code = 0x2028 || code = 0x2029 || code = 0x202F ||
    code = 0x205F || code = 0x3000

namespace Unicode

variable (unicode : Unicode)

def isIdentifierStart (ch : Char) : Bool := ch = '_' || ch = '$' || unicode.isLetter ch

def isIdentifierPart (ch : Char) : Bool := unicode.isIdentifierStart ch || unicode.isDigit ch

end Unicode

/-- The rune 0, with which the lexer reads the end of its input. -/
def endRune : Char := '\x00'

structure Lexer where
  input : List Char
  pos : Nat
  line : Nat
  column : Nat

def Lexer.new (input : List Char) : Lexer := ⟨input, 0, 1, 1⟩

namespace Lexer

def current (l : Lexer) : Char := l.input.getD l.pos endRune

def peek (l : Lexer) : Char := l.input.getD (l.pos + 1) endRune

def peekSecond (l : Lexer) : Char := l.input.getD (l.pos + 2) endRune

def peekThird (l : Lexer) : Char := l.input.getD (l.pos + 3) endRune

def advance (l : Lexer) : Lexer :=
  if l.input.length ≤ l.pos then l
  else if l.current = '\n' then { l with pos := l.pos + 1, line := l.line + 1, column := 1 }
  else { l with pos := l.pos + 1, column := l.column + 1 }

def advanceBy (l : Lexer) : Nat → Lexer
  | 0 => l
  | count + 1 => l.advance.advanceBy count

def remaining (l : Lexer) : Nat := l.input.length - l.pos

def textUntil (start l : Lexer) : List Char := (start.input.drop start.pos).take (l.pos - start.pos)

def skipLineCommentLoop : Nat → Lexer → Lexer
  | 0, l => l
  | rounds + 1, l =>
      if l.current ≠ endRune ∧ l.current ≠ '\n' then skipLineCommentLoop rounds l.advance else l

def skipLineComment (l : Lexer) : Lexer := skipLineCommentLoop l.remaining l

def skipBlockCommentLoop : Nat → Lexer → Bool × Lexer
  | 0, l => (false, l)
  | rounds + 1, l =>
      if l.current = endRune then (false, l)
      else if l.current = '*' ∧ l.peek = '/' then (true, l.advance.advance)
      else skipBlockCommentLoop rounds l.advance

def skipBlockComment (l : Lexer) : Bool × Lexer :=
  skipBlockCommentLoop l.advance.advance.remaining l.advance.advance

def skipIgnoredLoop : Nat → Lexer → Option Token × Lexer
  | 0, l => (none, l)
  | rounds + 1, l =>
      if l.current = endRune then (none, l)
      else if l.pos = 0 ∧ l.current = '#' ∧ l.peek = '!' then skipIgnoredLoop rounds l.skipLineComment
      else if isSpace l.current then skipIgnoredLoop rounds l.advance
      else if l.current = '/' ∧ l.peek = '/' then skipIgnoredLoop rounds l.skipLineComment
      else if l.current = '/' ∧ l.peek = '*' then
        match l.skipBlockComment with
        | (true, skipped) => skipIgnoredLoop rounds skipped
        | (false, skipped) =>
            (some ⟨.tokenIllegal, "unterminated block comment", l.line, l.column⟩, skipped)
      else (none, l)

def skipIgnored (l : Lexer) : Option Token × Lexer := skipIgnoredLoop l.remaining l

section Tokens

variable (unicode : Unicode)

def readIdentifierLoop : Nat → Lexer → Lexer
  | 0, l => l
  | rounds + 1, l =>
      if unicode.isIdentifierPart l.current then readIdentifierLoop rounds l.advance else l

def readIdentifier (l : Lexer) : String × Lexer :=
  let stop := readIdentifierLoop unicode l.remaining l
  (String.ofList (l.textUntil stop), stop)

/-- The literal ends before the `n` of a big integer. -/
def readNumberLoop (start : Lexer) : Nat → Bool → Lexer → (String × Bool) × Lexer
  | 0, _, l => ((String.ofList (start.textUntil l), false), l)
  | rounds + 1, dotSeen, l =>
      if unicode.isDigit l.current then readNumberLoop start rounds dotSeen l.advance
      else if l.current = '.' ∧ !dotSeen then readNumberLoop start rounds true l.advance
      else if l.current = 'n' ∧ !dotSeen then
        ((String.ofList (start.textUntil l), true), l.advance)
      else ((String.ofList (start.textUntil l), false), l)

def readNumber (l : Lexer) : (String × Bool) × Lexer :=
  readNumberLoop unicode l l.remaining false l

end Tokens

def readStringLoop (start : Lexer) (quote : Char) : Nat → Lexer → Option String × Lexer
  | 0, l => (none, l)
  | rounds + 1, l =>
      if l.current = endRune ∨ l.current = '\n' then (none, l)
      else if l.current = '\\' then
        if l.advance.current = endRune ∨ l.advance.current = '\n' then (none, l.advance)
        else readStringLoop start quote rounds l.advance.advance
      else if l.current = quote then (some (String.ofList (start.textUntil l)), l.advance)
      else readStringLoop start quote rounds l.advance

def readString (l : Lexer) (quote : Char) : Option String × Lexer :=
  readStringLoop l quote l.remaining l

def readTemplateLoop (start : Lexer) : Nat → Nat → Lexer → Option String × Lexer
  | 0, _, l => (none, l)
  | rounds + 1, depth, l =>
      if l.current = endRune then (none, l)
      else if l.current = '\x60' ∧ depth = 0 then
        (some (String.ofList (start.textUntil l)), l.advance)
      else if l.current = '$' ∧ l.peek = '\x7b' then
        readTemplateLoop start rounds (depth + 1) l.advance.advance
      else
        readTemplateLoop start rounds (if l.current = '\x7d' ∧ depth > 0 then depth - 1 else depth)
          l.advance

def readTemplate (l : Lexer) : Option String × Lexer := readTemplateLoop l l.remaining 0 l

/-- The longest punctuation at the start of four runes. -/
def punctuation (first second third fourth : Char) : Option (TokenType × String) :=
  match first with
  | '(' => some (.tokenLParen, "(")
  | ')' => some (.tokenRParen, ")")
  | '\x7b' => some (.tokenLBrace, "\x7b")
  | '\x7d' => some (.tokenRBrace, "\x7d")
  | '[' => some (.tokenLBracket, "[")
  | ']' => some (.tokenRBracket, "]")
  | ';' => some (.tokenSemicolon, ";")
  | ',' => some (.tokenComma, ",")
  | ':' => some (.tokenColon, ":")
  | '#' => some (.tokenHash, "#")
  | '@' => some (.tokenAt, "@")
  | '.' =>
      if second = '.' ∧ third = '.' then some (.tokenEllipsis, "...")
      else some (.tokenDot, ".")
  | '=' =>
      if second = '=' ∧ third = '=' then some (.tokenStrictEq, "===")
      else if second = '=' then some (.tokenEq, "==")
      else if second = '>' then some (.tokenArrow, "=>")
      else some (.tokenAssign, "=")
  | '!' =>
      if second = '=' ∧ third = '=' then some (.tokenStrictNe, "!==")
      else if second = '=' then some (.tokenNe, "!=")
      else some (.tokenBang, "!")
  | '?' =>
      if second = '?' ∧ third = '=' then some (.tokenNullishAssign, "??=")
      else if second = '?' then some (.tokenNullish, "??")
      else if second = '.' then some (.tokenQuestionDot, "?.")
      else some (.tokenQuestion, "?")
  | '+' =>
      if second = '+' then some (.tokenIncrement, "++")
      else if second = '=' then some (.tokenAddAssign, "+=")
      else some (.tokenPlus, "+")
  | '-' =>
      if second = '-' then some (.tokenDecrement, "--")
      else if second = '=' then some (.tokenSubAssign, "-=")
      else some (.tokenMinus, "-")
  | '*' =>
      if second = '*' ∧ third = '=' then some (.tokenPowAssign, "**=")
      else if second = '*' then some (.tokenPower, "**")
      else if second = '=' then some (.tokenMulAssign, "*=")
      else some (.tokenStar, "*")
  | '/' =>
      if second = '=' then some (.tokenDivAssign, "/=")
      else some (.tokenSlash, "/")
  | '%' =>
      if second = '=' then some (.tokenModAssign, "%=")
      else some (.tokenPercent, "%")
  | '&' =>
      if second = '&' ∧ third = '=' then some (.tokenAndAssign, "&&=")
      else if second = '&' then some (.tokenAnd, "&&")
      else if second = '=' then some (.tokenBitAndAssign, "&=")
      else some (.tokenBitAnd, "&")
  | '|' =>
      if second = '|' ∧ third = '=' then some (.tokenOrAssign, "||=")
      else if second = '|' then some (.tokenOr, "||")
      else if second = '=' then some (.tokenBitOrAssign, "|=")
      else some (.tokenBitOr, "|")
  | '^' =>
      if second = '=' then some (.tokenBitXorAssign, "^=")
      else some (.tokenBitXor, "^")
  | '~' => some (.tokenBitNot, "~")
  | '<' =>
      if second = '<' ∧ third = '=' then some (.tokenShlAssign, "<<=")
      else if second = '<' then some (.tokenShiftLeft, "<<")
      else if second = '=' then some (.tokenLte, "<=")
      else some (.tokenLt, "<")
  | '>' =>
      if second = '>' ∧ third = '>' ∧ fourth = '=' then some (.tokenUShrAssign, ">>>=")
      else if second = '>' ∧ third = '>' then some (.tokenUnsignedShift, ">>>")
      else if second = '>' ∧ third = '=' then some (.tokenShrAssign, ">>=")
      else if second = '>' then some (.tokenShiftRight, ">>")
      else if second = '=' then some (.tokenGte, ">=")
      else some (.tokenGt, ">")
  | _ => none

def readPunctuation (l : Lexer) (line column : Nat) : Option (Token × Lexer) :=
  (punctuation l.current l.peek l.peekSecond l.peekThird).map fun (type, literal) =>
    (⟨type, literal, line, column⟩, l.advanceBy literal.length)

/-- `NextToken` once white space and comments are skipped. -/
def readToken (unicode : Unicode) (l : Lexer) : Token × Lexer :=
  if l.current = endRune then (⟨.tokenEOF, "", l.line, l.column⟩, l)
  else if unicode.isIdentifierStart l.current then
    let (literal, stop) := l.readIdentifier unicode
    (⟨lookupIdent literal, literal, l.line, l.column⟩, stop)
  else if unicode.isDigit l.current then
    let ((literal, big), stop) := l.readNumber unicode
    (⟨if big then .tokenBigInt else .tokenNumber, literal, l.line, l.column⟩, stop)
  else if l.current = '"' ∨ l.current = '\'' then
    match l.advance.readString l.current with
    | (some literal, stop) => (⟨.tokenString, literal, l.line, l.column⟩, stop)
    | (none, stop) => (⟨.tokenIllegal, "unterminated string", l.line, l.column⟩, stop)
  else if l.current = '\x60' then
    match l.advance.readTemplate with
    | (some literal, stop) => (⟨.tokenTemplate, literal, l.line, l.column⟩, stop)
    | (none, stop) => (⟨.tokenIllegal, "unterminated template", l.line, l.column⟩, stop)
  else
    match l.readPunctuation l.line l.column with
    | some result => result
    | none =>
        (⟨.tokenIllegal, "unexpected character " ++ unicode.quote l.current, l.line, l.column⟩,
          l.advance)

def nextToken (unicode : Unicode) (l : Lexer) : Token × Lexer :=
  match l.skipIgnored with
  | (some illegal, skipped) => (illegal, skipped)
  | (none, skipped) => skipped.readToken unicode

end Lexer

end Jayess
