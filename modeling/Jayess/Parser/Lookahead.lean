import Jayess.Parser.Bindings

/-!
# Lookaheads

What `parsePrimary` asks about the tokens ahead before it decides how an expression starts.
-/

namespace Jayess.Parser

def isSingleParamArrowStart : Parse Bool := do
  if (← currentType) ≠ .tokenIdent then return false
  lookahead do
    advance
    return (← currentType) = .tokenArrow && !(← hasLineTerminatorBeforeCurrent)

def isParenthesizedArrowStart (g : Productions) : Parse Bool := do
  if (← currentType) ≠ .tokenLParen then return false
  lookahead do
    let _ ← parseParameterList g
    return (← currentType) = .tokenArrow && !(← hasLineTerminatorBeforeCurrent)

def isArrowFunctionStart (g : Productions) : Parse Bool := do
  if ← isSingleParamArrowStart then return true
  isParenthesizedArrowStart g

/-- Ask about the token after `async`, and whether it is on a later line. -/
def lookaheadAfterAsync (check : Bool → Parse Bool) : Parse Bool := do
  if (← currentType) ≠ .tokenAsync then return false
  let start ← currentToken
  lookahead do
    advance
    check ((← currentToken).line > start.line)

def isAsyncFunctionStart : Parse Bool :=
  lookaheadAfterAsync fun later => do
    if later then return false
    return (← currentType) = .tokenFunction

def isAsyncArrowFunctionStart (g : Productions) : Parse Bool :=
  lookaheadAfterAsync fun later => do
    if later then return false
    isArrowFunctionStart g

def isUnsupportedAsyncLineTerminatorStart (g : Productions) : Parse Bool :=
  lookaheadAfterAsync fun later => do
    if !later then return false
    if (← currentType) = .tokenFunction then return true
    isArrowFunctionStart g

/-- The loop gives up after 64 tokens. -/
def skipGenericTypeParameters : Nat → Nat → Parse Bool
  | 0, _ => return false
  | rounds + 1, depth => do
      match ← currentType with
      | .tokenLt =>
          advance
          skipGenericTypeParameters rounds (depth + 1)
      | .tokenGt =>
          advance
          if depth = 1 then return true
          skipGenericTypeParameters rounds (depth - 1)
      | .tokenEOF | .tokenSemicolon => return false
      | _ =>
          advance
          skipGenericTypeParameters rounds depth

def skipGenericTypeParameterListForArrow : Parse Bool := do
  advance
  if (← currentType) ≠ .tokenIdent then return false
  skipGenericTypeParameters 64 1

def isUnsupportedGenericArrowTypeParametersStart (g : Productions) : Parse Bool := do
  if (← currentType) ≠ .tokenLt then return false
  lookahead do
    if !(← skipGenericTypeParameterListForArrow) then return false
    if (← currentType) ≠ .tokenLParen then return false
    let _ ← parseParameterList g
    return (← currentType) = .tokenArrow && !(← hasLineTerminatorBeforeCurrent)

def isUnsupportedAsyncGenericArrowTypeParametersStart (g : Productions) : Parse Bool :=
  lookaheadAfterAsync fun later => do
    if later then return false
    isUnsupportedGenericArrowTypeParametersStart g

/-- The loop gives up after 64 tokens. -/
def findArrow : Nat → Parse Bool
  | 0 => return false
  | rounds + 1 => do
      match ← currentType with
      | .tokenArrow => return !(← hasLineTerminatorBeforeCurrent)
      | .tokenEOF | .tokenSemicolon => return false
      | _ =>
          advance
          findArrow rounds

def hasArrowAfterUnsupportedReturnAnnotation : Parse Bool := do
  advance
  findArrow 64

def isUnsupportedArrowReturnTypeAnnotationStart (g : Productions) : Parse Bool := do
  if (← currentType) ≠ .tokenLParen then return false
  lookahead do
    let _ ← parseParameterList g
    if (← currentType) ≠ .tokenColon then return false
    hasArrowAfterUnsupportedReturnAnnotation

def isUnsupportedAsyncArrowReturnTypeAnnotationStart (g : Productions) : Parse Bool :=
  lookaheadAfterAsync fun later => do
    if later then return false
    isUnsupportedArrowReturnTypeAnnotationStart g

def isUnsupportedReturnTypePredicateStart : Parse Bool := do
  if (← currentType) ≠ .tokenColon then return false
  lookahead do
    advance
    let current ← currentToken
    if current.type = .tokenIdent ∧ current.literal = "asserts" then return true
    if current.type ≠ .tokenIdent ∧ current.type ≠ .tokenThis then return false
    advance
    return (← currentType) = .tokenIs

def unsupportedReturnTypeAnnotationError {α : Type} : Parse α :=
  errorAtCurrent "return type annotations are not supported"

def unsupportedReturnAnnotationError {α : Type} : Parse α := do
  if ← isUnsupportedReturnTypePredicateStart then
    errorAtCurrent "type predicate and assertion return annotations are not supported"
  unsupportedReturnTypeAnnotationError

def unsupportedArrowReturnAnnotationError {α : Type} (g : Productions) : Parse α := do
  let _ ← matchToken .tokenAsync
  let _ ← parseParameterList g
  if (← currentType) ≠ .tokenColon then unsupportedReturnTypeAnnotationError
  unsupportedReturnAnnotationError

/-- The keyword in hand is followed by a dot and the given word. -/
def isMetaPropertyStart (keyword : TokenType) (word : String) : Parse Bool := do
  if (← currentType) ≠ keyword then return false
  lookahead do
    advance
    if !(← matchToken .tokenDot) then return false
    let current ← currentToken
    return current.type = .tokenIdent && current.literal = word

def isNewTargetStart : Parse Bool := isMetaPropertyStart .tokenNew "target"

def isImportMetaStart : Parse Bool := isMetaPropertyStart .tokenImport "meta"

def isDynamicImportStart : Parse Bool := do
  if (← currentType) ≠ .tokenImport then return false
  lookahead do
    advance
    return (← currentType) = .tokenLParen

def isUnsupportedConstAssertionSuffix : Parse Bool := do
  let current ← currentToken
  if current.type ≠ .tokenIdent ∨ current.literal ≠ "as" then return false
  lookahead do
    advance
    return (← currentType) = .tokenConst

/-- Fails on the suffixes of TypeScript. -/
def unsupportedExpressionSuffixError : Parse Unit := do
  let current ← currentToken
  if current.type = .tokenIdent then
    if current.literal = "as" then
      if ← isUnsupportedConstAssertionSuffix then
        errorAtCurrent "const assertions are not supported"
      errorAtCurrent "type assertions are not supported"
    if current.literal = "satisfies" then
      errorAtCurrent "satisfies expressions are not supported"
  if current.type = .tokenBang then errorAtCurrent "non-null assertions are not supported"

end Jayess.Parser
