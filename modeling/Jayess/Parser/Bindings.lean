import Jayess.Parser.Parser

/-!
# Productions, binding patterns and parameters

A production that the grammar enters again from inside another one is reached through `Productions`,
which allow one level of nesting less; `rounds` bounds the loops.
-/

namespace Jayess

/-- The productions a production may start again. -/
structure Productions where
  rounds : Nat
  parseSequence : Parse Expression
  parseConditional : Parse Expression
  parseExponentiation : Parse Expression
  parseUnary : Parse Expression
  parsePostfix : Parse Expression
  parseBindingTarget : Parse (BindingPattern × String)
  parseBlockStatements : Parse (List Statement)

/-- No nesting is left. -/
def Productions.exhausted : Productions where
  rounds := 0
  parseSequence := throw .outOfFuel
  parseConditional := throw .outOfFuel
  parseExponentiation := throw .outOfFuel
  parseUnary := throw .outOfFuel
  parsePostfix := throw .outOfFuel
  parseBindingTarget := throw .outOfFuel
  parseBlockStatements := throw .outOfFuel

namespace Parser

def isObjectPropertyNameToken : TokenType → Bool
  | .tokenIdent | .tokenString | .tokenNumber | .tokenTrue | .tokenFalse | .tokenNull
  | .tokenUndefined | .tokenFunction | .tokenClass | .tokenEnum | .tokenExtends | .tokenExtern
  | .tokenImport | .tokenExport | .tokenDefault | .tokenNative | .tokenStatic | .tokenNew
  | .tokenThis | .tokenSuper | .tokenVar | .tokenLet | .tokenConst | .tokenPrivate | .tokenPublic
  | .tokenReturn | .tokenIf | .tokenElse | .tokenDo | .tokenWhile | .tokenWith | .tokenFor
  | .tokenOf | .tokenIn | .tokenSwitch | .tokenCase | .tokenBreak | .tokenContinue | .tokenDelete
  | .tokenDebugger | .tokenTry | .tokenCatch | .tokenFinally | .tokenThrow | .tokenAwait
  | .tokenAsync | .tokenYield | .tokenTypeof | .tokenVoid | .tokenInstanceof | .tokenIs => true
  | _ => false

/-! ## Diagnostics of unsupported syntax -/

def unsupportedOptionalBindingError {α : Type} : Parse α :=
  errorAtCurrent "optional bindings are not supported"

def unsupportedDefiniteAssignmentAssertionError {α : Type} : Parse α :=
  errorAtCurrent "definite assignment assertions are not supported"

def unsupportedTypeAnnotationError {α : Type} : Parse α :=
  errorAtCurrent "type annotations are not supported"

section Bindings

variable (g : Productions)

def isMissingRestBindingTarget : Parse Bool := do
  match ← currentType with
  | .tokenComma | .tokenRBracket | .tokenRBrace | .tokenAssign | .tokenEOF => return true
  | _ => return false

def parseBindingPattern : Parse (BindingPattern × String) := do
  let (pattern, name) ← g.parseBindingTarget
  if (← currentType) = .tokenQuestion then unsupportedOptionalBindingError
  if (← currentType) = .tokenBang then unsupportedDefiniteAssignmentAssertionError
  if (← currentType) = .tokenColon then unsupportedTypeAnnotationError
  if !(← matchToken .tokenAssign) then return (pattern, name)
  let value ← g.parseConditional
  return (.default (some pattern) value, name)

/-- The target of a rest, up to the token that closes the pattern. -/
def parseRestBinding (close : TokenType) : Parse BindingPattern := do
  if ← isMissingRestBindingTarget then errorAtCurrent "rest binding requires a target"
  let (rest, _) ← g.parseBindingTarget
  if (← currentType) = .tokenQuestion then unsupportedOptionalBindingError
  if (← currentType) = .tokenBang then unsupportedDefiniteAssignmentAssertionError
  if (← currentType) = .tokenColon then unsupportedTypeAnnotationError
  if (← currentType) = .tokenComma then errorAtCurrent "rest binding must be last"
  if (← currentType) = .tokenAssign then errorAtCurrent "rest binding cannot have a default value"
  expect close
  return .rest (some rest)

def parseArrayBindingElements : Nat → List (Option BindingPattern) → Parse BindingPattern
  | 0, _ => throw .outOfFuel
  | rounds + 1, elements => do
      if ← matchToken .tokenComma then
        if ← matchToken .tokenRBracket then return .array (elements ++ [none])
        parseArrayBindingElements rounds (elements ++ [none])
      else if ← matchToken .tokenEllipsis then
        let rest ← parseRestBinding g .tokenRBracket
        return .array (elements ++ [some rest])
      else
        let (element, _) ← parseBindingPattern g
        if ← matchToken .tokenRBracket then return .array (elements ++ [some element])
        expect .tokenComma
        if ← matchToken .tokenRBracket then return .array (elements ++ [some element])
        parseArrayBindingElements rounds (elements ++ [some element])

def parseArrayBindingPattern : Parse BindingPattern := do
  advance
  if ← matchToken .tokenRBracket then return .array []
  parseArrayBindingElements g g.rounds []

def parseComputedObjectBindingProperty : Parse ObjectBindingProperty := do
  let key ← g.parseConditional
  expect .tokenRBracket
  expect .tokenColon
  let (pattern, _) ← parseBindingPattern g
  return .mk "" (some key) (some pattern) true false

def parseObjectBindingProperty : Parse ObjectBindingProperty := do
  if ← matchToken .tokenLBracket then parseComputedObjectBindingProperty g
  else
    let key ← currentToken
    if !isObjectPropertyNameToken key.type then
      errorAtCurrent ("expected object binding property name, got " ++ key.type.text)
    advance
    if (← currentType) = .tokenQuestion then unsupportedOptionalBindingError
    if (← currentType) = .tokenBang then unsupportedDefiniteAssignmentAssertionError
    if ← matchToken .tokenColon then
      let (pattern, _) ← parseBindingPattern g
      return .mk key.literal none (some pattern) false false
    if key.type ≠ .tokenIdent then
      errorAtCurrent "expected : after object binding property name"
    if ← matchToken .tokenAssign then
      let value ← g.parseConditional
      return .mk key.literal none (some (.default (some (.name key.literal)) value)) false false
    return .mk key.literal none (some (.name key.literal)) false false

def parseObjectBindingProperties : Nat → List ObjectBindingProperty → Parse BindingPattern
  | 0, _ => throw .outOfFuel
  | rounds + 1, properties => do
      if ← matchToken .tokenEllipsis then
        let rest ← parseRestBinding g .tokenRBrace
        return .object (properties ++ [.mk "" none (some rest) false true])
      let property ← parseObjectBindingProperty g
      if ← matchToken .tokenRBrace then return .object (properties ++ [property])
      expect .tokenComma
      if ← matchToken .tokenRBrace then return .object (properties ++ [property])
      parseObjectBindingProperties rounds (properties ++ [property])

def parseObjectBindingPattern : Parse BindingPattern := do
  advance
  if ← matchToken .tokenRBrace then return .object []
  parseObjectBindingProperties g g.rounds []

/-- The name is empty for a pattern. -/
def parseBindingTarget : Parse (BindingPattern × String) := do
  let current ← currentToken
  match current.type with
  | .tokenIdent =>
      advance
      return (.name current.literal, current.literal)
  | .tokenLBracket => return (← parseArrayBindingPattern g, "")
  | .tokenLBrace => return (← parseObjectBindingPattern g, "")
  | _ => errorAtCurrent ("expected binding name or pattern, got " ++ current.type.text)

def isRest : Parameter → Bool
  | .mk _ _ rest _ => rest

def isParameterPropertyTargetStart : TokenType → Bool
  | .tokenIdent | .tokenLBrace | .tokenLBracket => true
  | _ => false

def isUnsupportedParameterModifierStart (name : String) : Parse Bool := do
  if (← currentToken).literal ≠ name then return false
  lookahead do
    advance
    return isParameterPropertyTargetStart (← currentType)

def isUnsupportedParameterPropertyModifierStart : Parse Bool := do
  if ← isUnsupportedParameterModifierStart "public" then return true
  if ← isUnsupportedParameterModifierStart "private" then return true
  if ← isUnsupportedParameterModifierStart "protected" then return true
  isUnsupportedParameterModifierStart "readonly"

/-- A binding pattern has no position of its own. -/
def parseParameter : Parse Parameter := do
  if (← currentType) = .tokenAt then errorAtCurrent "decorators are not supported"
  let rest ← matchToken .tokenEllipsis
  if ← isUnsupportedParameterPropertyModifierStart then
    errorAtCurrent "parameter property modifiers are not supported"
  let (pattern, name) ← parseBindingTarget g
  if (← currentType) = .tokenQuestion then
    errorAtCurrent "optional parameters are not supported"
  if (← currentType) = .tokenColon then unsupportedTypeAnnotationError
  if ← matchToken .tokenAssign then
    if rest then errorAtPosition ⟨0, 0⟩ "rest parameter cannot have a default value"
    let value ← g.parseConditional
    return .mk name (some pattern) rest (some value)
  return .mk name (some pattern) rest none

def parseParameters : Nat → List Parameter → Parse (List Parameter)
  | 0, _ => throw .outOfFuel
  | rounds + 1, params => do
      let param ← parseParameter g
      if ← matchToken .tokenRParen then return params ++ [param]
      if isRest param then errorAtCurrent "rest parameter must be last"
      expect .tokenComma
      if ← matchToken .tokenRParen then return params ++ [param]
      parseParameters rounds (params ++ [param])

def parseParameterList : Parse (List Parameter) := do
  expect .tokenLParen
  if ← matchToken .tokenRParen then return []
  parseParameters g g.rounds []

end Bindings

end Parser

end Jayess
