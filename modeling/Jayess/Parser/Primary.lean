import Jayess.Parser.Lookahead

/-!
# Primary expressions

Literals, functions, array and object literals, templates, `new` and parentheses, and the arguments
of a call.
-/

namespace Jayess.Parser

section Primary

variable (g : Productions)

def parseArrowBody (start : SourcePos) (params : List Parameter) : Parse Expression := do
  if (← currentType) = .tokenLBrace then
    let body ← g.parseBlockStatements
    return .functionExpression start "" params body none
  let body ← g.parseConditional
  return .functionExpression start "" params [] (some body)

def parseArrowFunctionFrom (start : Token) : Parse Expression := do
  let current ← currentToken
  if current.type = .tokenIdent then
    advance
    expect .tokenArrow
    let param := .mk current.literal (some (.name current.literal)) false none
    parseArrowBody g (baseFrom start) [param]
  else
    let params ← parseParameterList g
    expect .tokenArrow
    parseArrowBody g (baseFrom start) params

def parseArrowFunction : Parse Expression := do
  parseArrowFunctionFrom g (← currentToken)

/-- The function starts at the word `async`. -/
def parseAsyncArrowFunction : Parse Expression := do
  let start ← currentToken
  advance
  parseArrowFunctionFrom g start

def parseFunctionExpressionFrom (start : Token) : Parse Expression := do
  expect .tokenFunction
  let _ ← matchToken .tokenStar
  let current ← currentToken
  if current.type = .tokenIdent then
    advance
    if (← currentType) = .tokenLt then
      errorAtCurrent "generic type parameters are not supported"
  let params ← parseParameterList g
  if (← currentType) = .tokenColon then unsupportedReturnAnnotationError
  let body ← g.parseBlockStatements
  let name := if current.type = .tokenIdent then current.literal else ""
  return .functionExpression (baseFrom start) name params body none

def parseFunctionExpression : Parse Expression := do
  parseFunctionExpressionFrom g (← currentToken)

def parseAsyncFunctionExpression : Parse Expression := do
  let start ← currentToken
  advance
  parseFunctionExpressionFrom g start

def isMissingSpreadExpression : Parse Bool := do
  match ← currentType with
  | .tokenComma | .tokenRBracket | .tokenRBrace | .tokenRParen | .tokenEOF => return true
  | _ => return false

def parseSpreadValue : Parse Expression := do
  if ← isMissingSpreadExpression then
    errorAtCurrent "spread element requires an expression"
  g.parseConditional

/-- `parseArgument` and `parseArrayElement`. -/
def parseArgument : Parse Expression := do
  if ← matchToken .tokenEllipsis then
    let value ← parseSpreadValue g
    return .spread value.pos value
  g.parseConditional

def parseArgumentsLoop : Nat → List Expression → Parse (List Expression)
  | 0, _ => throw .outOfFuel
  | rounds + 1, args => do
      let arg ← parseArgument g
      if ← matchToken .tokenRParen then return args ++ [arg]
      expect .tokenComma
      if ← matchToken .tokenRParen then return args ++ [arg]
      parseArgumentsLoop rounds (args ++ [arg])

def parseArguments : Parse (List Expression) := do
  expect .tokenLParen
  if ← matchToken .tokenRParen then return []
  parseArgumentsLoop g g.rounds []

def parseArrayElements : Nat → List (Option Expression) → Parse (List (Option Expression))
  | 0, _ => throw .outOfFuel
  | rounds + 1, elements => do
      if ← matchToken .tokenComma then
        if ← matchToken .tokenRBracket then return elements ++ [none]
        parseArrayElements rounds (elements ++ [none])
      else
        let element ← parseArgument g
        if ← matchToken .tokenRBracket then return elements ++ [some element]
        expect .tokenComma
        if ← matchToken .tokenRBracket then return elements ++ [some element]
        parseArrayElements rounds (elements ++ [some element])

def parseArrayLiteral (start : SourcePos) : Parse Expression := do
  advance
  if ← matchToken .tokenRBracket then return .arrayLiteral start []
  return .arrayLiteral start (← parseArrayElements g g.rounds [])

def isAccessorKeyword (word : String) : Bool := word = "get" || word = "set"

def validateSetterParameters {α : Type} (params : List Parameter) (error : String → Parse α)
    (valid : Parse α) : Parse α :=
  match params with
  | [param] => if isRest param then error "cannot use a rest parameter" else valid
  | _ => error "must have exactly one parameter"

def validateNamedAccessorParameters (kind : String) (name : Token) (params : List Parameter) :
    Parse Unit := do
  if kind = "get" ∧ params ≠ [] then
    errorAtToken name ("getter " ++ name.literal ++ " cannot have parameters")
  if kind = "set" then
    validateSetterParameters params
      (fun message => errorAtToken name ("setter " ++ name.literal ++ " " ++ message)) (pure ())

def validateComputedAccessorParameters (kind : String) (params : List Parameter) :
    Parse Unit := do
  if kind = "get" ∧ params ≠ [] then
    errorAtCurrent "computed getter cannot have parameters"
  if kind = "set" then
    validateSetterParameters params
      (fun message => errorAtCurrent ("computed setter " ++ message)) (pure ())

/-- What a method or an accessor has after its name: the function carries no position. -/
def parseMethodFunction (name : String) (validate : List Parameter → Parse Unit) :
    Parse Expression := do
  let params ← parseParameterList g
  validate params
  if (← currentType) = .tokenColon then unsupportedReturnAnnotationError
  let body ← g.parseBlockStatements
  return .functionExpression ⟨0, 0⟩ name params body none

def parseObjectMethod (name : String) (key : Option Expression) (computed : Bool) :
    Parse ObjectProperty := do
  let method ← parseMethodFunction g name fun _ => pure ()
  return .mk name key method computed false

def parseObjectAccessor (kind : String) : Parse ObjectProperty := do
  let name ← currentToken
  advance
  let method ← parseMethodFunction g name.literal (validateNamedAccessorParameters kind name)
  return .mk name.literal none method false false

def parseComputedObjectAccessor (kind : String) : Parse ObjectProperty := do
  expect .tokenLBracket
  let key ← g.parseConditional
  expect .tokenRBracket
  let method ← parseMethodFunction g "" (validateComputedAccessorParameters kind)
  return .mk "" (some key) method true false

/-- `async` is a modifier when a member name follows on the same line. -/
def matchObjectAsyncModifier : Parse Bool := do
  let isModifier ← lookaheadAfterAsync fun later => do
    if later then return false
    let next ← currentType
    return next = .tokenStar || next = .tokenLBracket || isObjectPropertyNameToken next
  if isModifier then advance
  return isModifier

def unsupportedOptionalPropertyError {α : Type} : Parse α :=
  errorAtCurrent "optional properties and methods are not supported"

def parseComputedObjectProperty (isMethod : Bool) : Parse ObjectProperty := do
  let key ← g.parseConditional
  expect .tokenRBracket
  if (← currentType) = .tokenQuestion then unsupportedOptionalPropertyError
  if (← currentType) = .tokenLParen then parseObjectMethod g "" (some key) true
  else
    if isMethod then
      errorAtCurrent ("expected computed object method parameters, got " ++ (← currentType).text)
    expect .tokenColon
    let value ← g.parseConditional
    return .mk "" (some key) value true false

def isObjectPropertyEnd (tokenType : TokenType) : Bool :=
  tokenType = .tokenComma || tokenType = .tokenRBrace

/-- A property after its name; `isMethod` says that `async` or `*` stands before it. -/
def parseNamedObjectProperty (key : Token) (isMethod : Bool) : Parse ObjectProperty := do
  let current ← currentType
  if current = .tokenQuestion then unsupportedOptionalPropertyError
  if !isMethod ∧ isAccessorKeyword key.literal ∧ isObjectPropertyNameToken current then
    parseObjectAccessor g key.literal
  else if !isMethod ∧ isAccessorKeyword key.literal ∧ current = .tokenLBracket then
    parseComputedObjectAccessor g key.literal
  else if current = .tokenLt then errorAtCurrent "generic type parameters are not supported"
  else if current = .tokenLParen then parseObjectMethod g key.literal none false
  else if isMethod then
    errorAtCurrent ("expected object method parameters, got " ++ current.text)
  else if key.type = .tokenIdent ∧ isObjectPropertyEnd current then
    return .mk key.literal none (.identifier (baseFrom key) key.literal) false false
  else
    expect .tokenColon
    let value ← g.parseConditional
    return .mk key.literal none value false false

def parseObjectProperty : Parse ObjectProperty := do
  if ← matchToken .tokenEllipsis then
    let value ← parseSpreadValue g
    return .mk "" none value false true
  let isAsync ← matchObjectAsyncModifier
  let isGenerator ← matchToken .tokenStar
  if ← matchToken .tokenLBracket then parseComputedObjectProperty g (isAsync || isGenerator)
  else
    let key ← currentToken
    if !isObjectPropertyNameToken key.type then
      errorAtCurrent ("expected object property name, got " ++ key.type.text)
    advance
    parseNamedObjectProperty g key (isAsync || isGenerator)

def parseObjectProperties : Nat → List ObjectProperty → Parse (List ObjectProperty)
  | 0, _ => throw .outOfFuel
  | rounds + 1, properties => do
      let property ← parseObjectProperty g
      if ← matchToken .tokenRBrace then return properties ++ [property]
      expect .tokenComma
      if ← matchToken .tokenRBrace then return properties ++ [property]
      parseObjectProperties rounds (properties ++ [property])

def parseObjectLiteral (start : SourcePos) : Parse Expression := do
  advance
  if ← matchToken .tokenRBrace then return .objectLiteral start []
  return .objectLiteral start (← parseObjectProperties g g.rounds [])

end Primary

end Jayess.Parser
