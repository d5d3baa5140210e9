import Jayess.Parser.Primary

/-!
# Expressions

The chain of precedence levels from `parseSequence` down to `parsePrimary`, and the grammar that ties
the productions together.
-/

namespace Jayess

/-- `DiagnosticError.Error`; a line of zero is no position. -/
def ParseError.text : ParseError → String
  | .diagnostic line column message =>
      if line > 0 then toString line ++ ":" ++ toString column ++ ": " ++ message else message
  | .outOfFuel => ""

namespace Parser

/-- `ParseExpression`, over the production of a sequence. -/
def parseExpression (parseSequence : Parse Expression) : Parse Expression := do
  let expr ← parseSequence
  if (← currentType) ≠ .tokenEOF then
    errorAtCurrent ("expected end of expression, got " ++ (← currentType).text)
  return expr

/-- What is left after the quote that closes a quoted part; nothing when no quote does. -/
def skipQuotedTemplateExpressionPart (quote : Char) : List Char → List Char
  | [] => []
  | ch :: rest =>
      if ch = '\\' then
        match rest with
        | [] => []
        | _ :: rest => skipQuotedTemplateExpressionPart quote rest
      else if ch = quote then rest
      else skipQuotedTemplateExpressionPart quote rest

/-- The runes from the brace that closes the substitution on. -/
def findTemplateExpressionEnd : Nat → Nat → List Char → Option (List Char)
  | 0, _, _ => none
  | _, _, [] => none
  | rounds + 1, depth, ch :: rest =>
      if ch = '\'' ∨ ch = '"' then
        findTemplateExpressionEnd rounds depth (skipQuotedTemplateExpressionPart ch rest)
      else if ch = '\x7b' then findTemplateExpressionEnd rounds (depth + 1) rest
      else if ch = '\x7d' then
        if depth = 1 then some (ch :: rest) else findTemplateExpressionEnd rounds (depth - 1) rest
      else findTemplateExpressionEnd rounds depth rest

def takeTemplateExpression (runes : List Char) : Option (List Char × List Char) :=
  (findTemplateExpressionEnd (runes.length + 1) 1 runes).map fun stop =>
    (runes.take (runes.length - stop.length), stop.drop 1)

/-- The loop reads at least one rune in each round. -/
def parseTemplateExpressionsLoop (parseSource : List Char → Except ParseError Expression) :
    Nat → List Char → Except ParseError (List Expression)
  | 0, _ => .ok []
  | rounds + 1, '$' :: '\x7b' :: rest =>
      match takeTemplateExpression rest with
      | none => .error (.diagnostic 0 0 "unterminated template expression")
      | some (source, after) => do
          let expr ← parseSource source
          return expr :: (← parseTemplateExpressionsLoop parseSource rounds after)
  | rounds + 1, _ :: rest => parseTemplateExpressionsLoop parseSource rounds rest
  | _, [] => .ok []

section Levels

variable (g : Productions)

def parseTemplateExpressions (unicode : Unicode) (value : List Char) :
    Except ParseError (List Expression) :=
  parseTemplateExpressionsLoop
    (fun source => Prod.fst <$> parseExpression g.parseSequence (new unicode source))
    value.length value

def parseTemplateLiteral (token : Token) : Parse Expression := do
  match parseTemplateExpressions g (← get).unicode token.literal.toList with
  | .ok expressions =>
      return .templateLiteral (baseFrom token) token.literal expressions
  | .error .outOfFuel => throw .outOfFuel
  | .error error => errorAtToken token error.text

def hasOptionalChain : Expression → Bool
  | .member _ target _ _ optional => optional || hasOptionalChain target
  | .index _ target index optional => optional || hasOptionalChain target || hasOptionalChain index
  | .invoke _ callee _ optional => optional || hasOptionalChain callee
  | _ => false

def isAssignmentTarget (target : Expression) : Bool :=
  match target with
  | .identifier .. => true
  | .member .. | .index .. => !hasOptionalChain target
  | _ => false

def splitConstructorCall : Expression → Expression × List Expression
  | .call pos callee args => (.identifier pos callee, args)
  | .invoke pos callee args optional =>
      if optional then (.invoke pos callee args optional, []) else (callee, args)
  | expr => (expr, [])

def parseNewExpression : Parse Expression := do
  let start ← currentToken
  advance
  let callee ← g.parsePostfix
  if hasOptionalChain callee then
    errorAtPosition callee.pos "new target cannot contain optional chaining"
  let (callee, args) := splitConstructorCall callee
  return .newExpression (baseFrom start) callee args

/-- A keyword, a dot and a word; the lookahead has seen them. -/
def parseMetaProperty (keyword word : String) (build : SourcePos → Expression) :
    Parse Expression := do
  let start ← currentToken
  advance
  expect .tokenDot
  let current ← currentToken
  if current.type ≠ .tokenIdent ∨ current.literal ≠ word then
    errorAtCurrent ("expected " ++ keyword ++ "." ++ word)
  advance
  return build (baseFrom start)

def parseNewTargetExpression : Parse Expression := parseMetaProperty "new" "target" .newTarget

def parseImportMetaExpression : Parse Expression := parseMetaProperty "import" "meta" .importMeta

/-- The expressions that one token, already read, stands for. -/
def parseToken (token : Token) : Parse Expression :=
  match token.type with
  | .tokenIdent => return .identifier (baseFrom token) token.literal
  | .tokenThis => return .thisExpression (baseFrom token)
  | .tokenSuper => return .superExpression (baseFrom token)
  | .tokenNumber => return .numberLiteral (baseFrom token) token.literal
  | .tokenBigInt => return .bigIntLiteral (baseFrom token) token.literal
  | .tokenString => return .stringLiteral (baseFrom token) token.literal
  | .tokenTemplate => parseTemplateLiteral g token
  | .tokenTrue => return .booleanLiteral (baseFrom token) true
  | .tokenFalse => return .booleanLiteral (baseFrom token) false
  | .tokenNull => return .nullLiteral (baseFrom token)
  | .tokenUndefined => return .undefinedLiteral (baseFrom token)
  | .tokenLParen => do
      let expr ← g.parseSequence
      expect .tokenRParen
      return expr
  | _ => errorAtToken token ("expected expression, got " ++ token.type.text)

def parsePrimary : Parse Expression := do
  let token ← currentToken
  if ← isUnsupportedAsyncLineTerminatorStart g then
    errorAtCurrent "line terminator after async is not allowed before function or arrow function"
  if ← isUnsupportedAsyncGenericArrowTypeParametersStart g then
    errorAtCurrent "generic type parameters are not supported"
  if ← isUnsupportedGenericArrowTypeParametersStart g then
    errorAtCurrent "generic type parameters are not supported"
  if ← isUnsupportedAsyncArrowReturnTypeAnnotationStart g then
    unsupportedArrowReturnAnnotationError g
  if ← isUnsupportedArrowReturnTypeAnnotationStart g then
    unsupportedArrowReturnAnnotationError g
  if ← isAsyncArrowFunctionStart g then parseAsyncArrowFunction g
  else if ← isAsyncFunctionStart then parseAsyncFunctionExpression g
  else if ← isArrowFunctionStart g then parseArrowFunction g
  else if ← isNewTargetStart then parseNewTargetExpression
  else if token.type = .tokenNew then parseNewExpression g
  else if ← isImportMetaStart then parseImportMetaExpression
  else if ← isDynamicImportStart then
    errorAtCurrent "dynamic import expressions are not supported"
  else
    match token.type with
    | .tokenSlash =>
        errorAtCurrent "regular expression literals are not supported; use RegExp"
    | .tokenLt => errorAtCurrent "JSX and angle-bracket type assertions are not supported"
    | .tokenLBracket => parseArrayLiteral g (baseFrom token)
    | .tokenLBrace => parseObjectLiteral g (baseFrom token)
    | .tokenFunction => parseFunctionExpression g
    | _ => do
        advance
        parseToken g token

def callExpression (callee : Expression) (args : List Expression) (optional : Bool) : Expression :=
  match callee, optional with
  | .identifier pos name, false => .call pos name args
  | _, _ => .invoke callee.pos callee args optional

def parseTaggedTemplate (callee : Expression) : Parse Expression := do
  let token ← currentToken
  advance
  let template ← parseTemplateLiteral g token
  return callExpression callee [template] false

def parseIndexExpression (target : Expression) (optional : Bool) : Parse Expression := do
  advance
  let index ← g.parseSequence
  expect .tokenRBracket
  return .index target.pos target index optional

def parseMemberProperty (target : Expression) (optional : Bool) : Parse Expression := do
  let isPrivate ← matchToken .tokenHash
  let property ← currentToken
  if !isObjectPropertyNameToken property.type then
    errorAtCurrent ("expected property name, got " ++ property.type.text)
  advance
  return .member target.pos target property.literal isPrivate optional

def parseMemberExpression (target : Expression) (optional : Bool) : Parse Expression := do
  advance
  parseMemberProperty target optional

def parseOptionalPostfix (target : Expression) : Parse Expression := do
  advance
  match ← currentType with
  | .tokenLParen => return callExpression target (← parseArguments g) true
  | .tokenLBracket => parseIndexExpression g target true
  | _ => parseMemberProperty target true

def updateOperator (tokenType : TokenType) : UpdateOperator :=
  if tokenType = .tokenDecrement then .decrement else .increment

def parsePostfixUpdate (target : Expression) : Parse Expression := do
  if !isAssignmentTarget target then errorAtPosition target.pos "invalid update target"
  let operator := updateOperator (← currentType)
  advance
  return .update target.pos operator target false

def parsePostfixLoop : Nat → Expression → Parse Expression
  | 0, _ => throw .outOfFuel
  | rounds + 1, expr => do
      match ← currentType with
      | .tokenTemplate => parsePostfixLoop rounds (← parseTaggedTemplate g expr)
      | .tokenLParen => parsePostfixLoop rounds (callExpression expr (← parseArguments g) false)
      | .tokenLBracket => parsePostfixLoop rounds (← parseIndexExpression g expr false)
      | .tokenDot => parsePostfixLoop rounds (← parseMemberExpression expr false)
      | .tokenQuestionDot => parsePostfixLoop rounds (← parseOptionalPostfix g expr)
      | .tokenIncrement | .tokenDecrement =>
          if ← hasLineTerminatorBeforeCurrent then return expr
          parsePostfixUpdate expr
      | current =>
          let later ← hasLineTerminatorBeforeCurrent
          if current = .tokenArrow ∧ later then
            errorAtCurrent "line terminator before arrow is not allowed"
          if !later then unsupportedExpressionSuffixError
          return expr

def parsePostfix : Parse Expression := do
  let expr ← parsePrimary g
  parsePostfixLoop g g.rounds expr

def parsePrefixUpdate (token : Token) : Parse Expression := do
  advance
  let target ← g.parseUnary
  if !isAssignmentTarget target then errorAtPosition target.pos "invalid update target"
  return .update (baseFrom token) (updateOperator token.type) target true

def parseUnaryOperator (token : Token) (operator : UnaryOperator) : Parse Expression := do
  advance
  let right ← g.parseUnary
  return .unary (baseFrom token) operator right

def parseAwaitExpression (token : Token) : Parse Expression := do
  advance
  let value ← g.parseUnary
  return .await (baseFrom token) value

def parseYieldExpression (token : Token) : Parse Expression := do
  advance
  let current ← currentToken
  if current.type = .tokenSemicolon ∨ current.type = .tokenEOF ∨ current.type = .tokenRBrace ∨
      current.line > token.line then
    return .yield (baseFrom token) none false
  let delegate ← matchToken .tokenStar
  let value ← g.parseUnary
  return .yield (baseFrom token) (some value) delegate

def parseUnary : Parse Expression := do
  let token ← currentToken
  match token.type with
  | .tokenIncrement | .tokenDecrement => parsePrefixUpdate g token
  | .tokenTypeof =>
      advance
      return .typeof (baseFrom token) (← g.parseUnary)
  | .tokenAwait => parseAwaitExpression g token
  | .tokenYield => parseYieldExpression g token
  | .tokenDelete => parseUnaryOperator g token .delete
  | .tokenVoid => parseUnaryOperator g token .void
  | .tokenBang => parseUnaryOperator g token .not
  | .tokenBitNot => parseUnaryOperator g token .bitNot
  | .tokenPlus => parseUnaryOperator g token .positive
  | .tokenMinus => parseUnaryOperator g token .negate
  | _ => parsePostfix g

/-! ## Binary levels -/

/-- The loop of a level whose operators associate to the left. -/
def parseLeftLoop (next : Parse Expression) (continues : TokenType → Bool)
    (build : TokenType → Expression → Expression → Expression) : Nat → Expression → Parse Expression
  | 0, _ => throw .outOfFuel
  | rounds + 1, left => do
      let operator ← currentType
      if !continues operator then return left
      advance
      let right ← next
      parseLeftLoop next continues build rounds (build operator left right)

def parseLeft (next : Parse Expression) (continues : TokenType → Bool)
    (build : TokenType → Expression → Expression → Expression) : Parse Expression := do
  let left ← next
  parseLeftLoop next continues build g.rounds left

/-- Only asked about the tokens of a level; the last case is the unsigned shift. -/
def binaryOperator : TokenType → BinaryOperator
  | .tokenPlus => .add
  | .tokenMinus => .sub
  | .tokenStar => .mul
  | .tokenPower => .pow
  | .tokenSlash => .div
  | .tokenPercent => .mod
  | .tokenBitAnd => .bitAnd
  | .tokenBitOr => .bitOr
  | .tokenBitXor => .bitXor
  | .tokenShiftLeft => .shl
  | .tokenShiftRight => .shr
  | _ => .ushr

/-- The last case is the operator `in`. -/
def comparisonOperator : TokenType → ComparisonOperator
  | .tokenEq => .eq
  | .tokenNe => .ne
  | .tokenStrictEq => .strictEq
  | .tokenStrictNe => .strictNe
  | .tokenLt => .lt
  | .tokenLte => .lte
  | .tokenGt => .gt
  | .tokenGte => .gte
  | _ => .in

def isComparisonToken : TokenType → Bool
  | .tokenEq | .tokenNe | .tokenStrictEq | .tokenStrictNe | .tokenLt | .tokenLte | .tokenGt
  | .tokenGte | .tokenIn | .tokenInstanceof => true
  | _ => false

def parseBinaryLeft (next : Parse Expression) (tokenTypes : List TokenType) : Parse Expression :=
  parseLeft g next (fun token => tokenTypes.contains token) fun operator left right =>
    .binary left.pos (binaryOperator operator) left right

def parseExponentiation : Parse Expression := do
  let left ← parseUnary g
  if !(← matchToken .tokenPower) then return left
  let right ← g.parseExponentiation
  return .binary left.pos .pow left right

def parseMultiplicative : Parse Expression :=
  parseBinaryLeft g (parseExponentiation g) [.tokenStar, .tokenSlash, .tokenPercent]

def parseAdditive : Parse Expression :=
  parseBinaryLeft g (parseMultiplicative g) [.tokenPlus, .tokenMinus]

def parseShift : Parse Expression :=
  parseBinaryLeft g (parseAdditive g) [.tokenShiftLeft, .tokenShiftRight, .tokenUnsignedShift]

def parseComparison : Parse Expression :=
  parseLeft g (parseShift g) isComparisonToken fun operator left right =>
    if operator = .tokenInstanceof then .instanceof left.pos left right
    else .comparison left.pos (comparisonOperator operator) left right

def parseBitwiseAnd : Parse Expression := parseBinaryLeft g (parseComparison g) [.tokenBitAnd]

def parseBitwiseXor : Parse Expression := parseBinaryLeft g (parseBitwiseAnd g) [.tokenBitXor]

def parseBitwiseOr : Parse Expression := parseBinaryLeft g (parseBitwiseXor g) [.tokenBitOr]

def parseLogicalAnd : Parse Expression :=
  parseLeft g (parseBitwiseOr g) (· = .tokenAnd) fun _ left right =>
    .logical left.pos .and left right

def parseLogicalOr : Parse Expression :=
  parseLeft g (parseLogicalAnd g) (· = .tokenOr) fun _ left right =>
    .logical left.pos .or left right

def parseNullish : Parse Expression :=
  parseLeft g (parseLogicalOr g) (· = .tokenNullish) fun _ left right =>
    .nullishCoalesce left.pos left right

def parseConditional : Parse Expression := do
  let condition ← parseNullish g
  if !(← matchToken .tokenQuestion) then return condition
  let consequent ← g.parseConditional
  expect .tokenColon
  let alternative ← g.parseConditional
  return .conditional condition.pos condition consequent alternative

def parseSequence : Parse Expression :=
  parseLeft g (parseConditional g) (· = .tokenComma) fun _ left right =>
    .comma left.pos left right

end Levels

end Parser

/-- The grammar of expressions with the given bound on nesting and on the rounds of a loop, over the
production of a block of statements. -/
def grammar (parseBlockStatements : Productions → Parse (List Statement)) : Nat → Productions
  | 0 => .exhausted
  | fuel + 1 =>
      let g := grammar parseBlockStatements fuel
      { rounds := fuel
        parseSequence := Parser.parseSequence g
        parseConditional := Parser.parseConditional g
        parseExponentiation := Parser.parseExponentiation g
        parseUnary := Parser.parseUnary g
        parsePostfix := Parser.parsePostfix g
        parseBindingTarget := Parser.parseBindingTarget g
        parseBlockStatements := parseBlockStatements g }

/-- `ParseExpression` on a source text. -/
def parseSource (parseBlockStatements : Productions → Parse (List Statement)) (unicode : Unicode)
    (fuel : Nat) (input : List Char) : Except ParseError Expression :=
  Prod.fst <$> Parser.parseExpression (grammar parseBlockStatements fuel).parseSequence
    (Parser.new unicode input)

end Jayess
