import Jayess.Lowering.FunctionCalls

/-!
# The evaluators of expressions

One evaluator for each kind of value, coercions between the kinds, and the elements and properties
of literals.
-/

namespace Jayess.Lowering

section

variable {α : Type} (host : Host) (ev : Evaluators)

def boolInt (value : Bool) : Int64 := if value then 1 else 0

def evaluateNumericCoercion (expression : Expression) : Eval Int64 :=
  Eval.probe (ev.int expression) <|>
  Eval.probing (ev.string expression)
    (fun text =>
      match parseLooseStringNumber host text with
      | some number => pure (intOfDouble host.outOfRange number)
      | none => failure)
    (Eval.probe (do
        let value ← ev.boolValue expression
        return boolInt value) <|>
      Eval.probe do
        let kind ← ev.nullish expression
        if kind = .null then return 0 else failure)

def evaluateStringCoercion (expression : Expression) : Eval GoString :=
  Eval.probe (ev.string expression) <|>
  Eval.probe (do
    let value ← ev.int expression
    return decimalString value.toInt) <|>
  Eval.probe (do
    let value ← ev.boolValue expression
    return goString (if value then "true" else "false")) <|>
  Eval.ofOption (evaluateBigIntStringCoercion expression) <|>
  Eval.probe (ev.bigInt expression) <|>
  Eval.probe do
    let kind ← ev.nullish expression
    return goString (if kind = .null then "null" else "undefined")

/-- A string operand makes `+` a concatenation. -/
def refuseString (expression : Expression) : Eval Unit := do
  let text ← Eval.attempt (Eval.isolate (ev.string expression))
  if text.isSome then failure else pure ()

def evaluateBinaryNumericOperand (operator : BinaryOperator) (expression : Expression) :
    Eval Int64 := do
  if operator = .add then
    refuseString ev expression
    evaluateNumericCoercion host ev expression
  else evaluateNumericCoercion host ev expression

def evaluateUnaryNumericOperand (operator : UnaryOperator) (expression : Expression) :
    Eval Int64 :=
  match operator with
  | .negate | .positive | .bitNot => evaluateNumericCoercion host ev expression
  | _ => failure

def evaluateObjectPropertyKey (expression : Expression) : Eval GoString :=
  Eval.probe (evaluateStringCoercion ev expression)

/-! ## Elements and properties -/

def elementOf (evaluate : Eval α) (value : α → ReturnValue) : Eval ReturnValue :=
  Eval.probe do
    let result ← evaluate
    return value result

def evaluateArrayLiteralElement (expression : Expression) : Eval ReturnValue :=
  elementOf (ev.int expression) .int <|>
  elementOf (ev.bigInt expression) .bigInt <|>
  elementOf (ev.string expression) .string <|>
  elementOf (ev.nullish expression) .nullish <|>
  elementOf (ev.materializeFunction expression) .function <|>
  elementOf (ev.materializeObject expression) .object <|>
  elementOf (ev.bool expression) .bool

def arrayElements : List (Option Expression) → Eval (List ReturnValue)
  | [] => return []
  | none :: rest => do
      let elements ← arrayElements rest
      return .nullish .undefined :: elements
  | some (.spread _ value) :: rest => do
      let spreadElements ← ev.arrayElements value <|> evaluateArrayIIFELiteralElements ev value
      let elements ← arrayElements rest
      return spreadElements ++ elements
  | some element :: rest => do
      let value ← evaluateArrayLiteralElement ev element
      let elements ← arrayElements rest
      return value :: elements

def evaluateArrayLiteralElements : Expression → Eval (List ReturnValue)
  | .arrayLiteral _ elements => arrayElements ev elements
  | _ => failure

abbrev ReturnProperties := GoString → Option ReturnValue

def withProperty (properties : ReturnProperties) (key : GoString) (value : ReturnValue) :
    ReturnProperties :=
  Function.update properties key (some value)

def withSpread (properties spreadProperties : ReturnProperties) : ReturnProperties :=
  fun key => (spreadProperties key).or (properties key)

def propertyKey (key : String) (computed : Bool) (keyExpr : Option Expression) : Eval GoString :=
  if computed then
    match keyExpr with
    | some expression => evaluateObjectPropertyKey ev expression
    | none => failure
  else return goString key

def objectProperties : ReturnProperties → List ObjectProperty → Eval ReturnProperties
  | properties, [] => return properties
  | properties, ⟨key, keyExpr, value, computed, spread⟩ :: rest => do
      if host.isAccessor ⟨key, keyExpr, value, computed, spread⟩ then failure
      else if spread then
        let spreadProperties ←
          ev.objectProperties value <|> evaluateObjectIIFELiteralProperties ev value
        objectProperties (withSpread properties spreadProperties) rest
      else
        let key ← propertyKey ev key computed keyExpr
        let element ← evaluateArrayLiteralElement ev value
        objectProperties (withProperty properties key element) rest

def evaluateObjectLiteralProperties : Expression → Eval ReturnProperties
  | .objectLiteral _ properties => objectProperties host ev (fun _ => none) properties
  | _ => failure

def evaluateIndexPropertyNumber (expression : Expression) : Eval Int64 :=
  Eval.probe (ev.int expression) <|>
  Eval.probe do
    let value ← ev.bigInt expression
    match atoi value, parseBigIntValue value with
    | some index, _ => return index
    | none, some parsed => return if parsed < 0 then -1 else Int64.maxValue
    | none, none => failure

def propertyOrUndefined (properties : ReturnProperties) (key : GoString) : ReturnValue :=
  (properties key).getD (.nullish .undefined)

def literalProperties (target : Expression) : Eval ReturnProperties :=
  Eval.probe (ev.objectProperties target) <|>
    Eval.probe (evaluateObjectIIFELiteralProperties ev target)

def literalElements (target : Expression) : Eval (List ReturnValue) :=
  Eval.probe (ev.arrayElements target) <|>
    Eval.probe (evaluateArrayIIFELiteralElements ev target)

def evaluateObjectMemberElement (target : Expression) (property : String) : Eval ReturnValue := do
  if property = "" then failure
  else
    let properties ← literalProperties ev target
    return propertyOrUndefined properties (goString property)

def evaluateObjectIndexElement (target index : Expression) : Eval ReturnValue :=
  Eval.probe do
    let properties ← literalProperties ev target
    let key ← evaluateObjectPropertyKey ev index
    return propertyOrUndefined properties key

def elementAt (elements : List ReturnValue) (index : ℤ) : ReturnValue :=
  if index < 0 then .nullish .undefined else elements.getD index.toNat (.nullish .undefined)

def evaluateArrayIndexElement (target index : Expression) : Eval ReturnValue :=
  Eval.probe do
    let elements ← literalElements ev target
    let number ← evaluateIndexPropertyNumber ev index
    return elementAt elements number.toInt

/-- An element of the kind asked for, first by index and then by key. -/
def indexElement (select : ReturnValue → Option α) (target index : Expression) : Eval α :=
  (do
    let element ← evaluateArrayIndexElement ev target index
    Eval.ofOption (select element)) <|>
  do
    let element ← evaluateObjectIndexElement ev target index
    Eval.ofOption (select element)

def memberElement (select : ReturnValue → Option α) (target : Expression) (property : String) :
    Eval α := do
  let element ← evaluateObjectMemberElement ev target property
  Eval.ofOption (select element)

def ReturnValue.int? : ReturnValue → Option Int64
  | .int value => some value
  | _ => none

def ReturnValue.bigInt? : ReturnValue → Option GoString
  | .bigInt value => some value
  | _ => none

def ReturnValue.bool? : ReturnValue → Option Bool
  | .bool value => some value
  | _ => none

def ReturnValue.string? : ReturnValue → Option GoString
  | .string value => some value
  | _ => none

def ReturnValue.nullish? : ReturnValue → Option ReturnNullishKind
  | .nullish kind => some kind
  | _ => none

def ReturnValue.function? : ReturnValue → Option Identity
  | .function identity => some identity
  | _ => none

def ReturnValue.object? : ReturnValue → Option Identity
  | .object identity => some identity
  | _ => none

def evaluateStringIndex (target index : Expression) : Eval GoString :=
  Eval.probe do
    let value ← ev.string target
    let number ← evaluateIndexPropertyNumber ev index
    if number.toInt < 0 ∨ (value.length : ℤ) ≤ number.toInt then failure
    else return [value.getD number.toInt.toNat 0]

def typeofNullish (kind : ReturnNullishKind) : String :=
  if kind = .null then "object" else "undefined"

def typeofIdentifier (scope : ReturnScope) (name : String) : String :=
  if (scope.ints name).isSome then "number"
  else if (scope.bigints name).isSome then "bigint"
  else if (scope.strings name).isSome then "string"
  else if (scope.bools name).isSome then "boolean"
  else
    match scope.nullish name with
    | some kind => typeofNullish kind
    | none =>
        if (scope.funcs name).isSome then "function"
        else if (scope.objects name).isSome then "object"
        else "undefined"

def typeofProbe (evaluate : Eval α) (name : α → String) : Eval GoString :=
  Eval.probe do
    let value ← evaluate
    return goString (name value)

def evaluateTypeofString : Expression → Eval GoString
  | .identifier _ name => do
      let scope ← Eval.scope
      return goString (typeofIdentifier scope name)
  | .numberLiteral .. => return goString "number"
  | .bigIntLiteral .. => return goString "bigint"
  | .stringLiteral .. => return goString "string"
  | .booleanLiteral .. => return goString "boolean"
  | .nullLiteral .. => return goString "object"
  | .undefinedLiteral .. => return goString "undefined"
  | .functionExpression .. => return goString "function"
  | .objectLiteral .. => return goString "object"
  | .arrayLiteral .. => return goString "object"
  | expression =>
      typeofProbe (ev.int expression) (fun _ => "number") <|>
      typeofProbe (ev.string expression) (fun _ => "string") <|>
      typeofProbe (ev.bigInt expression) (fun _ => "bigint") <|>
      typeofProbe (ev.functionReference expression) (fun _ => "function") <|>
      typeofProbe (ev.objectReference expression) (fun _ => "object") <|>
      typeofProbe (ev.nullish expression) typeofNullish <|>
      typeofProbe (ev.bool expression) (fun _ => "boolean")

def evaluateStringBinary (operator : BinaryOperator) (left right : Expression) : Eval GoString :=
  if operator = .add then
    Eval.probing (ev.string left)
      (fun text => do
        let coerced ← evaluateStringCoercion ev right
        return text ++ coerced)
      (Eval.probe do
        let coerced ← evaluateStringCoercion ev left
        let text ← ev.string right
        return coerced ++ text)
  else failure

def evaluateTemplateLiteral (value : String) (expressions : List Expression) : Eval GoString := do
  let runes ← evaluateTemplateString
    (fun expression => do
      let text ← evaluateStringCoercion ev expression
      return host.runes text)
    value.toList expressions
  return goString (String.ofList runes)

def evaluateStringExpression : Expression → Eval GoString
  | .identifier _ name => do
      let scope ← Eval.scope
      Eval.ofOption (scope.strings name)
  | .stringLiteral _ value => return goString value
  | .templateLiteral _ value expressions => evaluateTemplateLiteral host ev value expressions
  | .typeof _ value => evaluateTypeofString ev value
  | .member _ target property _ _ => memberElement ev ReturnValue.string? target property
  | .index _ target index _ =>
      indexElement ev ReturnValue.string? target index <|> evaluateStringIndex ev target index
  | .invoke pos callee arguments optional =>
      evaluateStringIIFEExpression ev (.invoke pos callee arguments optional)
  | .binary _ operator left right => evaluateStringBinary ev operator left right
  | .logical _ operator left right =>
      logically ev operator left (ev.string left) (· ≠ []) (ev.string right)
  | .conditional _ condition consequent alternative =>
      conditionally ev condition (ev.string consequent) (ev.string alternative)
  | .comma _ left right => afterDiscarding ev left (ev.string right)
  | .nullishCoalesce _ left right => coalescing ev left (ev.string left) (ev.string right)
  | _ => failure

def evaluateIntMember (target : Expression) (property : String) : Eval Int64 :=
  if property = "length" then
    Eval.probe (do
      let value ← ev.string target
      return Int64.ofNat value.length) <|>
    Eval.probe (do
      let elements ← ev.arrayElements target
      return Int64.ofNat elements.length) <|>
    Eval.probe do
      let elements ← evaluateArrayIIFELiteralElements ev target
      return Int64.ofNat elements.length
  else memberElement ev ReturnValue.int? target property

def unaryInt (operator : UnaryOperator) (value : Int64) : Option Int64 :=
  match operator with
  | .negate => some (-value)
  | .positive => some value
  | .bitNot => some (~~~value)
  | _ => none

def evaluateIntUpdateExpression (operator : UpdateOperator) (isPrefix : Bool) :
    Expression → Eval Int64
  | .identifier _ name => do
      let scope ← Eval.scope
      if name = "" then failure
      else
        let current ← Eval.ofOption (scope.ints name)
        overwrite name (.int (updatedIntValue operator current))
        return if isPrefix then updatedIntValue operator current else current
  | _ => failure

def evaluateIntExpression : Expression → Eval Int64
  | .identifier _ name => do
      let scope ← Eval.scope
      Eval.ofOption (scope.ints name)
  | .numberLiteral _ value =>
      Eval.ofOption ((host.parseFloat (goString value)).map (intOfDouble host.outOfRange))
  | .member _ target property _ _ => evaluateIntMember ev target property
  | .index _ target index _ => indexElement ev ReturnValue.int? target index
  | .unary _ operator right => do
      let value ← evaluateUnaryNumericOperand host ev operator right
      Eval.ofOption (unaryInt operator value)
  | .update _ operator target isPrefix => evaluateIntUpdateExpression operator isPrefix target
  | .invoke pos callee arguments optional =>
      evaluateIntIIFEExpression ev (.invoke pos callee arguments optional)
  | .binary _ operator left right => do
      let leftValue ← evaluateBinaryNumericOperand host ev operator left
      let rightValue ← evaluateBinaryNumericOperand host ev operator right
      Eval.ofOption (evaluateIntBinary host.power host.outOfRange operator leftValue rightValue)
  | .logical _ operator left right =>
      logically ev operator left (ev.int left) (· ≠ 0) (ev.int right)
  | .conditional _ condition consequent alternative =>
      conditionally ev condition (ev.int consequent) (ev.int alternative)
  | .comma _ left right => afterDiscarding ev left (ev.int right)
  | .nullishCoalesce _ left right => coalescing ev left (ev.int left) (ev.int right)
  | _ => failure

def evaluateBigIntBinary (operator : BinaryOperator) (left right : Expression) :
    Eval GoString := do
  let leftValue ← ev.bigInt left
  let rightValue ← ev.bigInt right
  Eval.ofOption (evaluateBigIntBinaryValue operator leftValue rightValue)

def evaluateBigIntUnary (operator : UnaryOperator) (right : Expression) : Eval GoString :=
  match operator with
  | .negate => do
      let value ← ev.bigInt right
      return negateBigIntValue value
  | .bitNot => do
      let value ← ev.bigInt right
      Eval.ofOption (bitNotBigIntValue value)
  | _ => failure

def evaluateBigIntUpdateExpression (operator : UpdateOperator) (isPrefix : Bool) :
    Expression → Eval GoString
  | .identifier _ name => do
      let scope ← Eval.scope
      if name = "" then failure
      else
        let current ← Eval.ofOption (scope.bigints name)
        let next ← Eval.ofOption (updatedBigIntValue operator current)
        overwrite name (.bigInt next)
        return if isPrefix then next else current
  | _ => failure

def evaluateBigIntValue : Expression → Eval GoString
  | .identifier _ name => do
      let scope ← Eval.scope
      Eval.ofOption (scope.bigints name)
  | .member _ target property _ _ => memberElement ev ReturnValue.bigInt? target property
  | .index _ target index _ => indexElement ev ReturnValue.bigInt? target index
  | .unary _ operator right => evaluateBigIntUnary ev operator right
  | .update _ operator target isPrefix => evaluateBigIntUpdateExpression operator isPrefix target
  | .invoke pos callee arguments optional =>
      evaluateBigIntIIFEExpression ev (.invoke pos callee arguments optional)
  | .binary _ operator left right => evaluateBigIntBinary ev operator left right
  | .logical _ operator left right =>
      logically ev operator left (ev.bigInt left) isTruthyBigIntValue (ev.bigInt right)
  | .conditional _ condition consequent alternative =>
      conditionally ev condition (ev.bigInt consequent) (ev.bigInt alternative)
  | .comma _ left right => afterDiscarding ev left (ev.bigInt right)
  | .nullishCoalesce _ left right => coalescing ev left (ev.bigInt left) (ev.bigInt right)
  | expression => Eval.ofOption (evaluateBigIntLiteralValue expression)

def evaluateNullishMember (target : Expression) (property : String) (optional : Bool) :
    Eval ReturnNullishKind :=
  (if optional then Eval.probe do
      let _ ← ev.nullish target
      return .undefined
    else failure) <|>
  memberElement ev ReturnValue.nullish? target property

def evaluateNullishIndex (target index : Expression) (optional : Bool) : Eval ReturnNullishKind :=
  (if optional then Eval.probe do
      let _ ← ev.nullish target
      return .undefined
    else failure) <|>
  Eval.probe do
    let value ← ev.string target
    let number ← evaluateIndexPropertyNumber ev index
    if 0 ≤ number.toInt ∧ number.toInt < (value.length : ℤ) then failure
    else return .undefined

def evaluateNullishExpression : Expression → Eval ReturnNullishKind
  | .identifier _ name => do
      let scope ← Eval.scope
      Eval.ofOption (scope.nullish name)
  | .nullLiteral _ => return .null
  | .undefinedLiteral _ => return .undefined
  | .member _ target property _ optional => evaluateNullishMember ev target property optional
  | .index _ target index optional =>
      indexElement ev ReturnValue.nullish? target index <|>
        evaluateNullishIndex ev target index optional
  | .unary _ operator right =>
      if operator = .void then do
        ev.discard right
        return .undefined
      else failure
  | .invoke pos callee arguments optional =>
      evaluateNullishIIFEExpression ev (.invoke pos callee arguments optional) <|>
        evaluateNullishCall ev callee arguments optional
  | .logical _ operator left right =>
      logically ev operator left (ev.nullish left) (fun _ => false) (ev.nullish right)
  | .conditional _ condition consequent alternative =>
      conditionally ev condition (ev.nullish consequent) (ev.nullish alternative)
  | .comma _ left right => afterDiscarding ev left (ev.nullish right)
  | .nullishCoalesce _ left right => coalescing ev left failure (ev.nullish right)
  | _ => failure

def evaluateMemberTruthiness (target : Expression) (property : String) : Eval Bool :=
  Eval.probe (do
    let element ← evaluateObjectMemberElement ev target property
    return returnValueTruthiness element) <|>
  Eval.probe do
    let length ← evaluateIntMember ev target property
    return decide (length ≠ 0)

def evaluateIndexTruthiness (target index : Expression) (optional : Bool) : Eval Bool :=
  Eval.probe (do
    let element ← evaluateArrayIndexElement ev target index
    return returnValueTruthiness element) <|>
  Eval.probe (do
    let element ← evaluateObjectIndexElement ev target index
    return returnValueTruthiness element) <|>
  Eval.probe (do
    let value ← evaluateStringIndex ev target index
    return decide (value ≠ [])) <|>
  Eval.probe do
    let _ ← evaluateNullishIndex ev target index optional
    return false

def evaluateStringExpressionTruthiness (expression : Expression) : Eval Bool :=
  Eval.probe do
    let value ← ev.string expression
    return decide (value ≠ [])

/-- The truthiness of a binary or unary expression by its value. -/
def evaluateOperatorTruthiness (expression : Expression) : Eval Bool :=
  Eval.probe (do
    let value ← ev.int expression
    return decide (value ≠ 0)) <|>
  Eval.probe (do
    let _ ← ev.nullish expression
    return false) <|>
  Eval.probe (do
    let value ← ev.bigInt expression
    return isTruthyBigIntValue value) <|>
  evaluateStringExpressionTruthiness ev expression

def evaluateFoldedExpressionTruthiness : Expression → Eval Bool
  | .binary pos operator left right =>
      evaluateOperatorTruthiness ev (.binary pos operator left right)
  | .unary pos operator right => evaluateOperatorTruthiness ev (.unary pos operator right)
  | .templateLiteral pos value expressions =>
      evaluateStringExpressionTruthiness ev (.templateLiteral pos value expressions)
  | .typeof pos value => evaluateStringExpressionTruthiness ev (.typeof pos value)
  | _ => failure

def identifierTruthiness (scope : ReturnScope) (name : String) : Option Bool :=
  ((scope.bools name).or
    (((scope.ints name).map fun value => decide (value ≠ 0)).or
      (((scope.bigints name).map isTruthyBigIntValue).or
        (((scope.strings name).map fun value => decide (value ≠ [])).or
          (((scope.nullish name).map fun _ => false).or
            (((scope.funcs name).map fun _ => true).or
              ((scope.objects name).map fun _ => true)))))))

def evaluateUpdateTruthiness (operator : UpdateOperator) (isPrefix : Bool) (target : Expression) :
    Eval Bool :=
  (do
    let value ← evaluateIntUpdateExpression operator isPrefix target
    return decide (value ≠ 0)) <|>
  do
    let value ← evaluateBigIntUpdateExpression operator isPrefix target
    return isTruthyBigIntValue value

def evaluateBoolLogical (operator : LogicalOperator) (left right : Expression) : Eval Bool := do
  let leftValue ← ev.bool left
  match operator with
  | .and => if leftValue then ev.bool right else return false
  | .or => if leftValue then return true else ev.bool right

end

end Jayess.Lowering
