import Jayess.Lowering.ReturnExpressions

/-! # The evaluators of references and comparisons -/

namespace Jayess.Lowering

section

variable (host : Host) (ev : Evaluators)

def evaluateFunctionExpression : Expression → Bool
  | .functionExpression .. => true
  | _ => false

def evaluateObjectExpression : Expression → Bool
  | .objectLiteral .. | .arrayLiteral .. => true
  | _ => false

def evaluateFunctionIdentity : Expression → Eval Identity
  | .identifier _ name => do
      let scope ← Eval.scope
      Eval.ofOption (scope.funcs name)
  | .member _ target property _ _ => memberElement ev ReturnValue.function? target property
  | .index _ target index _ => indexElement ev ReturnValue.function? target index
  | .invoke pos callee arguments optional =>
      evaluateFunctionIIFEExpression ev (.invoke pos callee arguments optional)
  | .logical _ operator left right =>
      logically ev operator left (ev.functionIdentity left) (fun _ => true)
        (ev.functionIdentity right)
  | .conditional _ condition consequent alternative =>
      conditionally ev condition (ev.functionIdentity consequent) (ev.functionIdentity alternative)
  | .comma _ left right => afterDiscarding ev left (ev.functionIdentity right)
  | .nullishCoalesce _ left right =>
      coalescingReference ev left (ev.functionIdentity left) (ev.functionIdentity right)
  | _ => failure

def evaluateObjectIdentity : Expression → Eval Identity
  | .identifier _ name => do
      let scope ← Eval.scope
      Eval.ofOption (scope.objects name)
  | .member _ target property _ _ => memberElement ev ReturnValue.object? target property
  | .index _ target index _ => indexElement ev ReturnValue.object? target index
  | .invoke pos callee arguments optional =>
      evaluateObjectIIFEExpression ev (.invoke pos callee arguments optional)
  | .logical _ operator left right =>
      logically ev operator left (ev.objectIdentity left) (fun _ => true) (ev.objectIdentity right)
  | .conditional _ condition consequent alternative =>
      conditionally ev condition (ev.objectIdentity consequent) (ev.objectIdentity alternative)
  | .comma _ left right => afterDiscarding ev left (ev.objectIdentity right)
  | .nullishCoalesce _ left right =>
      coalescingReference ev left (ev.objectIdentity left) (ev.objectIdentity right)
  | _ => failure

/-- A function expression is a new function each time. -/
def materializeFunctionIdentity : Expression → Eval Identity
  | .comma _ left right => afterDiscarding ev left (ev.materializeFunction right)
  | .functionExpression .. => allocateFunctionIdentity
  | .invoke pos callee arguments optional =>
      evaluateFunctionIIFEExpression ev (.invoke pos callee arguments optional)
  | .logical _ operator left right =>
      logically ev operator left (ev.materializeFunction left) (fun _ => true)
        (ev.materializeFunction right)
  | .conditional _ condition consequent alternative =>
      conditionally ev condition (ev.materializeFunction consequent)
        (ev.materializeFunction alternative)
  | .nullishCoalesce _ left right =>
      coalescingReference ev left (ev.materializeFunction left) (ev.materializeFunction right)
  | expression => ev.functionIdentity expression

/-- A literal or a construction is a new object each time. -/
def materializeObjectIdentity : Expression → Eval Identity
  | .comma _ left right => afterDiscarding ev left (ev.materializeObject right)
  | .objectLiteral .. => allocateObjectIdentity
  | .arrayLiteral .. => allocateObjectIdentity
  | .invoke pos callee arguments optional =>
      evaluateObjectIIFEExpression ev (.invoke pos callee arguments optional)
  | .logical _ operator left right =>
      logically ev operator left (ev.materializeObject left) (fun _ => true)
        (ev.materializeObject right)
  | .conditional _ condition consequent alternative =>
      conditionally ev condition (ev.materializeObject consequent)
        (ev.materializeObject alternative)
  | .nullishCoalesce _ left right =>
      coalescingReference ev left (ev.materializeObject left) (ev.materializeObject right)
  | .newExpression _ callee arguments => do
      evaluateNewObject ev callee arguments
      allocateObjectIdentity
  | expression => ev.objectIdentity expression

def functionReferenceForms : Expression → Eval Unit
  | .functionExpression .. => pure ()
  | .logical _ operator left right =>
      logically ev operator left (ev.functionReference left) (fun _ => true)
        (ev.functionReference right)
  | .conditional _ condition consequent alternative =>
      conditionally ev condition (ev.functionReference consequent)
        (ev.functionReference alternative)
  | .comma _ left right => afterDiscarding ev left (ev.functionReference right)
  | .nullishCoalesce _ left right =>
      coalescingReference ev left (ev.functionReference left) (ev.functionReference right)
  | _ => failure

def evaluateFunctionReferenceExpression (expression : Expression) : Eval Unit :=
  (do
    let _ ← ev.functionIdentity expression) <|>
  functionReferenceForms ev expression

def objectReferenceForms : Expression → Eval Unit
  | .objectLiteral .. => pure ()
  | .arrayLiteral .. => pure ()
  | .newExpression _ callee arguments => evaluateNewObject ev callee arguments
  | .logical _ operator left right =>
      logically ev operator left (ev.objectReference left) (fun _ => true)
        (ev.objectReference right)
  | .conditional _ condition consequent alternative =>
      conditionally ev condition (ev.objectReference consequent) (ev.objectReference alternative)
  | .comma _ left right => afterDiscarding ev left (ev.objectReference right)
  | .nullishCoalesce _ left right =>
      coalescingReference ev left (ev.objectReference left) (ev.objectReference right)
  | _ => failure

def evaluateObjectReferenceExpression (expression : Expression) : Eval Unit :=
  (do
    let _ ← ev.objectIdentity expression) <|>
  objectReferenceForms ev expression

def evaluateAssignmentTargetReference : Expression → Eval Unit
  | .member _ target _ _ optional => if optional then failure else ev.discard target
  | .index _ target index optional => do
      if optional then failure
      else
        ev.discard target
        let _ ← evaluateObjectPropertyKey ev index
  | _ => failure

def evaluateReferenceUpdateExpression : Expression → Eval Unit
  | .update _ _ (.identifier ..) _ => failure
  | .update _ _ target _ => evaluateAssignmentTargetReference ev target
  | _ => failure

def discarding {α : Type} (evaluate : Eval α) : Eval Unit :=
  Eval.probe do
    let _ ← evaluate

def evaluateDiscardExpression : Expression → Eval Unit
  | .invoke pos callee arguments optional =>
      evaluateEmptyCallExpression ev (.invoke pos callee arguments optional)
  | expression =>
      discarding (ev.int expression) <|>
      discarding (ev.string expression) <|>
      discarding (ev.bigInt expression) <|>
      discarding (ev.nullish expression) <|>
      discarding (evaluateEmptyCallExpression ev expression) <|>
      discarding (evaluateReferenceUpdateExpression ev expression) <|>
      discarding (ev.objectProperties expression) <|>
      discarding (ev.arrayElements expression) <|>
      discarding (ev.objectReference expression) <|>
      discarding (ev.functionReference expression) <|>
      discarding (ev.bool expression)

def evaluateDeleteTarget (expression : Expression) : Eval Unit :=
  discarding (ev.objectProperties expression) <|>
  discarding (ev.arrayElements expression) <|>
  discarding (ev.discard expression) <|>
  discarding (ev.objectReference expression) <|>
  discarding (ev.functionReference expression)

def evaluateDeleteExpression : Expression → Eval Bool
  | .member _ target _ _ _ => do
      evaluateDeleteTarget ev target
      return true
  | .index _ target index _ => do
      evaluateDeleteTarget ev target
      let _ ← evaluateObjectPropertyKey ev index
      return true
  | expression => do
      evaluateDeleteTarget ev expression
      return true

inductive PrimitiveKind where
  | number
  | string
  | bigint
  | nullish
  | boolean
deriving DecidableEq

def kindProbe {α : Type} (evaluate : Eval α) (kind : PrimitiveKind) : Eval PrimitiveKind :=
  Eval.probe do
    let _ ← evaluate
    return kind

def evaluatePrimitiveKind (expression : Expression) : Eval PrimitiveKind :=
  kindProbe (ev.int expression) .number <|>
  kindProbe (ev.string expression) .string <|>
  kindProbe (ev.bigInt expression) .bigint <|>
  kindProbe (ev.nullish expression) .nullish <|>
  kindProbe (ev.boolValue expression) .boolean

def evaluatePrimitiveInstanceofLeft (expression : Expression) : Eval Unit :=
  discarding (ev.int expression) <|>
  discarding (ev.string expression) <|>
  discarding (ev.nullish expression) <|>
  discarding (ev.bigInt expression) <|>
  discarding (ev.boolValue expression)

def evaluateInstanceofExpression (left right : Expression) : Eval Bool :=
  Eval.probe do
    evaluatePrimitiveInstanceofLeft ev left
    ev.functionReference right
    return false

/-- A key that fails before the first attempt fails before the second too. -/
def evaluateInExpression (left right : Expression) : Eval Bool :=
  Eval.probe (do
    let key ← evaluateObjectPropertyKey ev left
    let properties ← ev.objectProperties right
    return (properties key).isSome) <|>
  Eval.probe do
    let key ← evaluateObjectPropertyKey ev left
    let properties ← evaluateObjectIIFELiteralProperties ev right
    return (properties key).isSome

def evaluateIntComparison (operator : ComparisonOperator) (left right : Expression) :
    Eval Bool := do
  let leftValue ← ev.int left
  let rightValue ← ev.int right
  Eval.ofOption (compareInts operator leftValue rightValue)

def evaluateStringComparison (operator : ComparisonOperator) (left right : Expression) :
    Eval Bool := do
  let leftValue ← ev.string left
  let rightValue ← ev.string right
  Eval.ofOption (compareStrings operator leftValue rightValue)

def evaluateStringEquality (operator : ComparisonOperator) (left right : Expression) :
    Eval Bool := do
  let leftValue ← ev.string left
  let rightValue ← ev.string right
  return compareEquality operator (leftValue = rightValue)

def evaluateNullishEquality (operator : ComparisonOperator) (left right : Expression) :
    Eval Bool := do
  let leftKind ← ev.nullish left
  let rightKind ← ev.nullish right
  return compareNullishEquality operator leftKind rightKind

def evaluateBigIntEquality (operator : ComparisonOperator) (left right : Expression) :
    Eval Bool := do
  if isEqualityOperator operator then
    let leftValue ← ev.bigInt left
    let rightValue ← ev.bigInt right
    return compareEquality operator (leftValue = rightValue)
  else failure

def evaluateBigIntRelationalComparison (operator : ComparisonOperator) (left right : Expression) :
    Eval Bool := do
  if isEqualityOperator operator then failure
  else
    let leftValue ← ev.bigInt left
    let rightValue ← ev.bigInt right
    return compareBigIntRelationalOrder operator (compareBigIntLiteralValues leftValue rightValue)

/-- The empty string where the operand is a string that is no number. -/
def evaluateMixedRelationalBigIntValue (expression : Expression) : Eval GoString :=
  Eval.probe (do
    let text ← ev.string expression
    return parseMixedRelationalStringBigInt host text) <|>
  Eval.probe (do
    let number ← ev.int expression
    return decimalString number.toInt) <|>
  Eval.probe do
    let value ← ev.boolValue expression
    return goString (if value then "1" else "0")

def evaluateBigIntLeftMixedRelational (operator : ComparisonOperator) (left right : Expression) :
    Eval Bool := do
  let leftValue ← ev.bigInt left
  let rightValue ← evaluateMixedRelationalBigIntValue host ev right
  return rightValue ≠ [] &&
    compareBigIntRelationalOrder operator (compareBigIntLiteralValues leftValue rightValue)

def evaluateMixedLeftBigIntRelational (operator : ComparisonOperator) (left right : Expression) :
    Eval Bool := do
  let leftValue ← evaluateMixedRelationalBigIntValue host ev left
  let rightValue ← ev.bigInt right
  return leftValue ≠ [] &&
    compareBigIntRelationalOrder operator (compareBigIntLiteralValues leftValue rightValue)

def evaluateBigIntMixedRelationalComparison (operator : ComparisonOperator)
    (left right : Expression) : Eval Bool :=
  if isEqualityOperator operator then failure
  else
    evaluateBigIntLeftMixedRelational host ev operator left right <|>
      evaluateMixedLeftBigIntRelational host ev operator left right

def compareRelational (operator : ComparisonOperator) (left right : Int64) : Option Bool :=
  if isEqualityOperator operator then none else compareInts operator left right

def evaluateNumericRelationalComparison (operator : ComparisonOperator) (left right : Expression) :
    Eval Bool := do
  if isEqualityOperator operator then failure
  else
    let leftValue ← evaluateNumericCoercion host ev left
    let rightValue ← evaluateNumericCoercion host ev right
    Eval.ofOption (compareRelational operator leftValue rightValue)

abbrev ComparisonReference := Option Identity

def evaluateObjectComparisonReference (expression : Expression) : Eval ComparisonReference :=
  (do
    let identity ← ev.objectIdentity expression
    return some identity) <|>
  if evaluateObjectExpression expression then return none else failure

def evaluateFunctionComparisonReference (expression : Expression) : Eval ComparisonReference :=
  (do
    let identity ← ev.functionIdentity expression
    return some identity) <|>
  if evaluateFunctionExpression expression then return none else failure

/-- `sameObjectComparisonReference` and `sameFunctionComparisonReference`. -/
def sameComparisonReference : ComparisonReference → ComparisonReference → Eval Bool
  | some left, some right => sameIdentity left right
  | _, _ => return false

/-- The equality of references of one sort; a reference is no nullish value. -/
def evaluateReferenceEquality (reference : Expression → Eval ComparisonReference)
    (operator : ComparisonOperator) (left right : Expression) : Eval Bool := do
  if isEqualityOperator operator then
    let leftReference ← Eval.attempt (reference left)
    let rightReference ← Eval.attempt (reference right)
    match leftReference, rightReference with
    | some leftReference, some rightReference =>
        let same ← sameComparisonReference leftReference rightReference
        return compareEquality operator same
    | some _, none => do
        let _ ← ev.nullish right
        return compareEquality operator false
    | none, some _ => do
        let _ ← ev.nullish left
        return compareEquality operator false
    | none, none => failure
  else failure

def evaluateObjectEquality : ComparisonOperator → Expression → Expression → Eval Bool :=
  evaluateReferenceEquality ev (evaluateObjectComparisonReference ev)

def evaluateFunctionEquality : ComparisonOperator → Expression → Expression → Eval Bool :=
  evaluateReferenceEquality ev (evaluateFunctionComparisonReference ev)

def compareReferenceBoolean (reference : Expression → Eval ComparisonReference)
    (referenceExpression boolExpression : Expression) : Eval Bool := do
  let _ ← reference referenceExpression
  let _ ← ev.boolValue boolExpression
  return false

def evaluateReferenceBooleanEquality (reference : Expression → Eval ComparisonReference)
    (operator : ComparisonOperator) (left right : Expression) : Eval Bool := do
  if isEqualityOperator operator then
    let value ← compareReferenceBoolean ev reference left right <|>
      compareReferenceBoolean ev reference right left
    return compareEquality operator value
  else failure

def evaluateObjectBooleanEquality : ComparisonOperator → Expression → Expression → Eval Bool :=
  evaluateReferenceBooleanEquality ev (evaluateObjectComparisonReference ev)

def evaluateFunctionBooleanEquality : ComparisonOperator → Expression → Expression → Eval Bool :=
  evaluateReferenceBooleanEquality ev (evaluateFunctionComparisonReference ev)

def isReferenceComparisonOperand (expression : Expression) : Eval Unit :=
  discarding (evaluateObjectComparisonReference ev expression) <|>
  discarding (evaluateFunctionComparisonReference ev expression)

def evaluateReferencePrimitiveMismatchProbe (reference primitive : Expression) : Eval Unit :=
  Eval.probe do
    isReferenceComparisonOperand ev reference
    let _ ← evaluatePrimitiveKind ev primitive

def evaluateReferenceStrictPrimitiveMismatch (operator : ComparisonOperator)
    (left right : Expression) : Eval Bool := do
  if isStrictOperator operator then
    evaluateReferencePrimitiveMismatchProbe ev left right <|>
      evaluateReferencePrimitiveMismatchProbe ev right left
    return compareEquality operator false
  else failure

/-! ### Loose equality -/

def compareLooseStringNumber (stringExpression numberExpression : Expression) : Eval Bool := do
  let text ← ev.string stringExpression
  let number ← ev.int numberExpression
  match parseLooseStringNumber host text with
  | some value => return value.isFinite (Number.toDouble number.toInt)
  | none => return false

def compareLooseStringBoolean (stringExpression boolExpression : Expression) : Eval Bool := do
  let text ← ev.string stringExpression
  let value ← ev.boolValue boolExpression
  match parseLooseStringNumber host text with
  | some number => return number.isFinite (if value then 1 else 0)
  | none => return false

def compareLooseBooleanNumber (boolExpression numberExpression : Expression) : Eval Bool := do
  let value ← ev.boolValue boolExpression
  let number ← ev.int numberExpression
  return boolInt value = number

def compareLooseStringBigInt (stringExpression bigIntExpression : Expression) : Eval Bool := do
  let text ← ev.string stringExpression
  let value ← ev.bigInt bigIntExpression
  match parseLooseStringBigInt host text with
  | some number => return number = value
  | none => return false

def compareLooseNumberBigInt (numberExpression bigIntExpression : Expression) : Eval Bool := do
  let number ← ev.int numberExpression
  let value ← ev.bigInt bigIntExpression
  return decimalString number.toInt = value

def compareLooseBooleanBigInt (boolExpression bigIntExpression : Expression) : Eval Bool := do
  let boolean ← ev.boolValue boolExpression
  let value ← ev.bigInt bigIntExpression
  return value = goString (if boolean then "1" else "0")

def evaluateLooseEquality (compare : Expression → Expression → Eval Bool)
    (operator : ComparisonOperator) (left right : Expression) : Eval Bool := do
  if isLooseOperator operator then
    let value ← Eval.probe (compare left right) <|> Eval.probe (compare right left)
    return compareEquality operator value
  else failure

def evaluateLooseStringNumberEquality : ComparisonOperator → Expression → Expression → Eval Bool :=
  evaluateLooseEquality (compareLooseStringNumber host ev)

def evaluateLooseStringBooleanEquality : ComparisonOperator → Expression → Expression → Eval Bool :=
  evaluateLooseEquality (compareLooseStringBoolean host ev)

def evaluateLooseBooleanNumberEquality : ComparisonOperator → Expression → Expression → Eval Bool :=
  evaluateLooseEquality (compareLooseBooleanNumber ev)

def evaluateLooseStringBigIntEquality : ComparisonOperator → Expression → Expression → Eval Bool :=
  evaluateLooseEquality (compareLooseStringBigInt host ev)

def evaluateLooseNumberBigIntEquality : ComparisonOperator → Expression → Expression → Eval Bool :=
  evaluateLooseEquality (compareLooseNumberBigInt ev)

def evaluateLooseBooleanBigIntEquality : ComparisonOperator → Expression → Expression → Eval Bool :=
  evaluateLooseEquality (compareLooseBooleanBigInt ev)

def evaluateLooseNullishPrimitiveMismatch (operator : ComparisonOperator)
    (left right : Expression) : Eval Bool := do
  if isLooseOperator operator then
    let leftKind ← Eval.attempt (evaluatePrimitiveKind ev left)
    let rightKind ← Eval.attempt (evaluatePrimitiveKind ev right)
    match leftKind, rightKind with
    | some leftKind, some rightKind =>
        if leftKind = rightKind ∨ (leftKind ≠ .nullish ∧ rightKind ≠ .nullish) then failure
        else return compareEquality operator false
    | _, _ => failure
  else failure

def evaluateStrictPrimitiveMismatch (operator : ComparisonOperator) (left right : Expression) :
    Eval Bool := do
  if isStrictOperator operator then
    let leftKind ← evaluatePrimitiveKind ev left
    let rightKind ← evaluatePrimitiveKind ev right
    if leftKind = rightKind then failure
    else return compareEquality operator false
  else failure

/-- Under a strict operator one boolean operand is enough. -/
def evaluateBoolEquality (operator : ComparisonOperator) (left right : Expression) :
    Eval Bool := do
  let leftValue ← Eval.attempt (ev.boolValue left)
  let rightValue ← Eval.attempt (ev.boolValue right)
  match leftValue, rightValue with
  | some leftValue, some rightValue => return compareEquality operator (leftValue = rightValue)
  | none, none => failure
  | _, _ => if isStrictOperator operator then return compareEquality operator false else failure

def evaluateEqualityProbes (operator : ComparisonOperator) (left right : Expression) :
    Eval Bool :=
  Eval.probe (evaluateStringEquality ev operator left right) <|>
  Eval.probe (evaluateNullishEquality ev operator left right) <|>
  Eval.probe (evaluateBigIntEquality ev operator left right) <|>
  Eval.probe (evaluateObjectEquality ev operator left right) <|>
  Eval.probe (evaluateObjectBooleanEquality ev operator left right) <|>
  Eval.probe (evaluateFunctionEquality ev operator left right) <|>
  Eval.probe (evaluateFunctionBooleanEquality ev operator left right) <|>
  Eval.probe (evaluateReferenceStrictPrimitiveMismatch ev operator left right) <|>
  Eval.probe (evaluateLooseNullishPrimitiveMismatch ev operator left right) <|>
  Eval.probe (evaluateLooseStringNumberEquality host ev operator left right) <|>
  Eval.probe (evaluateLooseStringBooleanEquality host ev operator left right) <|>
  Eval.probe (evaluateLooseBooleanNumberEquality ev operator left right) <|>
  Eval.probe (evaluateLooseStringBigIntEquality host ev operator left right) <|>
  Eval.probe (evaluateLooseNumberBigIntEquality ev operator left right) <|>
  Eval.probe (evaluateLooseBooleanBigIntEquality ev operator left right) <|>
  Eval.probe (evaluateStrictPrimitiveMismatch ev operator left right) <|>
  Eval.probe (evaluateBoolEquality ev operator left right)

def evaluateComparisonExpression (operator : ComparisonOperator) (left right : Expression) :
    Eval Bool :=
  if operator = .in then evaluateInExpression ev left right
  else
    Eval.probe (evaluateIntComparison ev operator left right) <|>
    Eval.probe (evaluateStringComparison ev operator left right) <|>
    Eval.probe (evaluateBigIntRelationalComparison ev operator left right) <|>
    Eval.probe (evaluateBigIntMixedRelationalComparison host ev operator left right) <|>
    Eval.probe (evaluateNumericRelationalComparison host ev operator left right) <|>
    if isEqualityOperator operator then evaluateEqualityProbes host ev operator left right
    else failure

def evaluateUnaryTruthiness (pos : SourcePos) (operator : UnaryOperator) (right : Expression) :
    Eval Bool :=
  match operator with
  | .delete => evaluateDeleteExpression ev right
  | .not => do
      let value ← ev.bool right
      return !value
  | _ => evaluateFoldedExpressionTruthiness ev (.unary pos operator right)

/-- Whether the value is truthy, of a boolean its value. -/
def evaluateBoolExpression : Expression → Eval Bool
  | .booleanLiteral _ value => return value
  | .identifier _ name => do
      let scope ← Eval.scope
      Eval.ofOption (identifierTruthiness scope name)
  | .nullLiteral _ => return false
  | .undefinedLiteral _ => return false
  | .numberLiteral pos value => do
      let number ← ev.int (.numberLiteral pos value)
      return decide (number ≠ 0)
  | .bigIntLiteral pos value =>
      Eval.ofOption (evaluateBigIntTruthiness (.bigIntLiteral pos value))
  | .update _ operator target isPrefix => evaluateUpdateTruthiness operator isPrefix target
  | .stringLiteral _ value => return value ≠ ""
  | .functionExpression .. => return true
  | .objectLiteral .. => return true
  | .arrayLiteral .. => return true
  | .newExpression _ callee arguments => do
      evaluateNewObject ev callee arguments
      return true
  | .member _ target property _ _ => evaluateMemberTruthiness ev target property
  | .index _ target index optional => evaluateIndexTruthiness ev target index optional
  | .binary pos operator left right =>
      evaluateFoldedExpressionTruthiness ev (.binary pos operator left right)
  | .templateLiteral pos value expressions =>
      evaluateFoldedExpressionTruthiness ev (.templateLiteral pos value expressions)
  | .typeof pos value => evaluateFoldedExpressionTruthiness ev (.typeof pos value)
  | .unary pos operator right => evaluateUnaryTruthiness ev pos operator right
  | .comparison _ operator left right => evaluateComparisonExpression host ev operator left right
  | .instanceof _ left right => evaluateInstanceofExpression ev left right
  | .invoke pos callee arguments optional =>
      evaluateBoolIIFEExpression ev (.invoke pos callee arguments optional)
  | .logical _ operator left right => evaluateBoolLogical ev operator left right
  | .conditional _ condition consequent alternative =>
      conditionally ev condition (ev.bool consequent) (ev.bool alternative)
  | .comma _ left right => afterDiscarding ev left (ev.bool right)
  | .nullishCoalesce _ left right => coalescing ev left (ev.bool left) (ev.bool right)
  | _ => failure

/-- The value of an expression whose form makes it a boolean. -/
def evaluateBoolValue : Expression → Eval Bool
  | .booleanLiteral _ value => return value
  | .identifier _ name => do
      let scope ← Eval.scope
      Eval.ofOption (scope.bools name)
  | .member _ target property _ _ => memberElement ev ReturnValue.bool? target property
  | .index _ target index _ => indexElement ev ReturnValue.bool? target index
  | .instanceof _ left right => evaluateInstanceofExpression ev left right
  | .unary _ operator right =>
      match operator with
      | .delete => evaluateDeleteExpression ev right
      | .not => do
          let value ← ev.bool right
          return !value
      | _ => failure
  | .comparison _ operator left right => evaluateComparisonExpression host ev operator left right
  | .conditional _ condition consequent alternative =>
      conditionally ev condition (ev.boolValue consequent) (ev.boolValue alternative)
  | _ => failure

end

end Jayess.Lowering
