import Jayess.Backend.StdlibBridge

/-! # The expression emitter -/

namespace Jayess.Backend

open Lifetime (ClosureEnvironment)

inductive AssignmentTarget where
  | localSlot (name : String)
  | runtimeSet (getter setter deleter : String) (object key : Operand)
deriving DecidableEq, Repr

namespace AssignmentTarget

def load : AssignmentTarget → ExprM Operand
  | localSlot name => loadLocal name
  | runtimeSet getter _ _ object key => emitRuntimeBinaryValue getter object key

def store (target : AssignmentTarget) (value : Operand) : ExprM Unit :=
  match target with
  | localSlot name => storeLocal name value
  | runtimeSet _ setter _ object key =>
      emitRuntimeVoidCall setter [valueArg object, valueArg key, valueArg value]

def delete : AssignmentTarget → ExprM Operand
  | localSlot name => fail ("unsupported runtime delete local target " ++ name)
  | runtimeSet _ _ deleter object key => emitRuntimeBinaryValue deleter object key

end AssignmentTarget

def propertyTarget (object key : Operand) : AssignmentTarget :=
  .runtimeSet "jayess_value_get_property" "jayess_value_set_property"
    "jayess_value_delete_property" object key

def indexTarget (object key : Operand) : AssignmentTarget :=
  .runtimeSet "jayess_value_get_index" "jayess_value_set_index" "jayess_value_delete_index"
    object key

/-- `ResolveAssignmentTarget` on an identifier. -/
def resolveLocal (name : String) : ExprM AssignmentTarget := do
  if ← hasLocal name then return .localSlot name
  fail ("assignment to undefined emitted local " ++ name)

/-- `ResolveAssignmentTarget` on a member expression. -/
def resolveMember (isPrivate optional : Bool) (emitTarget : ExprM Operand) (property : String) :
    ExprM AssignmentTarget := do
  if optional then fail "unsupported runtime optional member assignment target"
  if isPrivate then fail "unsupported runtime private member assignment target"
  let object ← emitTarget
  let key ← emitRuntimeString property
  return propertyTarget object key

/-- `ResolveAssignmentTarget` on an index expression. -/
def resolveIndex (optional : Bool) (emitTarget emitIndex : ExprM Operand) :
    ExprM AssignmentTarget := do
  if optional then fail "unsupported runtime optional index assignment target"
  let object ← emitTarget
  let key ← emitIndex
  return indexTarget object key

structure CapturedExpression where
  lines : List Line
  value : Operand

def captureExpression (emit : ExprM Operand) : ExprM CapturedExpression := fun emitter =>
  match emit emitter with
  | .error error => .error error
  | .ok (value, emitted) =>
      .ok ({ lines := emitted.body.drop emitter.body.length, value },
        { emitted with body := emitted.body.take emitter.body.length })

def emitCapturedBranchValue (stem : String) (condition : Operand)
    (trueBranch falseBranch : CapturedExpression) : ExprM Operand := do
  let trueLabel ← nextBlockLabel (stem ++ ".true")
  let falseLabel ← nextBlockLabel (stem ++ ".false")
  let endLabel ← nextBlockLabel (stem ++ ".end")
  let result ← nextValueName
  appendLines [.brIf condition trueLabel falseLabel, .label trueLabel]
  appendLines trueBranch.lines
  appendLines [.br endLabel, .label falseLabel]
  appendLines falseBranch.lines
  appendLines [.br endLabel, .label endLabel,
    .phi result [(trueBranch.value, trueLabel), (falseBranch.value, falseLabel)]]
  return .named result

def emitConditionalExpression (emitCondition emitConsequent emitAlternative : ExprM Operand) :
    ExprM Operand := do
  let conditionValue ← emitCondition
  let condition ← emitTruthiness conditionValue
  let trueBranch ← captureExpression emitConsequent
  let falseBranch ← captureExpression emitAlternative
  emitCapturedBranchValue "conditional" condition trueBranch falseBranch

def emitLogicalExpression (operator : LogicalOperator) (emitLeft emitRight : ExprM Operand) :
    ExprM Operand := do
  let left ← emitLeft
  let condition ← emitTruthiness left
  let rightBranch ← captureExpression emitRight
  match operator with
  | .and => emitCapturedBranchValue "logical.and" condition rightBranch ⟨[], left⟩
  | .or => emitCapturedBranchValue "logical.or" condition ⟨[], left⟩ rightBranch

def emitNullishCoalesceExpression (emitLeft emitRight : ExprM Operand) : ExprM Operand := do
  let left ← emitLeft
  let condition ← emitNullishCheck left
  let rightBranch ← captureExpression emitRight
  emitCapturedBranchValue "nullish" condition rightBranch ⟨[], left⟩

def ofExcept {α : Type} (result : Except EmitError α) : ExprM α := fun emitter =>
  match result with
  | .ok value => .ok (value, emitter)
  | .error error => .error error

/-- `emitDeleteExpression`. Where the second attempt succeeds the first one stopped at an undefined
name with nothing emitted, so it starts from the emitter as it was. -/
def emitDeleteExpression (resolve : ExprM AssignmentTarget) (emitValue : ExprM Operand) :
    ExprM Operand := fun emitter =>
  match resolve emitter with
  | .ok (target, resolved) => target.delete resolved
  | .error _ =>
      (do
        let value ← emitValue
        emitRuntimeUnaryValue "jayess_value_delete_value" value : ExprM Operand) emitter

def emitBigIntBitNotExpression : Expression → ExprM Operand
  | .bigIntLiteral _ text =>
      match parseBigIntLiteral text with
      | some value => emitRuntimeLiteral (.bigInt (toString (-value - 1)))
      | none => ofExcept (.error (invalidBigInt text))
  | operand => fail ("unsupported runtime bigint bitwise-not operand " ++ operand.goType)

def emitNumericUnaryExpression (operator : UnaryOperator) : Expression → ExprM Operand
  | .numberLiteral _ text =>
      match parseFloat text with
      | some value =>
          emitRuntimeLiteral (.number (if operator = .negate then .negated value else value))
      | none => fail ("invalid number literal " ++ quote text)
  | operand => fail ("unsupported runtime numeric unary operand " ++ operand.goType)

def emitNegateExpression : Expression → ExprM Operand
  | .bigIntLiteral _ text =>
      match parseBigIntLiteral text with
      | some value => emitRuntimeLiteral (.bigInt (toString (-value)))
      | none => ofExcept (.error (invalidBigInt text))
  | operand => emitNumericUnaryExpression .negate operand

def emitBooleanNotExpression : Expression → ExprM Operand
  | .booleanLiteral _ value => emitRuntimeLiteral (.boolean (.known (!value)))
  | operand => fail ("unsupported runtime boolean-not operand " ++ operand.goType)

def emitVoidExpression (emitValue : ExprM Operand) : ExprM Operand := do
  let _ ← emitValue
  emitRuntimeUndefined

def updateSymbol : UpdateOperator → String
  | .increment => "jayess_value_update_increment"
  | .decrement => "jayess_value_update_decrement"

def emitUpdateExpression (operator : UpdateOperator) (isPrefix : Bool)
    (resolve : ExprM AssignmentTarget) : ExprM Operand := do
  let target ← resolve
  let previous ← target.load
  let next ← emitRuntimeUnaryValue (updateSymbol operator) previous
  target.store next
  return if isPrefix then next else previous

def parsedBigInt (text : String) : Except EmitError Int :=
  match parseBigIntLiteral text with
  | some value => .ok value
  | none => .error (invalidBigInt text)

def mixedOperands (operation : String) (left right : Expression) : EmitError :=
  { message := "unsupported runtime " ++ operation ++ " operands " ++ left.goType ++ " and " ++
      right.goType }

/-- What `emitBinaryExpression` folds its operands to: strings first (for `+` only), then bigints,
then numbers. -/
def foldBinary (operator : BinaryOperator) (left right : Expression) :
    Except EmitError RuntimeLiteral :=
  match operator, left, right with
  | .add, .stringLiteral _ left, .stringLiteral _ right => .ok (.string (left ++ right))
  | .add, .stringLiteral .., _ | .add, _, .stringLiteral .. =>
      .error (mixedOperands "string concatenation" left right)
  | _, .bigIntLiteral _ leftText, .bigIntLiteral _ rightText => do
      let left ← parsedBigInt leftText
      let right ← parsedBigInt rightText
      return .bigInt (toString (← evaluateBigIntBinary operator left right))
  | _, .bigIntLiteral .., _ | _, _, .bigIntLiteral .. =>
      .error (mixedOperands "bigint binary" left right)
  | _, _, _ => do
      let leftValue ← numericLiteralValue left
      let rightValue ← numericLiteralValue right
      return .number (← evaluateNumericBinary operator leftValue rightValue)

def emitBinaryExpression (operator : BinaryOperator) (left right : Expression) : ExprM Operand := do
  let literal ← ofExcept (foldBinary operator left right)
  emitRuntimeLiteral literal

def nullishLiteralKind : Expression → Option String
  | .nullLiteral _ => some "null"
  | .undefinedLiteral _ => some "undefined"
  | _ => none

/-- What `emitComparisonExpression` folds its operands to, for every operator but `in`: strings,
then booleans, nullish literals, bigints and numbers. -/
def foldComparison (operator : ComparisonOperator) (left right : Expression) :
    Except EmitError BitValue :=
  match left, right with
  | .stringLiteral _ left, .stringLiteral _ right => do
      return .known (← evaluatePrimitiveEqualityComparison operator (left == right) "string")
  | .stringLiteral .., _ | _, .stringLiteral .. =>
      .error (mixedOperands "string comparison" left right)
  | .booleanLiteral _ left, .booleanLiteral _ right => do
      return .known (← evaluatePrimitiveEqualityComparison operator (left == right) "boolean")
  | .booleanLiteral .., _ | _, .booleanLiteral .. =>
      .error (mixedOperands "boolean comparison" left right)
  | _, _ =>
    match nullishLiteralKind left, nullishLiteralKind right with
    | some leftKind, some rightKind => do
        let equal := operator = .eq || operator = .ne || leftKind == rightKind
        return .known (← evaluatePrimitiveEqualityComparison operator equal "nullish")
    | some _, none | none, some _ => .error (mixedOperands "nullish comparison" left right)
    | none, none =>
      match left, right with
      | .bigIntLiteral _ leftText, .bigIntLiteral _ rightText => do
          let left ← parsedBigInt leftText
          let right ← parsedBigInt rightText
          return .known (← evaluateBigIntComparison operator left right)
      | .bigIntLiteral .., _ | _, .bigIntLiteral .. =>
          .error (mixedOperands "bigint comparison" left right)
      | _, _ => do
          let leftValue ← numericLiteralValue left
          let rightValue ← numericLiteralValue right
          evaluateNumericComparison operator leftValue rightValue

def emitBinaryOperands (symbol : String) (emitLeft emitRight : ExprM Operand) : ExprM Operand := do
  let left ← emitLeft
  let right ← emitRight
  emitRuntimeBinaryValue symbol left right

def emitComparisonExpression (operator : ComparisonOperator) (left right : Expression)
    (emitLeft emitRight : ExprM Operand) : ExprM Operand :=
  match operator with
  | .in => emitBinaryOperands "jayess_value_in" emitLeft emitRight
  | _ => do
      let value ← ofExcept (foldComparison operator left right)
      emitRuntimeLiteral (.boolean value)

def emitTypeofExpression (emitValue : ExprM Operand) : ExprM Operand := do
  let value ← emitValue
  emitRuntimeUnaryValue "jayess_value_typeof" value

/-! ## Objects, arrays, calls and functions -/

def emitRuntimeArrayNew : ExprM Operand := emitRuntimeValueCall "jayess_array_new" []

def emitRuntimeArrayPush (array value : Operand) : ExprM Unit :=
  emitRuntimeVoidCall "jayess_array_push" [valueArg array, valueArg value]

/-- `emitCallArguments`: fills a fresh array. -/
def emitCallArguments (emitAll : Operand → ExprM Unit) : ExprM Operand := do
  let array ← emitRuntimeArrayNew
  emitAll array
  return array

def emitRuntimeArrayElision (array : Operand) : ExprM Unit :=
  emitRuntimeVoidCall "jayess_array_elide" [valueArg array]

def emitRuntimeArraySpread (array value : Operand) : ExprM Unit :=
  emitRuntimeVoidCall "jayess_array_spread" [valueArg array, valueArg value]

def emitRuntimeObjectNew : ExprM Operand := emitRuntimeValueCall "jayess_object_new" []

def emitRuntimePropertyStore (object key value : Operand) : ExprM Unit :=
  emitRuntimeVoidCall "jayess_value_set_property" [valueArg object, valueArg key, valueArg value]

def emitRuntimeObjectSpread (object value : Operand) : ExprM Unit :=
  emitRuntimeVoidCall "jayess_object_spread" [valueArg object, valueArg value]

/-- `emitObjectPropertyKey` and `emitObjectBindingKey`: `owner` names the kind of key. -/
def emitPropertyKey (owner key : String) (computed : Bool) (emitKey : Option (ExprM Operand)) :
    ExprM Operand :=
  if computed then
    match emitKey with
    | some emit => emit
    | none => fail ("computed " ++ owner ++ " key must have an expression")
  else emitRuntimeString key

def emitRuntimeCallable (symbol : String) (callee thisValue arguments : Operand) :
    ExprM Operand :=
  emitRuntimeValueCall symbol [valueArg callee, valueArg thisValue, valueArg arguments]

def emitCallFunction (emitCallee emitArguments : ExprM Operand) : ExprM Operand := do
  let callee ← emitCallee
  let thisValue ← emitRuntimeUndefined
  let arguments ← emitArguments
  emitRuntimeCallable "jayess_call_function" callee thisValue arguments

def emitRuntimeValueArgsCall (symbol : String) (emitArgs : ExprM (List RuntimeCallArg)) :
    ExprM Operand := do
  let args ← emitArgs
  emitRuntimeValueCall symbol args

def emitCallExpression (callee : String) (emitArgs : ExprM (List RuntimeCallArg))
    (emitArguments : ExprM Operand) : ExprM Operand := do
  match stdlibLocalCallSymbol (← get) callee with
  | some symbol => emitRuntimeValueArgsCall symbol emitArgs
  | none => emitCallFunction (loadLocal callee) emitArguments

def emitSuperConstructorCall (emitArguments : ExprM Operand) : ExprM Operand := do
  let thisValue ← emitRuntimeValueCall "jayess_current_this" []
  let arguments ← emitArguments
  emitRuntimeBinaryValue "jayess_class_construct_super" thisValue arguments

def emitCallableHelperInvoke (symbol : String) (emitTarget : ExprM Operand)
    (emitThisAndRest : ExprM (Operand × Operand)) : ExprM Operand := do
  let callee ← emitTarget
  let (thisValue, rest) ← emitThisAndRest
  emitRuntimeCallable symbol callee thisValue rest

def emitApplyInvoke (emitTarget : ExprM Operand) (emitThisAndRest : ExprM (Operand × Operand))
    (emitApplied : Option (ExprM Operand)) : ExprM Operand := do
  let callee ← emitTarget
  let (thisValue, rest) ← emitThisAndRest
  match emitApplied with
  | some emit => do
      let applied ← emit
      emitRuntimeCallable "jayess_apply_function" callee thisValue applied
  | none => emitRuntimeCallable "jayess_apply_function" callee thisValue rest

def emitMethodInvoke (emitTarget : ExprM Operand) (property : String)
    (emitArguments : ExprM Operand) : ExprM Operand := do
  let object ← emitTarget
  let key ← emitRuntimeString property
  let function ← (propertyTarget object key).load
  let args ← emitArguments
  emitRuntimeCallable "jayess_call_function" function object args

def emitMemberInvoke (target : Expression) (property : String) (isPrivate optional : Bool)
    (emitTarget : ExprM Operand) (emitArgs : ExprM (List RuntimeCallArg))
    (emitArguments : ExprM Operand) (emitThisAndRest : ExprM (Operand × Operand))
    (emitApplied : Option (ExprM Operand)) : ExprM Operand := do
  if optional then fail "unsupported runtime optional member call lowering"
  if isPrivate then fail "unsupported runtime private member call lowering"
  match processStreamSymbol target property with
  | some symbol => emitRuntimeValueArgsCall symbol emitArgs
  | none =>
    match stdlibMemberInvokeSymbol (← get) target property isPrivate optional with
    | some symbol => emitRuntimeValueArgsCall symbol emitArgs
    | none =>
      match property with
      | "bind" => emitCallableHelperInvoke "jayess_bind_function" emitTarget emitThisAndRest
      | "call" => emitCallableHelperInvoke "jayess_call_function" emitTarget emitThisAndRest
      | "apply" => emitApplyInvoke emitTarget emitThisAndRest emitApplied
      | _ => emitMethodInvoke emitTarget property emitArguments

def emitMemberExpression (target : Expression) (property : String) (isPrivate optional : Bool)
    (emitTarget : ExprM Operand) : ExprM Operand := do
  match stdlibPropertySymbol (← get) target property isPrivate optional with
  | some symbol => emitRuntimeValueCall symbol []
  | none =>
      let resolved ← resolveMember isPrivate optional emitTarget property
      resolved.load

def emitIndexExpression (optional : Bool) (emitTarget emitIndex : ExprM Operand) :
    ExprM Operand := do
  let resolved ← resolveIndex optional emitTarget emitIndex
  resolved.load

def emitNewExpression (emitCallee emitArguments : ExprM Operand) : ExprM Operand := do
  let callee ← emitCallee
  let arguments ← emitArguments
  emitRuntimeBinaryValue "jayess_class_construct" callee arguments

def emitRuntimeFunctionNew : ExprM Operand := emitRuntimeValueCall "jayess_function_new" []

def closureEnvironmentFor (emitter : ExpressionEmitter) (pos : SourcePos) :
    Option ClosureEnvironment :=
  emitter.lifetimePlan.bind fun plan => plan.closureEnvironments.find? fun environment =>
    environment.line = pos.line && environment.column = pos.column

def emitClosureCapture (closure : Operand) (binding : String) : ExprM Unit := do
  let value ← loadLocal binding
  let key ← emitRuntimeString binding
  emitRuntimeVoidCall "jayess_closure_environment_set"
    [⟨"i8*", closure⟩, valueArg key, valueArg value]

def emitClosureEnvironment (environment : ClosureEnvironment) : ExprM Operand := do
  let closure ← emitRuntimeCall "i8*" "jayess_closure_environment_new" []
  environment.captures.forM fun capture => emitClosureCapture closure capture.binding
  return closure

def emitFunctionExpression (pos : SourcePos) : ExprM Operand := do
  match closureEnvironmentFor (← get) pos with
  | some environment => do
      let closure ← emitClosureEnvironment environment
      emitRuntimeValueCall "jayess_function_new_with_closure" [⟨"i8*", closure⟩]
  | none => emitRuntimeFunctionNew

/-- The end of `EmitExpression`: an expression with no case of its own is a literal. -/
def emitASTRuntimeLiteral (expression : Expression) : ExprM Operand := do
  let literal ← ofExcept (runtimeLiteralFromAST expression)
  emitRuntimeLiteral literal

mutual

def emitExpression : Expression → ExprM Operand
  | .comma pos left right => withDiagnostic pos do
      let _ ← emitExpression left
      emitExpression right
  | .unary pos operator right => withDiagnostic pos
      (match operator with
        | .void => emitVoidExpression (emitExpression right)
        | .delete => emitDeleteExpression (resolveAssignmentTarget right) (emitExpression right)
        | .bitNot => emitBigIntBitNotExpression right
        | .negate => emitNegateExpression right
        | .positive => emitNumericUnaryExpression .positive right
        | .not => emitBooleanNotExpression right)
  | .update pos operator target isPrefix => withDiagnostic pos
      (emitUpdateExpression operator isPrefix (resolveAssignmentTarget target))
  | .typeof pos value => withDiagnostic pos (emitTypeofExpression (emitExpression value))
  | .conditional pos condition consequent alternative => withDiagnostic pos
      (emitConditionalExpression (emitExpression condition) (emitExpression consequent)
        (emitExpression alternative))
  | .nullishCoalesce pos left right => withDiagnostic pos
      (emitNullishCoalesceExpression (emitExpression left) (emitExpression right))
  | .logical pos operator left right => withDiagnostic pos
      (emitLogicalExpression operator (emitExpression left) (emitExpression right))
  | .binary pos operator left right => withDiagnostic pos
      (emitBinaryExpression operator left right)
  | .comparison pos operator left right => withDiagnostic pos
      (emitComparisonExpression operator left right (emitExpression left) (emitExpression right))
  | .instanceof pos left right => withDiagnostic pos
      (emitBinaryOperands "jayess_value_instanceof" (emitExpression left) (emitExpression right))
  | .objectLiteral pos properties => withDiagnostic pos do
      let object ← emitRuntimeObjectNew
      emitObjectProperties properties object
      return object
  | .arrayLiteral pos elements => withDiagnostic pos do
      let array ← emitRuntimeArrayNew
      emitArrayElements elements array
      return array
  | .member pos target property isPrivate optional => withDiagnostic pos
      (emitMemberExpression target property isPrivate optional (emitExpression target))
  | .index pos target index optional => withDiagnostic pos
      (emitIndexExpression optional (emitExpression target) (emitExpression index))
  | .call pos callee arguments => withDiagnostic pos
      (emitCallExpression callee (runtimeValueArgs arguments)
        (emitCallArguments (emitArguments arguments)))
  | .invoke pos callee arguments optional => withDiagnostic pos
      (if optional then fail "unsupported runtime optional call lowering"
      else match callee with
        | .superExpression _ =>
            emitSuperConstructorCall (emitCallArguments (emitArguments arguments))
        | .member _ target property isPrivate optional =>
            emitMemberInvoke target property isPrivate optional (emitExpression target)
              (runtimeValueArgs arguments) (emitCallArguments (emitArguments arguments))
              (emitThisAndRestArguments arguments) (emitAppliedArgument arguments)
        | callee =>
            emitCallFunction (emitExpression callee) (emitCallArguments (emitArguments arguments)))
  | .newExpression pos callee arguments => withDiagnostic pos
      (emitNewExpression (emitExpression callee) (emitCallArguments (emitArguments arguments)))
  | .thisExpression pos => withDiagnostic pos (emitRuntimeValueCall "jayess_current_this" [])
  | .superExpression pos => withDiagnostic pos (emitRuntimeValueCall "jayess_new_target" [])
  | .newTarget pos => withDiagnostic pos (emitRuntimeValueCall "jayess_new_target" [])
  | .functionExpression pos .. => withDiagnostic pos (emitFunctionExpression pos)
  | .identifier pos name => withDiagnostic pos (loadLocal name)
  | expression => withDiagnostic expression.pos (emitASTRuntimeLiteral expression)

def resolveAssignmentTarget : Expression → ExprM AssignmentTarget
  | .identifier _ name => resolveLocal name
  | .member _ target property isPrivate optional =>
      resolveMember isPrivate optional (emitExpression target) property
  | .index _ target index optional =>
      resolveIndex optional (emitExpression target) (emitExpression index)
  | expression => fail ("unsupported runtime assignment target " ++ expression.goType)

/-- The loop of `emitCallArguments`. -/
def emitArguments : List Expression → Operand → ExprM Unit
  | [], _ => pure ()
  | .spread _ spread :: rest, array => do
      let value ← emitExpression spread
      emitRuntimeArraySpread array value
      emitArguments rest array
  | argument :: rest, array => do
      let value ← emitExpression argument
      emitRuntimeArrayPush array value
      emitArguments rest array

def emitThisAndRestArguments : List Expression → ExprM (Operand × Operand)
  | [] => do
      let thisValue ← emitRuntimeUndefined
      let rest ← emitRuntimeArrayNew
      return (thisValue, rest)
  | first :: arguments => do
      let thisValue ← emitExpression first
      let rest ← emitCallArguments (emitArguments arguments)
      return (thisValue, rest)

/-- The second argument of `apply`, emitted once more. -/
def emitAppliedArgument : List Expression → Option (ExprM Operand)
  | _ :: applied :: _ => some (emitExpression applied)
  | _ => none

def runtimeValueArgs : List Expression → ExprM (List RuntimeCallArg)
  | [] => pure []
  | expression :: rest => do
      let value ← emitExpression expression
      let args ← runtimeValueArgs rest
      return valueArg value :: args

/-- The loop of `emitArrayLiteral`. -/
def emitArrayElements : List (Option Expression) → Operand → ExprM Unit
  | [], _ => pure ()
  | none :: rest, array => do
      emitRuntimeArrayElision array
      emitArrayElements rest array
  | some (.spread _ spread) :: rest, array => do
      let value ← emitExpression spread
      emitRuntimeArraySpread array value
      emitArrayElements rest array
  | some element :: rest, array => do
      let value ← emitExpression element
      emitRuntimeArrayPush array value
      emitArrayElements rest array

/-- The loop of `emitObjectLiteral`. -/
def emitObjectProperties : List ObjectProperty → Operand → ExprM Unit
  | [], _ => pure ()
  | ⟨_, _, value, _, true⟩ :: rest, object => do
      let spread ← emitExpression value
      emitRuntimeObjectSpread object spread
      emitObjectProperties rest object
  | ⟨key, some keyExpr, value, computed, false⟩ :: rest, object => do
      let keyValue ←
        emitPropertyKey "object property" key computed (some (emitExpression keyExpr))
      let propertyValue ← emitExpression value
      emitRuntimePropertyStore object keyValue propertyValue
      emitObjectProperties rest object
  | ⟨key, none, value, computed, false⟩ :: rest, object => do
      let keyValue ← emitPropertyKey "object property" key computed none
      let propertyValue ← emitExpression value
      emitRuntimePropertyStore object keyValue propertyValue
      emitObjectProperties rest object

end

def lowerRuntimeExpressionFunction (name : String) (expression : Expression) :
    Except EmitError (Function × List Declaration × List Global) :=
  if name = "" then
    .error { message := "runtime expression function name must not be empty" }
  else
    match emitExpression expression newExpressionEmitter with
    | .error error => .error error
    | .ok (value, emitter) =>
        .ok ({ name, returnType := runtimeValueIRType, body := emitter.body ++ [.ret value] },
          emitter.declarations, emitter.globals)

end Jayess.Backend
