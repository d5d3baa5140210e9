import Jayess.Lowering.Evaluators

/-! # Calls of functions that are written where they are called -/

namespace Jayess.Lowering

section

variable {α : Type} (ev : Evaluators)

def assignScalar (name : String) (evaluate : Eval α) (value : α → ReturnValue) : Eval Unit := do
  let result ← Eval.probe evaluate
  assign name (value result)

def applyScalarVariableDecl (name : String) (expression : Expression) : Eval Unit :=
  assignScalar name (ev.int expression) .int <|>
  assignScalar name (ev.string expression) .string <|>
  assignScalar name (ev.bigInt expression) .bigInt <|>
  assignScalar name (ev.nullish expression) .nullish <|>
  assignScalar name (ev.bool expression) .bool

def applyReferenceVariableDecl (name : String) (expression : Expression) : Eval Unit :=
  assignScalar name (ev.materializeFunction expression) .function <|>
  assignScalar name (ev.materializeObject expression) .object

def applyVariableDecl (name : String) (value : Option Expression) : Eval Unit := do
  match value with
  | none => pure ()
  | some expression =>
      if name = "" then pure ()
      else
        let _ ← Eval.attempt
          (applyReferenceVariableDecl ev name expression <|>
            applyScalarVariableDecl ev name expression <|> ev.discard expression)

def hoistIIFEVarBinding (name : String) : Eval Unit :=
  leave name fun scope =>
    ((scope.clearBinding name).dropSequences name).store name (.nullish .undefined)

def hoistIIFEFunctionBinding (name : String) : Eval Unit := do
  let identity ← allocateFunctionIdentity
  assignFunctionIdentity name identity

def eachName (act : String → Eval Unit) : List String → Eval Unit
  | [] => pure ()
  | name :: rest => do
      act name
      eachName act rest

def hoistIIFEVarBindings (body : IifeBody) : Eval Unit := do
  eachName hoistIIFEVarBinding body.locals
  eachName hoistIIFEVarBinding body.shadows
  eachName hoistIIFEFunctionBinding body.funcLocals
  eachName hoistIIFEFunctionBinding body.funcShadows

def clearIIFELocals (names : List String) : Eval Unit :=
  eachName (fun name =>
    leave name fun scope => (scope.clearBinding name).dropSequences name) names

def restoreIIFEShadows (names : List String) (source : ReturnScope) : Eval Unit :=
  eachName (fun name => restoreReturnScopeBinding name source) names

def clearIIFEParameters (params : List Parameter) : Eval Unit :=
  eachName clearReturnScopeBinding (params.map parameterName)

def bindIIFESelfName (body : IifeBody) : Eval Unit := do
  if body.selfName = "" ∨ iifeParameterNames body.params body.selfName then pure ()
  else
    let identity ← allocateFunctionIdentity
    assignFunctionIdentity body.selfName identity

def restoreIIFESelfName (body : IifeBody) (source : ReturnScope) : Eval Unit := do
  if body.selfName = "" then pure ()
  else if source.bindingKnown body.selfName then restoreReturnScopeBinding body.selfName source
  else
    leave body.selfName fun scope =>
      (scope.clearBinding body.selfName).dropSequences body.selfName

def evaluateArgumentExpression : Expression → Eval Unit
  | .spread _ value => do
      let _ ← ev.arrayElements value
  | argument => ev.discard argument

def evaluateArgumentList : List Expression → Eval Unit
  | [] => pure ()
  | argument :: rest => do
      evaluateArgumentExpression ev argument
      evaluateArgumentList rest

def canBindIIFEParameter (scope : ReturnScope) : Parameter → Bool
  | ⟨name, some (.name _), false, _⟩ => name ≠ "" && !scope.bindingKnown name
  | _ => false

/-- Whether the parameter takes its default. -/
def bindIIFEParameter : Parameter → Option Expression → Eval Bool
  | ⟨name, _, _, default⟩, none => do
      assign name (.nullish .undefined)
      return default.isSome
  | ⟨name, _, _, none⟩, some argument => do
      applyScalarVariableDecl ev name argument
      return false
  | ⟨name, _, _, some _⟩, some argument => do
      match ← Eval.attempt (Eval.probe (ev.nullish argument)) with
      | some kind => do
          assign name (.nullish kind)
          return kind = .undefined
      | none => do
          applyScalarVariableDecl ev name argument
          return false

/-- The parameters that take their default. -/
def bindIIFEArguments : List Parameter → List Expression → Eval (List Parameter)
  | [], arguments => do
      evaluateArgumentList ev arguments
      return []
  | param :: params, arguments => do
      let needsDefault ← bindIIFEParameter ev param arguments.head?
      let rest ← bindIIFEArguments params arguments.tail
      return if needsDefault then param :: rest else rest

def bindIIFEDefaults : List Parameter → Eval Unit
  | [] => pure ()
  | ⟨name, _, _, some value⟩ :: rest => do
      applyScalarVariableDecl ev name value
      bindIIFEDefaults rest
  | ⟨_, _, _, none⟩ :: _ => failure

/-- The snapshot from which shadowed names are restored. -/
def bindIIFEParameters (body : IifeBody) (arguments : List Expression) : Eval ReturnScope := do
  let before ← Eval.scope
  if body.params.all (canBindIIFEParameter before) then
    let defaults ← bindIIFEArguments ev body.params arguments
    let shadowScope ← Eval.scope
    bindIIFESelfName body
    bindIIFEDefaults ev defaults
    return shadowScope
  else failure

def undefinedLiteral : Expression := .undefinedLiteral ⟨0, 0⟩

def splitReturn : List Statement → List Statement × Expression
  | [] => ([], undefinedLiteral)
  | [.returnStatement _ value] => ([], value.getD undefinedLiteral)
  | statement :: rest => (statement :: (splitReturn rest).1, (splitReturn rest).2)

def functionCallable (name : String) (params : List Parameter) (statements : List Statement)
    (expression : Expression) : IifeBody where
  expression := expression
  selfName := name
  params := params
  statements := statements
  locals := []
  shadows := []
  funcLocals := []
  funcShadows := []

def evaluateFunctionCallableReturnExpression (name : String) (params : List Parameter)
    (body : List Statement) (expressionBody : Option Expression) : Eval IifeBody := do
  match expressionBody with
  | some expression => return functionCallable name params [] expression
  | none =>
      let (statements, expression) := splitReturn body
      let scope ← Eval.scope
      return collectIIFEPrefixBindings statements name params scope
        (functionCallable name params statements expression)

def evaluateCallableReturnExpression : Expression → Eval IifeBody
  | .functionExpression _ name params body expressionBody =>
      evaluateFunctionCallableReturnExpression name params body expressionBody
  | .comma _ left right => afterDiscarding ev left (ev.callable right)
  | .conditional _ condition consequent alternative =>
      conditionally ev condition (ev.callable consequent) (ev.callable alternative)
  | _ => failure

def iifeValue (evaluate : Expression → Eval α) (body : IifeBody) : Eval α := do
  if statementsContainReturn body.statements then failure
  else
    let flow ← ev.nonReturn body.statements
    if flow = nonReturnFlowNone then evaluate body.expression else failure

/-- The names of a body leave scope. -/
def leaveIIFE (body : IifeBody) (shadowScope : ReturnScope) : Eval Unit := do
  clearIIFELocals body.locals
  clearIIFELocals body.funcLocals
  restoreIIFEShadows body.shadows shadowScope
  restoreIIFEShadows body.funcShadows shadowScope
  restoreIIFESelfName body shadowScope
  clearIIFEParameters body.params

/-- The call of a callee, with the evaluator of the kind that is asked for. -/
def evaluateIIFE (evaluate : Expression → Eval α) (callee : Expression)
    (arguments : List Expression) (optional : Bool) : Eval α :=
  Eval.probe do
    if optional then failure
    else
      let body ← ev.callable callee
      let shadowScope ← bindIIFEParameters ev body arguments
      hoistIIFEVarBindings body
      let value ← iifeValue ev evaluate body
      leaveIIFE body shadowScope
      return value

def evaluateIIFEValue (evaluate : Expression → Eval α) : Expression → Eval α
  | .invoke _ callee arguments optional => evaluateIIFE ev evaluate callee arguments optional
  | _ => failure

def evaluateIntIIFEExpression : Expression → Eval Int64 := evaluateIIFEValue ev ev.int

def evaluateStringIIFEExpression : Expression → Eval GoString := evaluateIIFEValue ev ev.string

def evaluateBigIntIIFEExpression : Expression → Eval GoString := evaluateIIFEValue ev ev.bigInt

def evaluateBoolIIFEExpression : Expression → Eval Bool := evaluateIIFEValue ev ev.bool

def evaluateNullishIIFEExpression : Expression → Eval ReturnNullishKind :=
  evaluateIIFEValue ev ev.nullish

def evaluateFunctionIIFEExpression : Expression → Eval Identity :=
  evaluateIIFEValue ev ev.materializeFunction

def evaluateObjectIIFEExpression : Expression → Eval Identity :=
  evaluateIIFEValue ev ev.materializeObject

def evaluateArrayIIFELiteralElements : Expression → Eval (List ReturnValue) :=
  evaluateIIFEValue ev ev.arrayElements

def evaluateObjectIIFELiteralProperties : Expression → Eval (GoString → Option ReturnValue) :=
  evaluateIIFEValue ev ev.objectProperties

def isEmptyFunction (body : List Statement) (expressionBody : Option Expression) : Bool :=
  body.isEmpty && expressionBody.isNone

def evaluateEmptyCallableExpression : Expression → Eval Unit
  | .functionExpression _ _ _ body expressionBody =>
      if isEmptyFunction body expressionBody then pure () else failure
  | .comma _ left right => afterDiscarding ev left (ev.emptyCallable right)
  | .conditional _ condition consequent alternative =>
      conditionally ev condition (ev.emptyCallable consequent) (ev.emptyCallable alternative)
  | _ => failure

def evaluateEmptyConstructorExpression : Expression → Eval Unit
  | .functionExpression _ _ _ body expressionBody =>
      if isEmptyFunction body expressionBody then pure () else failure
  | .comma _ left right => afterDiscarding ev left (ev.emptyConstructor right)
  | .conditional _ condition consequent alternative =>
      conditionally ev condition (ev.emptyConstructor consequent) (ev.emptyConstructor alternative)
  | _ => failure

def evaluateNullishCall (callee : Expression) (arguments : List Expression) (optional : Bool) :
    Eval ReturnNullishKind :=
  (if optional then Eval.probe do
      let _ ← ev.nullish callee
      return .undefined
    else failure) <|>
  Eval.probe do
    ev.emptyCallable callee
    evaluateArgumentList ev arguments
    return .undefined

def evaluateNullishCallExpression : Expression → Eval ReturnNullishKind
  | .invoke _ callee arguments optional => evaluateNullishCall ev callee arguments optional
  | _ => failure

def evaluateEmptyCallExpression (expression : Expression) : Eval Unit := do
  let _ ← evaluateNullishCallExpression ev expression

def evaluateNewObject (callee : Expression) (arguments : List Expression) : Eval Unit :=
  Eval.probe do
    ev.emptyConstructor callee
    evaluateArgumentList ev arguments

def evaluateNewObjectExpression : Expression → Eval Unit
  | .newExpression _ callee arguments => evaluateNewObject ev callee arguments
  | _ => failure

end

end Jayess.Lowering
