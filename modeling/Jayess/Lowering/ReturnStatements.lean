import Jayess.Lowering.ReturnReferences

/-!
# The folding of statements

Statements with a return are run for the value they return, others for their side effects, and the
body of a try statement up to its throw.
-/

namespace Jayess.Lowering

namespace Eval

variable {α : Type}

def onClone (m : Eval (Bool × α)) : Eval α := OptionT.mk fun state =>
  match m.outcome state with
  | (some (true, value), after) => (some value, after)
  | (some (false, value), after) => (some value, { after with scope := state.scope })
  | (none, after) => (none, { after with scope := state.scope })

section OnClone

variable {m : Eval (Bool × α)} {value : α} {state after : Evaluation}

theorem outcome_onClone_kept (hm : m.outcome state = (some (true, value), after)) :
    (onClone m).outcome state = (some value, after) := by
  unfold onClone
  rw [outcome]
  dsimp only [OptionT.run, OptionT.mk]
  rw [hm]

theorem outcome_onClone_dropped (hm : m.outcome state = (some (false, value), after)) :
    (onClone m).outcome state = (some value, { after with scope := state.scope }) := by
  unfold onClone
  rw [outcome]
  dsimp only [OptionT.run, OptionT.mk]
  rw [hm]

theorem outcome_onClone_none (hm : m.outcome state = (none, after)) :
    (onClone m).outcome state = (none, { after with scope := state.scope }) := by
  unfold onClone
  rw [outcome]
  dsimp only [OptionT.run, OptionT.mk]
  rw [hm]

end OnClone

def succeeds (m : Eval α) : Eval Bool := do
  let result ← attempt m
  return result.isSome

end Eval

section

variable {α : Type} (ev : Evaluators)

/-! ## Assignments -/

def applyExpressionStatement (expression : Expression) : Eval Unit := do
  let _ ← Eval.attempt (ev.discard expression)

def identifierOf (name : String) : Expression := .identifier ⟨0, 0⟩ name

def applyScalarAssignment (name : String) (value : Expression) : Eval Unit :=
  assignScalar name (ev.int value) .int <|>
  assignScalar name (ev.string value) .string <|>
  assignScalar name (ev.bigInt value) .bigInt <|>
  assignScalar name (ev.nullish value) .nullish <|>
  assignScalar name (ev.materializeFunction value) .function <|>
  assignScalar name (ev.materializeObject value) .object <|>
  assignScalar name (ev.bool value) .bool

def applyLogicalAssignment (name : String) (operator : AssignmentOperator) (value : Expression) :
    Eval Unit := do
  match operator with
  | .nullishAssign => do
      let scope ← Eval.scope
      if (scope.nullish name).isSome then applyScalarAssignment ev name value
      else if scope.bindingKnown name then pure ()
      else failure
  | .orAssign => do
      let truthy ← ev.bool (identifierOf name)
      if truthy then pure () else applyScalarAssignment ev name value
  | .andAssign => do
      let truthy ← ev.bool (identifierOf name)
      if truthy then applyScalarAssignment ev name value else pure ()
  | _ => failure

def evaluateNumericAssignmentOperand (host : Host) (operator : AssignmentOperator)
    (expression : Expression) : Eval Int64 := do
  if operator = .addAssign then
    refuseString ev expression
    evaluateNumericCoercion host ev expression
  else evaluateNumericCoercion host ev expression

/-- `=` with a value of one kind. -/
def assignPlain (operator : AssignmentOperator) (name : String) (evaluate : Eval α)
    (value : α → ReturnValue) : Eval Unit := do
  if operator = .assign then
    let result ← evaluate
    assign name (value result)
  else failure

def applyIntAssignment (host : Host) (name : String) (operator : AssignmentOperator)
    (value : Expression) : Eval Unit := do
  if operator = .assign then assignPlain operator name (ev.int value) .int
  else
    let scope ← Eval.scope
    let left ← Eval.ofOption (scope.ints name)
    let right ← evaluateNumericAssignmentOperand ev host operator value
    let result ←
      Eval.ofOption (evaluateIntAssignment host.power host.outOfRange operator left right)
    assign name (.int result)

def applyStringAssignment (name : String) (operator : AssignmentOperator) (value : Expression) :
    Eval Unit := do
  if operator = .addAssign then
    let scope ← Eval.scope
    let left ← Eval.ofOption (scope.strings name)
    let right ← evaluateStringCoercion ev value
    assign name (.string (left ++ right))
  else assignPlain operator name (ev.string value) .string

def applyBigIntAssignment (name : String) (operator : AssignmentOperator) (value : Expression) :
    Eval Unit := do
  if operator = .assign then assignPlain operator name (ev.bigInt value) .bigInt
  else
    let binary ← Eval.ofOption (assignmentBigIntBinaryOperator operator)
    let scope ← Eval.scope
    let left ← Eval.ofOption (scope.bigints name)
    let right ← ev.bigInt value
    let result ← Eval.ofOption (evaluateBigIntBinaryValue binary left right)
    assign name (.bigInt result)

def applyNullishAssignment (name : String) (operator : AssignmentOperator) (value : Expression) :
    Eval Unit :=
  assignPlain operator name (ev.nullish value) .nullish

def applyFunctionAssignment (name : String) (operator : AssignmentOperator) (value : Expression) :
    Eval Unit :=
  assignPlain operator name (ev.materializeFunction value) .function

def applyObjectAssignment (name : String) (operator : AssignmentOperator) (value : Expression) :
    Eval Unit :=
  assignPlain operator name (ev.materializeObject value) .object

def applyBoolAssignment (name : String) (operator : AssignmentOperator) (value : Expression) :
    Eval Unit :=
  assignPlain operator name (ev.bool value) .bool

def applyIdentifierAssignment (host : Host) (name : String) (operator : AssignmentOperator)
    (value : Expression) : Eval Unit :=
  Eval.probe (applyLogicalAssignment ev name operator value) <|>
  Eval.probe (applyIntAssignment ev host name operator value) <|>
  Eval.probe (applyStringAssignment ev name operator value) <|>
  Eval.probe (applyBigIntAssignment ev name operator value) <|>
  Eval.probe (applyNullishAssignment ev name operator value) <|>
  Eval.probe (applyFunctionAssignment ev name operator value) <|>
  Eval.probe (applyObjectAssignment ev name operator value) <|>
  Eval.probe (applyBoolAssignment ev name operator value)

def applyReferenceAssignmentStatement (target value : Expression) : Eval Unit :=
  Eval.probe do
    evaluateAssignmentTargetReference ev target
    ev.discard value

def applyAssignmentStatement (host : Host) (operator : AssignmentOperator) (value : Expression) :
    Expression → Eval Unit
  | .identifier _ name => do
      if name = "" then pure ()
      else
        let _ ← Eval.attempt (applyIdentifierAssignment ev host name operator value)
  | target => do
      let _ ← Eval.attempt (applyReferenceAssignmentStatement ev target value)

inductive Folded where
  | returned (value : Int64)
  | handled
  | unhandled

def Folded.isHandled : Folded → Bool
  | returned _ | handled => true
  | unhandled => false

def initStatement : Option Statement → Eval NonReturnFlow
  | some statement => ev.nonReturnStatement statement
  | none => return nonReturnFlowNone

def firstMatch (case : Expression → Eval Bool) : List SwitchCase → Eval (Option (List SwitchCase))
  | [] => return none
  | ⟨test, consequent⟩ :: rest => do
      let found ← Eval.attempt (case test)
      if found = some true then return some (⟨test, consequent⟩ :: rest)
      else firstMatch case rest

def consequents : List SwitchCase → List Statement
  | [] => []
  | ⟨_, consequent⟩ :: rest => consequent ++ consequents rest

/-- The statements from the first case of the discriminant's value on, or the default. -/
def matchingConsequent [DecidableEq α] (evaluate : Expression → Eval α) (value : α)
    (cases : List SwitchCase) (default : List Statement) : Eval (List Statement) := do
  let found ← firstMatch (fun test => do
    let caseValue ← evaluate test
    return caseValue = value) cases
  match found with
  | some matching => return consequents matching ++ default
  | none => if default.isEmpty then failure else return default

/-- A discriminant that one evaluator folds is not tried with another. -/
def matchingSwitchConsequent (discriminant : Expression) (cases : List SwitchCase)
    (default : List Statement) : Eval (List Statement) := do
  match ← Eval.attempt (ev.int discriminant) with
  | some value => matchingConsequent ev.int value cases default
  | none =>
  match ← Eval.attempt (ev.bigInt discriminant) with
  | some value => matchingConsequent ev.bigInt value cases default
  | none =>
  match ← Eval.attempt (ev.nullish discriminant) with
  | some value => matchingConsequent ev.nullish value cases default
  | none =>
  match ← Eval.attempt (ev.string discriminant) with
  | some value => matchingConsequent ev.string value cases default
  | none => do
      let value ← ev.bool discriminant
      matchingConsequent ev.bool value cases default

def returnCodeFromIf (condition : Expression) (consequence alternative : List Statement) :
    Eval Folded := do
  match ← Eval.attempt (ev.bool condition) with
  | none =>
      match ← Eval.attempt (ev.returnCode consequence) with
      | some value => return .returned value
      | none =>
      match ← Eval.attempt (ev.returnCode alternative) with
      | some value => return .returned value
      | none => return .unhandled
  | some value =>
      let branch := if value then consequence else alternative
      match ← Eval.attempt (ev.returnCode branch) with
      | some value => return .returned value
      | none => do
          let _ ← ev.nonReturn branch
          return .handled

def bodyBreaks (body : List Statement) : Eval Unit :=
  Eval.probe do
    let flow ← ev.nonReturn body
    if flow = nonReturnFlowBreak then pure () else failure

def returnCodeFromWhile (condition : Expression) (body : List Statement) : Eval Folded := do
  match ← Eval.attempt (ev.bool condition) with
  | none => return .unhandled
  | some false => return .handled
  | some true =>
      match ← Eval.attempt (ev.returnCode body) with
      | some value => return .returned value
      | none =>
          if ← Eval.succeeds (bodyBreaks ev body) then return .handled else return .unhandled

def returnCodeFromForBody (body : List Statement) : Eval (Bool × Folded) := do
  match ← Eval.attempt (ev.returnCode body) with
  | some value => return (false, .returned value)
  | none =>
      if ← Eval.succeeds (bodyBreaks ev body) then return (true, .handled)
      else return (false, .unhandled)

def returnCodeFromFor (init : Option Statement) (condition : Option Expression)
    (body : List Statement) : Eval Folded :=
  Eval.onClone do
    let _ ← initStatement ev init
    match condition with
    | none => returnCodeFromForBody ev body
    | some condition =>
        match ← Eval.attempt (ev.bool condition) with
        | none => return (true, .unhandled)
        | some false => return (true, .handled)
        | some true => returnCodeFromForBody ev body

def returnCodeFromDoWhile (body : List Statement) (condition : Expression) : Eval Folded := do
  match ← Eval.attempt (ev.returnCode body) with
  | some value => return .returned value
  | none =>
      if statementsContainReturn body then return .unhandled
      else
        Eval.onClone do
          let flow ← ev.nonReturn body
          if flow = nonReturnFlowBreak then return (true, .handled)
          else if flow ≠ nonReturnFlowNone ∧ flow ≠ nonReturnFlowContinue then
            return (false, .unhandled)
          else
            match ← Eval.attempt (ev.bool condition) with
            | some false => return (true, .handled)
            | _ => return (false, .unhandled)

def returnCodeFromSwitchStatements : List Statement → Eval Int64
  | [] => failure
  | .breakStatement .. :: _ => failure
  | .continueStatement .. :: _ => failure
  | statement :: rest => do
      match ← Eval.attempt (ev.returnCode [statement]) with
      | some value => return value
      | none => do
          let flow ← ev.nonReturnStatement statement
          if flow = nonReturnFlowNone then returnCodeFromSwitchStatements rest else failure

def returnCodeFromSwitch (discriminant : Expression) (cases : List SwitchCase)
    (default : List Statement) : Eval Folded := do
  match ← Eval.attempt (matchingSwitchConsequent ev discriminant cases default) with
  | none => return .unhandled
  | some consequent =>
      match ← Eval.attempt (Eval.isolate (returnCodeFromSwitchStatements ev consequent)) with
      | some value => return .returned value
      | none => do
          let _ ← ev.nonReturn consequent
          return .handled

def applyNonReturnLabeled (label : String) (statement : Statement) : Eval NonReturnFlow := do
  let flow ← ev.nonReturnStatement statement
  return if flow.label = label then nonReturnFlowNone else flow

def returnCodeFromLabeled (label : String) (statement : Statement) : Eval Folded := do
  match ← Eval.attempt (ev.returnCode [statement]) with
  | some value => return .returned value
  | none =>
      if statementContainsReturn statement then return .unhandled
      else if ← Eval.succeeds (ev.labeledBreakStatement statement label) then return .handled
      else
        let flow ← applyNonReturnLabeled ev label statement
        return if flow = nonReturnFlowNone then .handled else .unhandled

def whileBlocksFollowing (condition : Expression) : Eval Bool := do
  let value ← Eval.attempt (ev.bool condition)
  return value = some true

def forBlocksFollowing (init : Option Statement) (condition : Option Expression) : Eval Bool := do
  match condition with
  | none => return true
  | some condition =>
      Eval.isolate do
        let _ ← initStatement ev init
        let value ← Eval.attempt (ev.bool condition)
        return value = some true

def doWhileBlocksFollowing (body : List Statement) (condition : Expression) : Eval Bool :=
  Eval.isolate do
    let flow ← ev.nonReturn body
    if flow ≠ nonReturnFlowNone ∧ flow ≠ nonReturnFlowContinue then return false
    else
      let value ← Eval.attempt (ev.bool condition)
      return value = some true

def applyNonReturnIf (condition : Expression) (consequence alternative : List Statement) :
    Eval NonReturnFlow := do
  match ← Eval.attempt (ev.bool condition) with
  | none => return nonReturnFlowNone
  | some true => ev.nonReturn consequence
  | some false => ev.nonReturn alternative

def applyLoopLabeledFlow (body : List Statement) : Eval NonReturnFlow :=
  Eval.onClone do
    let flow ← ev.nonReturn body
    if flow.label = "" then return (false, nonReturnFlowNone) else return (true, flow)

def applyNonReturnWhile (condition : Expression) (body : List Statement) : Eval NonReturnFlow := do
  let folded ← returnCodeFromWhile ev condition body
  if folded.isHandled then return nonReturnFlowNone
  else
    match ← Eval.attempt (ev.bool condition) with
    | some true => applyLoopLabeledFlow ev body
    | _ => return nonReturnFlowNone

def applyNonReturnForBody (body : List Statement) : Eval (Bool × NonReturnFlow) := do
  let flow ← applyLoopLabeledFlow ev body
  return (flow ≠ nonReturnFlowNone, flow)

def applyNonReturnFor (init : Option Statement) (condition : Option Expression)
    (body : List Statement) : Eval NonReturnFlow := do
  let folded ← returnCodeFromFor ev init condition body
  if folded.isHandled then return nonReturnFlowNone
  else
    Eval.onClone do
      let _ ← initStatement ev init
      match condition with
      | none => applyNonReturnForBody ev body
      | some condition =>
          match ← Eval.attempt (ev.bool condition) with
          | none => return (true, nonReturnFlowNone)
          | some false => return (false, nonReturnFlowNone)
          | some true => applyNonReturnForBody ev body

def applyNonReturnDoWhile (body : List Statement) (condition : Expression) :
    Eval NonReturnFlow := do
  let folded ← returnCodeFromDoWhile ev body condition
  if folded.isHandled then return nonReturnFlowNone
  else applyLoopLabeledFlow ev body

def applyNonReturnSwitch (discriminant : Expression) (cases : List SwitchCase)
    (default : List Statement) : Eval NonReturnFlow := do
  match ← Eval.attempt (matchingSwitchConsequent ev discriminant cases default) with
  | none => return nonReturnFlowNone
  | some consequent => do
      let flow ← ev.nonReturn consequent
      return if flow = nonReturnFlowBreak then nonReturnFlowNone else flow

/-- The catch clause is not looked at: nothing in the statement throws. -/
def applyNonReturnTry (tryBody : List Statement) (catchBody finallyBody : List Statement) :
    Eval NonReturnFlow := do
  if statementsContainReturn tryBody || statementsContainReturn catchBody ||
      statementsContainReturn finallyBody then return nonReturnFlowNone
  else
    let tryFlow ← ev.nonReturn tryBody
    let finallyFlow ← ev.nonReturn finallyBody
    return if finallyFlow ≠ nonReturnFlowNone then finallyFlow else tryFlow

def applyNonReturnStatement (host : Host) : Statement → Eval NonReturnFlow
  | .variableDecl _ _ name _ value => do
      applyVariableDecl ev name value
      return nonReturnFlowNone
  | .assignment _ target operator value => do
      applyAssignmentStatement ev host operator value target
      return nonReturnFlowNone
  | .expressionStatement _ expression => do
      applyExpressionStatement ev expression
      return nonReturnFlowNone
  | .block _ statements => ev.nonReturn statements
  | .ifStatement _ condition consequence alternative =>
      applyNonReturnIf ev condition consequence alternative
  | .switchStatement _ discriminant cases default =>
      applyNonReturnSwitch ev discriminant cases default
  | .whileStatement _ condition body => applyNonReturnWhile ev condition body
  | .forStatement _ init condition _ body => applyNonReturnFor ev init condition body
  | .doWhileStatement _ body condition => applyNonReturnDoWhile ev body condition
  | .tryStatement _ tryBody _ catchBody finallyBody =>
      applyNonReturnTry ev tryBody catchBody finallyBody
  | .labeledStatement _ label statement => applyNonReturnLabeled ev label statement
  | .breakStatement _ label => return ⟨.break, label⟩
  | .continueStatement _ label => return ⟨.continue, label⟩
  | _ => return nonReturnFlowNone

def applyNonReturnStatements : List Statement → Eval NonReturnFlow
  | [] => return nonReturnFlowNone
  | .breakStatement _ label :: _ => return ⟨.break, label⟩
  | .continueStatement _ label :: _ => return ⟨.continue, label⟩
  | statement :: rest => do
      let flow ← ev.nonReturnStatement statement
      if flow = nonReturnFlowNone then applyNonReturnStatements rest else return flow

def applyLabeledBreakScopedStatements (statements : List Statement) (label : String) : Eval Unit :=
  Eval.probe (ev.labeledBreak statements label)

def applyLabeledBreakIf (condition : Expression) (consequence alternative : List Statement)
    (label : String) : Eval Unit := do
  let value ← ev.bool condition
  applyLabeledBreakScopedStatements ev (if value then consequence else alternative) label

def applyLabeledBreakSwitch (discriminant : Expression) (cases : List SwitchCase)
    (default : List Statement) (label : String) : Eval Unit := do
  let consequent ← matchingSwitchConsequent ev discriminant cases default
  applyLabeledBreakScopedStatements ev consequent label

def applyLabeledBreakWhile (condition : Expression) (body : List Statement) (label : String) :
    Eval Unit := do
  let value ← ev.bool condition
  if value then applyLabeledBreakScopedStatements ev body label else failure

def applyLabeledBreakFor (init : Option Statement) (condition : Option Expression)
    (body : List Statement) (label : String) : Eval Unit :=
  Eval.probe do
    let _ ← initStatement ev init
    match condition with
    | none => ev.labeledBreak body label
    | some condition => do
        let value ← ev.bool condition
        if value then ev.labeledBreak body label else failure

def applyLabeledBreakStatement (statement : Statement) (label : String) : Eval Unit :=
  match statement with
  | .breakStatement _ target => if target = label then pure () else failure
  | .block _ statements => applyLabeledBreakScopedStatements ev statements label
  | .ifStatement _ condition consequence alternative =>
      applyLabeledBreakIf ev condition consequence alternative label
  | .switchStatement _ discriminant cases default =>
      applyLabeledBreakSwitch ev discriminant cases default label
  | .whileStatement _ condition body => applyLabeledBreakWhile ev condition body label
  | .forStatement _ init condition _ body => applyLabeledBreakFor ev init condition body label
  | .doWhileStatement _ body _ => applyLabeledBreakScopedStatements ev body label
  | .labeledStatement _ inner statement =>
      if inner = label then failure
      else Eval.probe (ev.labeledBreakStatement statement label)
  | _ => failure

def applyLabeledBreakStatements (label : String) : List Statement → Eval Unit
  | [] => failure
  | statement :: rest => do
      if ← Eval.succeeds (ev.labeledBreakStatement statement label) then pure ()
      else
        let flow ← ev.nonReturnStatement statement
        if flow = nonReturnFlowNone then applyLabeledBreakStatements label rest else failure

/-! ## Try statements -/

def withCatchBindingScope (catchPattern : Option BindingPattern) (evaluate : Eval α) : Eval α := do
  let beforeCatch ← Eval.scope
  eachName clearReturnScopeBinding (patternNames catchPattern)
  let result ← Eval.attempt evaluate
  eachName (fun name => restoreReturnScopeBinding name beforeCatch) (patternNames catchPattern)
  Eval.ofOption result

def tryHasCatch (catchPattern : Option BindingPattern) (catchBody : List Statement) : Bool :=
  !catchBody.isEmpty || catchPattern.isSome

def tryBodyUntilThrowFlow : List Statement → Eval TryThrowFlow
  | [] => return .none
  | statement :: rest => do
      let flow ← ev.tryStatement statement
      if flow = .none then tryBodyUntilThrowFlow rest else return flow

def tryIf (condition : Expression) (consequence alternative : List Statement) :
    Eval TryThrowFlow := do
  match ← Eval.attempt (ev.bool condition) with
  | none => return .stop
  | some true => ev.tryBody consequence
  | some false => ev.tryBody alternative

def trySwitch (discriminant : Expression) (cases : List SwitchCase) (default : List Statement) :
    Eval TryThrowFlow := do
  match ← Eval.attempt (matchingSwitchConsequent ev discriminant cases default) with
  | none => return .stop
  | some consequent => ev.tryBody consequent

def tryWhile (condition : Expression) (body : List Statement) : Eval TryThrowFlow := do
  match ← Eval.attempt (ev.bool condition) with
  | none => return .stop
  | some false => return .none
  | some true => ev.tryBody body

def tryForBody (body : List Statement) : Eval (Bool × TryThrowFlow) := do
  let flow ← ev.tryBody body
  return if flow = .throw then (true, .throw) else (false, .stop)

def tryFor (init : Option Statement) (condition : Option Expression) (body : List Statement) :
    Eval TryThrowFlow :=
  Eval.onClone do
    let _ ← initStatement ev init
    match condition with
    | none => tryForBody ev body
    | some condition =>
        match ← Eval.attempt (ev.bool condition) with
        | none => return (false, .stop)
        | some false => return (true, .none)
        | some true => tryForBody ev body

def nestedCatchFlow (tryFlow : TryThrowFlow) (catchPattern : Option BindingPattern)
    (catchBody : List Statement) : Eval TryThrowFlow :=
  if tryFlow = .throw ∧ tryHasCatch catchPattern catchBody then
    withCatchBindingScope catchPattern (ev.tryBody catchBody)
  else return tryFlow

/-- Whether a nested try statement throws in the end. -/
def applyNestedTryUntilThrow (tryBody : List Statement) (catchPattern : Option BindingPattern)
    (catchBody finallyBody : List Statement) : Eval Bool := do
  let tryFlow ← ev.tryBody tryBody
  if tryFlow = .stop then return false
  else
    let catchFlow ← nestedCatchFlow ev tryFlow catchPattern catchBody
    if catchFlow = .stop then return false
    else
      let finallyFlow ← ev.tryBody finallyBody
      return finallyFlow = .throw || (finallyFlow = .none && catchFlow = .throw)

def applyTryStatementUntilThrow (statement : Statement) : Eval TryThrowFlow :=
  match statement with
  | .throwStatement .. => return .throw
  | .block _ statements => ev.tryBody statements
  | .ifStatement _ condition consequence alternative =>
      tryIf ev condition consequence alternative
  | .switchStatement _ discriminant cases default => trySwitch ev discriminant cases default
  | .whileStatement _ condition body => tryWhile ev condition body
  | .forStatement _ init condition _ body => tryFor ev init condition body
  | .doWhileStatement _ body _ => ev.tryBody body
  | .labeledStatement _ _ statement => ev.tryStatement statement
  | .tryStatement _ tryBody catchPattern catchBody finallyBody =>
      Eval.onClone do
        let throws ← applyNestedTryUntilThrow ev tryBody catchPattern catchBody finallyBody
        return if throws then (true, .throw) else (false, .stop)
  | statement => do
      if statementContainsReturn statement then return .stop
      else
        let flow ← ev.nonReturnStatement statement
        return if flow = nonReturnFlowNone then .none else .stop

/-- The flow of a try statement, or none where it is not folded. -/
def applyTrySideEffects (tryBody : List Statement) (catchPattern : Option BindingPattern)
    (catchBody finallyBody : List Statement) : Eval (Option NonReturnFlow) := do
  if !(statementsContainReturn tryBody || statementsContainReturn catchBody ||
      statementsContainReturn finallyBody) then
    let flow ← applyNonReturnTry ev tryBody catchBody finallyBody
    return some flow
  else
    Eval.onClone do
      let tryFlow ← ev.tryBody tryBody
      if tryFlow ≠ .throw ∨ !tryHasCatch catchPattern catchBody ∨
          statementsContainReturn catchBody ∨ statementsContainReturn finallyBody then
        return (false, none)
      else
        let catchFlow ← withCatchBindingScope catchPattern (ev.nonReturn catchBody)
        let finallyFlow ← ev.nonReturn finallyBody
        return (true, some (if finallyFlow ≠ nonReturnFlowNone then finallyFlow else catchFlow))

inductive ReturnStep where
  | continues
  | returns (value : Int64)
  | fails

def foldedStep (folded : Folded) (blocks : Eval Bool) : Eval ReturnStep :=
  match folded with
  | .returned value => return .returns value
  | .handled => return .continues
  | .unhandled => do
      let blocked ← blocks
      return if blocked then .fails else .continues

def loopBlocks (blocks : Eval Bool) (body : List Statement) : Eval Bool := do
  let blocked ← blocks
  return blocked || statementsContainReturn body

def returnStep (host : Host) : Statement → Eval ReturnStep
  | .variableDecl _ _ name _ value => do
      applyVariableDecl ev name value
      return .continues
  | .assignment _ target operator value => do
      applyAssignmentStatement ev host operator value target
      return .continues
  | .expressionStatement _ expression => do
      applyExpressionStatement ev expression
      return .continues
  | .returnStatement _ none => return .returns 0
  | .returnStatement _ (some value) => do
      match ← Eval.attempt (ev.int value) with
      | some value => return .returns value
      | none => return .fails
  | .throwStatement .. => return .fails
  | .block _ statements => do
      match ← Eval.attempt (ev.returnCode statements) with
      | some value => return .returns value
      | none =>
          if statementsContainReturn statements then return .fails
          else
            let _ ← ev.nonReturn statements
            return .continues
  | .labeledStatement _ label statement => do
      let folded ← returnCodeFromLabeled ev label statement
      foldedStep folded (return statementContainsReturn statement)
  | .ifStatement _ condition consequence alternative => do
      let folded ← returnCodeFromIf ev condition consequence alternative
      foldedStep folded
        (return statementsContainReturn consequence || statementsContainReturn alternative)
  | .whileStatement _ condition body => do
      let folded ← returnCodeFromWhile ev condition body
      foldedStep folded (loopBlocks (whileBlocksFollowing ev condition) body)
  | .forStatement _ init condition _ body => do
      let folded ← returnCodeFromFor ev init condition body
      foldedStep folded (loopBlocks (forBlocksFollowing ev init condition) body)
  | .doWhileStatement _ body condition => do
      let folded ← returnCodeFromDoWhile ev body condition
      foldedStep folded (loopBlocks (doWhileBlocksFollowing ev body condition) body)
  | .switchStatement _ discriminant cases default => do
      let folded ← returnCodeFromSwitch ev discriminant cases default
      foldedStep folded (return statementsContainReturn default || casesContainReturn cases)
  | .tryStatement _ tryBody catchPattern catchBody finallyBody => do
      match ← applyTrySideEffects ev tryBody catchPattern catchBody finallyBody with
      | some flow => return if flow = nonReturnFlowNone then .continues else .fails
      | none =>
          return if statementsContainReturn tryBody || statementsContainReturn catchBody ||
            statementsContainReturn finallyBody then .fails else .continues
  | _ => return .continues

def returnCodeLoop (host : Host) : List Statement → Eval Int64
  | [] => failure
  | statement :: rest => do
      match ← returnStep ev host statement with
      | .continues => returnCodeLoop host rest
      | .returns value => return value
      | .fails => failure

def returnCodeFromStatements (host : Host) (statements : List Statement) : Eval Int64 :=
  Eval.isolate (returnCodeLoop ev host statements)

end

/-- The evaluators whose calls on parts go to the given ones. -/
def evaluatorsOver (host : Host) (ev : Evaluators) : Evaluators where
  int := evaluateIntExpression host ev
  string := evaluateStringExpression host ev
  bigInt := evaluateBigIntValue ev
  bool := evaluateBoolExpression host ev
  boolValue := evaluateBoolValue host ev
  nullish := evaluateNullishExpression ev
  discard := evaluateDiscardExpression ev
  functionIdentity := evaluateFunctionIdentity ev
  objectIdentity := evaluateObjectIdentity ev
  materializeFunction := materializeFunctionIdentity ev
  materializeObject := materializeObjectIdentity ev
  functionReference := evaluateFunctionReferenceExpression ev
  objectReference := evaluateObjectReferenceExpression ev
  arrayElements := evaluateArrayLiteralElements ev
  objectProperties := evaluateObjectLiteralProperties host ev
  callable := evaluateCallableReturnExpression ev
  emptyCallable := evaluateEmptyCallableExpression ev
  emptyConstructor := evaluateEmptyConstructorExpression ev
  returnCode := returnCodeFromStatements ev host
  nonReturn := applyNonReturnStatements ev
  nonReturnStatement := applyNonReturnStatement ev host
  tryBody := tryBodyUntilThrowFlow ev
  tryStatement := applyTryStatementUntilThrow ev
  labeledBreak statements label := applyLabeledBreakStatements ev label statements
  labeledBreakStatement := applyLabeledBreakStatement ev

def failingEvaluators : Evaluators where
  int _ := failure
  string _ := failure
  bigInt _ := failure
  bool _ := failure
  boolValue _ := failure
  nullish _ := failure
  discard _ := failure
  functionIdentity _ := failure
  objectIdentity _ := failure
  materializeFunction _ := failure
  materializeObject _ := failure
  functionReference _ := failure
  objectReference _ := failure
  arrayElements _ := failure
  objectProperties _ := failure
  callable _ := failure
  emptyCallable _ := failure
  emptyConstructor _ := failure
  returnCode _ := failure
  nonReturn _ := failure
  nonReturnStatement _ := failure
  tryBody _ := failure
  tryStatement _ := failure
  labeledBreak _ _ := failure
  labeledBreakStatement _ _ := failure

/-- The evaluators with calls nested at most to the given depth. -/
def evaluators (host : Host) : ℕ → Evaluators
  | 0 => failingEvaluators
  | depth + 1 => evaluatorsOver host (evaluators host depth)

/-- The body of the function `main`, or the program itself. -/
def mainStatements (program : List Statement) : List Statement → List Statement
  | [] => program
  | .functionDecl _ "main" _ body :: _ => body
  | _ :: rest => mainStatements program rest

def initialEvaluation : Evaluation where
  scope := .empty
  allocations := 0
  reached := [.empty]
  left := []
  compared := []

/-- `MainReturnCode`, with the state its run leaves. -/
def mainReturnCode (host : Host) (depth : ℕ) (program : List Statement) :
    Option Int64 × Evaluation :=
  ((evaluators host depth).returnCode (mainStatements program program)).outcome initialEvaluation

end Jayess.Lowering
