import Jayess.Backend.StatementState

/-!
# The statement emitter

`EmitStatement`, the constructs it dispatches to, and the lowering of a whole statement list.
-/

namespace Jayess.Backend

open Lifetime (Plan)

/-! ## Destructuring -/

def bindingName : Option BindingPattern → Option String
  | some (.name name) => if name = "" then none else some name
  | _ => none

def emitRuntimeArrayIndex (source : Operand) (index : Nat) : ExprM Operand := do
  let fallback ← emitRuntimeUndefined
  emitRuntimeValueCall "jayess_destructure_array_index"
    [valueArg source, ⟨"i32", .int index⟩, valueArg fallback]

def emitRuntimeArrayRest (source : Operand) (start : Nat) : ExprM Operand :=
  emitRuntimeValueCall "jayess_destructure_array_rest" [valueArg source, ⟨"i32", .int start⟩]

def emitRuntimeObjectRest (source : Operand) : ExprM Operand :=
  emitRuntimeUnaryValue "jayess_destructure_object_rest" source

def emitRuntimePropertyDestructure (source key : Operand) : ExprM Operand := do
  let fallback ← emitRuntimeUndefined
  emitRuntimeValueCall "jayess_destructure_property"
    [valueArg source, valueArg key, valueArg fallback]

mutual

def declareBindingTargets : Option BindingPattern → Operand → ExprM Unit
  | none, _ => pure ()
  | some pattern, value => declarePatternTargets pattern value

def declarePatternTargets : BindingPattern → Operand → ExprM Unit
  | .name name, value => declareLocal name value
  | .default pattern _, value => declareBindingTargets pattern value
  | .rest pattern, value => declareBindingTargets pattern value
  | .array elements, value => declareElementTargets elements value
  | .object properties, value => declarePropertyTargets properties value

def declareElementTargets : List (Option BindingPattern) → Operand → ExprM Unit
  | [], _ => pure ()
  | element :: rest, value => do
      declareBindingTargets element value
      declareElementTargets rest value

def declarePropertyTargets : List ObjectBindingProperty → Operand → ExprM Unit
  | [], _ => pure ()
  | ⟨_, _, pattern, _, _⟩ :: rest, value => do
      declareBindingTargets pattern value
      declarePropertyTargets rest value

end

def emitArrayPart (element : BindingPattern) (source : Operand) (index : Nat) : ExprM Operand :=
  match element with
  | .rest _ => emitRuntimeArrayRest source index
  | _ => emitRuntimeArrayIndex source index

def emitObjectPart (key : String) (keyExpr : Option Expression) (computed isRest : Bool)
    (source : Operand) : ExprM Operand :=
  if isRest then emitRuntimeObjectRest source
  else do
    let key ← emitPropertyKey "object binding" key computed (keyExpr.map emitExpression)
    emitRuntimePropertyDestructure source key

mutual

def emitDestructureToPattern : Option BindingPattern → Operand → ExprM Unit
  | none, _ => pure ()
  | some pattern, source => emitDestructure pattern source

def emitDestructure : BindingPattern → Operand → ExprM Unit
  | .name name, source => do
      let target ← resolveLocal name
      target.store source
  | .default pattern value, source => do
      let fallback ← emitExpression value
      let value ← emitRuntimeBinaryValue "jayess_destructure_default" source fallback
      emitDestructureToPattern pattern value
  | .rest pattern, source => emitDestructureToPattern pattern source
  | .array elements, source => emitArrayDestructure elements source 0
  | .object properties, source => emitObjectDestructure properties source

/-- `emitArrayDestructure`, from an element index on; a rest element stands for its pattern. -/
def emitArrayDestructure : List (Option BindingPattern) → Operand → Nat → ExprM Unit
  | [], _, _ => pure ()
  | none :: rest, source, index => emitArrayDestructure rest source (index + 1)
  | some element :: rest, source, index => do
      let value ← emitArrayPart element source index
      emitDestructure element value
      emitArrayDestructure rest source (index + 1)

def emitObjectDestructure : List ObjectBindingProperty → Operand → ExprM Unit
  | [], _ => pure ()
  | ⟨key, keyExpr, pattern, computed, isRest⟩ :: rest, source => do
      let value ← emitObjectPart key keyExpr computed isRest source
      emitDestructureToPattern pattern value
      emitObjectDestructure rest source

end

def registerDeclarationLifetime (pos : SourcePos) (pattern : Option BindingPattern) :
    StmtM Unit := do
  let emitter ← get
  match emitter.lifetimePlan with
  | none => pure ()
  | some plan => registerLifetimes plan pos (bindingNames emitter.mapOrder pattern)

def emitPatternSource (value : Operand) : ExprM Operand :=
  if value = .undef then emitRuntimeUndefined else pure value

def emitBindingDeclaration (pattern : Option BindingPattern) (value : Operand) : ExprM Unit :=
  match bindingName pattern with
  | some name => declareLocal name value
  | none => do
      let value ← emitPatternSource value
      declareBindingTargets pattern .undef
      emitDestructureToPattern pattern value

def emitOptionalValue (value : Option Expression) : ExprM Operand :=
  match value with
  | some value => emitExpression value
  | none => pure .undef

def emitVariableDeclaration (pos : SourcePos) (pattern : Option BindingPattern)
    (value : Option Expression) : StmtM Unit := do
  let value ← expr (emitOptionalValue value)
  expr (emitBindingDeclaration pattern value)
  registerDeclarationLifetime pos pattern

/-! ## Functions, classes and modules -/

def emitFunctionDeclaration (name : String) : ExprM Unit := do
  if name = "" then fail "runtime function declaration must have a name"
  let value ← emitRuntimeFunctionNew
  declareLocal name value

def emitFunctionCall (symbol : String) (args : Operand → List RuntimeCallArg) : ExprM Unit := do
  let function ← emitRuntimeFunctionNew
  emitRuntimeVoidCall symbol (args function)

def emitFieldValue (value : Option Expression) : ExprM Operand :=
  match value with
  | some value => emitExpression value
  | none => emitRuntimeUndefined

def emitClassField (classValue key : Operand) (value : Option Expression)
    (isPrivate isStatic : Bool) : ExprM Unit := do
  let value ← emitFieldValue value
  let symbol :=
    if isPrivate then "jayess_class_define_private_field"
    else if isStatic then "jayess_class_define_static_field"
    else "jayess_class_define_field"
  emitRuntimeVoidCall symbol [valueArg classValue, valueArg key, valueArg value]

/-- `emitClassAccessorFunctions` and the call that defines the accessor. -/
def emitClassAccessor (classValue key : Operand) (getter : Bool) : ExprM Unit := do
  let missing ← emitRuntimeUndefined
  emitFunctionCall "jayess_class_define_accessor" fun function =>
    if getter then [valueArg classValue, valueArg key, valueArg function, valueArg missing]
    else [valueArg classValue, valueArg key, valueArg missing, valueArg function]

/-- `emitClassMember` after the key. -/
def emitKeyedMember (classValue key : Operand) (value : Option Expression)
    (field getter setter isPrivate isStatic : Bool) : ExprM Unit :=
  if field then emitClassField classValue key value isPrivate isStatic
  else if getter || setter then emitClassAccessor classValue key getter
  else
    let symbol :=
      if isPrivate then "jayess_class_define_private_method" else "jayess_class_define_method"
    emitFunctionCall symbol fun method => [valueArg classValue, valueArg key, valueArg method]

def emitClassMember (classValue : Operand) : ClassMember → ExprM Unit
  | ⟨name, keyExpr, _, _, value, computed, staticBlock, isConstructor, field, getter, setter,
      isPrivate, isStatic⟩ =>
    if isConstructor then
      emitFunctionCall "jayess_class_define_constructor" fun constructor =>
        [valueArg classValue, valueArg constructor]
    else if staticBlock then
      emitFunctionCall "jayess_class_define_static_block" fun block =>
        [valueArg classValue, valueArg block]
    else do
      let key ← emitPropertyKey "class member" name computed (keyExpr.map emitExpression)
      emitKeyedMember classValue key value field getter setter isPrivate isStatic

def emitClassBase (base : Operand) (superClass : Option Expression) : ExprM Operand :=
  match superClass with
  | some superClass => do
      let superValue ← emitExpression superClass
      emitRuntimeBinaryValue "jayess_class_extends" base superValue
  | none => pure base

def emitClassDeclaration (name : String) (superClass : Option Expression)
    (members : List ClassMember) : ExprM Unit := do
  if name = "" then fail "runtime class declaration must have a name"
  let nameValue ← emitRuntimeString name
  let base ← emitRuntimeValueCall "jayess_class_new" [valueArg nameValue]
  let classValue ← emitClassBase base superClass
  declareLocal name classValue
  members.forM (emitClassMember classValue)
  emitRuntimeVoidCall "jayess_class_run_static_blocks" [valueArg classValue]

/-- `strings.ToLower` on the characters that can end a path in `.bind.js`. -/
def lowerChar (ch : Char) : Char := if ch = 'İ' then 'i' else ch.toLower

def isBindingModulePath (path : String) : Bool :=
  ".bind.js".toList.isSuffixOf (path.toList.map lowerChar)

def importedName (specifier : ImportSpecifier) : String :=
  if specifier.isNamespace then "*"
  else if specifier.isDefault then "default"
  else specifier.imported

def importedLocalName (specifier : ImportSpecifier) : String :=
  if specifier.localName ≠ "" then specifier.localName else importedName specifier

def runtimeStringArgs (values : List String) : ExprM (List RuntimeCallArg) :=
  values.mapM fun value => do
    let lowered ← emitRuntimeString value
    return valueArg lowered

def emitRuntimeStringValueCall (symbol : String) (values : List String) : ExprM Operand := do
  let args ← runtimeStringArgs values
  emitRuntimeValueCall symbol args

def emitRuntimeStringVoidCall (symbol : String) (values : List String) : ExprM Unit := do
  let args ← runtimeStringArgs values
  emitRuntimeVoidCall symbol args

def emitModuleInitialize (source : String) : ExprM Unit :=
  emitRuntimeStringVoidCall "jayess_module_initialize" [source]

def emitImportedBinding (source : String) (specifier : ImportSpecifier) : ExprM Operand :=
  let symbol :=
    if isBindingModulePath source then "jayess_native_binding_wrapper"
    else if specifier.isNamespace then "jayess_module_import_namespace"
    else if specifier.isDefault then "jayess_module_import_default"
    else "jayess_module_import_binding"
  emitRuntimeStringValueCall symbol
    [source, importedName specifier, importedLocalName specifier]

/-- Records what a local name stands for in the standard library, if it does. -/
def registerStdlibImport (source : String) (specifier : ImportSpecifier) : ExprM Unit :=
  match stdlibBindingForImport source specifier with
  | some binding =>
      if specifier.isNamespace then
        registerStdlibNamespace (importedLocalName specifier) binding.moduleName
      else registerStdlibBinding (importedLocalName specifier) binding
  | none => pure ()

/-- The loop of `emitImportDeclaration`. -/
def emitImportSpecifier (source : String) (specifier : ImportSpecifier) : ExprM Unit := do
  registerStdlibImport source specifier
  let value ← emitImportedBinding source specifier
  if importedLocalName specifier ≠ "" then declareLocal (importedLocalName specifier) value

def emitImportDeclaration (source : String) (specifiers : List ImportSpecifier)
    (sideEffect : Bool) : ExprM Unit := do
  emitModuleInitialize source
  unless sideEffect do
    specifiers.forM (emitImportSpecifier source)

def exportedName (localName exported : String) : String :=
  if exported = "" then localName else exported

def emitModuleExportBinding (localName exported : String) : ExprM Unit :=
  if localName = "" ∨ exportedName localName exported = "" then pure ()
  else
    emitRuntimeStringVoidCall "jayess_module_export_binding"
      [localName, exportedName localName exported]

def emitModuleExportValue (exported : String) (value : Operand) : ExprM Unit := do
  let exportedValue ← emitRuntimeString exported
  emitRuntimeVoidCall "jayess_module_export_value" [valueArg exportedValue, valueArg value]

def emitModuleReexport (symbol source : String) (names : List String) : ExprM Unit := do
  emitModuleInitialize source
  emitRuntimeStringVoidCall symbol (source :: names)

def exportDeclarationLocalNames : Option Statement → List String
  | some (.variableDecl _ _ name pattern _) => if name ≠ "" then [name] else patternNames pattern
  | some (.functionDecl _ name ..) | some (.classDecl _ name ..) => if name ≠ "" then [name] else []
  | _ => []

def emitExportSpecifier (source : String) (specifier : ExportSpecifier) : ExprM Unit :=
  if source ≠ "" then
    emitModuleReexport "jayess_module_reexport_binding" source
      [specifier.localName, specifier.exported]
  else emitModuleExportBinding specifier.localName specifier.exported

def emitDeclarationExports (declaration : Option Statement) (isDefault : Bool) : ExprM Unit :=
  (exportDeclarationLocalNames declaration).forM fun localName =>
    emitModuleExportBinding localName (if isDefault then "default" else localName)

def emitDefaultExport (value : Expression) : ExprM Unit := do
  let emitted ← emitExpression value
  emitModuleExportValue "default" emitted

/-- `emitExportDeclaration` after the exported declaration itself. -/
def emitExports (declaration : Option Statement) (value : Option Expression)
    (specifiers : List ExportSpecifier) (source : String) (isDefault all : Bool)
    (namespaceName : String) : ExprM Unit :=
  match value with
  | some value => emitDefaultExport value
  | none =>
    if all then emitModuleReexport "jayess_module_reexport_all" source []
    else if namespaceName ≠ "" then
      emitModuleReexport "jayess_module_reexport_namespace" source [namespaceName]
    else if specifiers.isEmpty then emitDeclarationExports declaration isDefault
    else specifiers.forM (emitExportSpecifier source)

def emitExportDeclaration (emitDeclaration : StmtM Unit) (declaration : Option Statement)
    (value : Option Expression) (specifiers : List ExportSpecifier) (source : String)
    (isDefault all : Bool) (namespaceName : String) : StmtM Unit := do
  emitDeclaration
  expr (emitExports declaration value specifiers source isDefault all namespaceName)

def emitAssignmentStatement (target : Expression) (operator : AssignmentOperator)
    (value : Expression) : ExprM Unit := do
  if operator ≠ .assign then fail ("unsupported runtime assignment operator " ++ operator.text)
  let target ← resolveAssignmentTarget target
  let value ← emitExpression value
  target.store value

/-! ## Branches and loops -/

def CapturedStatements.thenBranch (captured : CapturedStatements) (target : BlockLabel) :
    List Line :=
  if captured.returns then captured.lines else captured.lines ++ [.br target]

def emitCondition (condition : Expression) : ExprM Operand := do
  let value ← emitExpression condition
  emitTruthiness value

def emitIfStatement (condition : Expression) (emitConsequence emitAlternative : StmtM Unit) :
    StmtM Unit := do
  let condition ← expr (emitCondition condition)
  let thenLabel ← expr (nextBlockLabel "if.then")
  let elseLabel ← expr (nextBlockLabel "if.else")
  let endLabel ← expr (nextBlockLabel "if.end")
  let consequence ← captureScopedStatements emitConsequence
  let alternative ← captureScopedStatements emitAlternative
  expr (appendLines ([.brIf condition thenLabel elseLabel, .label thenLabel] ++
    consequence.thenBranch endLabel ++ [.label elseLabel] ++ alternative.thenBranch endLabel))
  if consequence.returns && alternative.returns then
    modify fun emitter => { emitter with returned := true }
  else expr (appendLines [.label endLabel])

def captureOptional (capture : Option (StmtM CapturedStatements)) : StmtM CapturedStatements :=
  match capture with
  | some capture => capture
  | none => pure .empty

structure PrimitiveLoop where
  conditionLabel : BlockLabel
  bodyLabel : BlockLabel
  continueLabel : BlockLabel
  endLabel : BlockLabel
  condition : Option Expression
  body : CapturedStatements
  continueBody : CapturedStatements

def PrimitiveLoop.continueLines (loop : PrimitiveLoop) : List Line :=
  if loop.continueBody.lines ≠ [] ∨ loop.continueLabel ≠ loop.conditionLabel then
    .label loop.continueLabel :: loop.continueBody.thenBranch loop.conditionLabel
  else []

def emitLoopCondition (condition : Option Expression) : ExprM Operand :=
  match condition with
  | some condition => emitCondition condition
  | none => pure (.bit (.known true))

def emitPrimitiveLoop (loop : PrimitiveLoop) : ExprM Unit := do
  appendLines [.br loop.conditionLabel, .label loop.conditionLabel]
  let condition ← emitLoopCondition loop.condition
  appendLines ([.brIf condition loop.bodyLabel loop.endLabel, .label loop.bodyLabel] ++
    loop.body.thenBranch loop.continueLabel)
  appendLines loop.continueLines
  appendLines [.label loop.endLabel]

def emitWhileStatement (condition : Expression) (emitBody : StmtM Unit) : StmtM Unit := do
  let conditionLabel ← expr (nextBlockLabel "while.cond")
  let bodyLabel ← expr (nextBlockLabel "while.body")
  let endLabel ← expr (nextBlockLabel "while.end")
  let body ← withStructuredExit .loop endLabel (some conditionLabel)
    (captureScopedStatements emitBody)
  expr (emitPrimitiveLoop
    { conditionLabel, bodyLabel, continueLabel := conditionLabel, endLabel
      condition := some condition, body, continueBody := .empty })

def reopenLoop : StmtM Unit :=
  modify fun emitter =>
    if emitter.returned then { emitter with returned := false, termination := .none } else emitter

/-- The body is emitted once before the loop and once inside it. -/
def emitDoWhileStatement (emitBody : StmtM Unit) (condition : Expression) : StmtM Unit := do
  let conditionLabel ← expr (nextBlockLabel "do.while.cond")
  let bodyLabel ← expr (nextBlockLabel "do.while.body")
  let endLabel ← expr (nextBlockLabel "do.while.end")
  withStructuredExit .loop endLabel (some conditionLabel) (emitScopedStatements emitBody)
  let emitter ← get
  if emitter.returned ∧ emitter.termination = .return then pure ()
  else
    reopenLoop
    let body ← withStructuredExit .loop endLabel (some conditionLabel)
      (captureScopedStatements emitBody)
    expr (emitPrimitiveLoop
      { conditionLabel, bodyLabel, continueLabel := conditionLabel, endLabel
        condition := some condition, body, continueBody := .empty })

/-- A for statement inside the scope of its initialiser. -/
def emitForLoop (emitInit : StmtM Unit) (condition : Option Expression)
    (emitUpdate : Option (StmtM Unit)) (emitBody : StmtM Unit) : StmtM Unit := do
  emitInit
  let conditionLabel ← expr (nextBlockLabel "for.cond")
  let bodyLabel ← expr (nextBlockLabel "for.body")
  let updateLabel ← expr (nextBlockLabel "for.update")
  let endLabel ← expr (nextBlockLabel "for.end")
  let body ← withStructuredExit .loop endLabel (some updateLabel)
    (captureScopedStatements emitBody)
  let update ← captureOptional (emitUpdate.map captureStatements)
  expr (emitPrimitiveLoop
    { conditionLabel, bodyLabel, continueLabel := updateLabel, endLabel
      condition, body, continueBody := update })

def emitForStatement (emitInit : StmtM Unit) (condition : Option Expression)
    (emitUpdate : Option (StmtM Unit)) (emitBody : StmtM Unit) : StmtM Unit :=
  emitScopedStatements (emitForLoop emitInit condition emitUpdate emitBody)

inductive ForEachTarget where
  | pattern (pattern : BindingPattern)
  | assignment (target : AssignmentTarget)

def ForEachTarget.assign (value : Operand) : ForEachTarget → ExprM Unit
  | .pattern declared => emitDestructureToPattern (some declared) value
  | .assignment target => target.store value

/-- `prepareForEachTarget`: declares the pattern or resolves the target once, before the loop. -/
def prepareForEachTarget (pos : SourcePos) (pattern : Option BindingPattern)
    (target : Expression) : StmtM ForEachTarget :=
  match pattern with
  | some pattern => do
      expr (declareBindingTargets (some pattern) .undef)
      registerDeclarationLifetime pos (some pattern)
      return .pattern pattern
  | none => do
      let assignment ← expr (resolveAssignmentTarget target)
      return .assignment assignment

/-- `emitIteratorNext` and `emitIteratorDone`. -/
def emitIteratorStep (iterator : Operand) : ExprM (Operand × Operand) := do
  let next ← emitRuntimeUnaryValue "jayess_iterator_next" iterator
  let done ← emitRuntimeCall "i1" "jayess_iterator_done" [valueArg next]
  return (next, done)

/-- `emitIteratorValue` and the assignment of the value. -/
def emitIteratorAssign (next : Operand) (target : ForEachTarget) : ExprM Unit := do
  let value ← emitRuntimeUnaryValue "jayess_iterator_value" next
  target.assign value

def emitForEachLoop (pos : SourcePos) (stem iteratorSymbol : String) (source : Operand)
    (pattern : Option BindingPattern) (target : Expression) (emitBody : StmtM Unit) :
    StmtM Unit := do
  let target ← prepareForEachTarget pos pattern target
  let iterator ← expr (emitRuntimeUnaryValue iteratorSymbol source)
  let conditionLabel ← expr (nextBlockLabel (stem ++ ".cond"))
  let bodyLabel ← expr (nextBlockLabel (stem ++ ".body"))
  let endLabel ← expr (nextBlockLabel (stem ++ ".end"))
  let body ← withStructuredExit .loop endLabel (some conditionLabel)
    (captureScopedStatements emitBody)
  expr (appendLines [.br conditionLabel, .label conditionLabel])
  let (next, done) ← expr (emitIteratorStep iterator)
  expr (appendLines [.brIf done endLabel bodyLabel, .label bodyLabel])
  expr (emitIteratorAssign next target)
  expr (appendLines (body.thenBranch conditionLabel))
  expr (appendLines [.label endLabel])

def emitForInStatement (pos : SourcePos) (pattern : Option BindingPattern)
    (target object : Expression) (emitBody : StmtM Unit) : StmtM Unit := do
  let source ← expr (emitExpression object)
  emitForEachLoop pos "for.in" "jayess_for_in_iterator" source pattern target emitBody

def emitForOfStatement (pos : SourcePos) (pattern : Option BindingPattern)
    (target iterable : Expression) (isAwait : Bool) (emitBody : StmtM Unit) : StmtM Unit := do
  if isAwait then fail "unsupported runtime for await...of lowering"
  let source ← expr (emitExpression iterable)
  emitForEachLoop pos "for.of" "jayess_for_of_iterator" source pattern target emitBody

/-! ## Switch, labels and try -/

structure CapturedSwitchCase where
  test : Expression
  body : CapturedStatements

/-- `switchCheckLabels` and `switchCaseLabels`. -/
def switchLabels (stem : String) : Nat → ExprM (List BlockLabel)
  | 0 => pure []
  | count + 1 => do
      let label ← nextBlockLabel stem
      let labels ← switchLabels stem count
      return label :: labels

def emitCaseTest (discriminant : Operand) (test : Expression) : ExprM Operand := do
  let test ← emitExpression test
  emitRuntimeStrictEqual discriminant test

/-- The loop of `emitSwitchStatement`: a case whose test fails goes to the next check, a case body
that ends falls through to the next body, and after the last case both go to the default. -/
def emitSwitchCases (discriminant : Operand) (defaultLabel : BlockLabel) :
    List CapturedSwitchCase → List BlockLabel → List BlockLabel → ExprM Unit
  | switchCase :: cases, checkLabel :: checkLabels, caseLabel :: caseLabels => do
      appendLines [.label checkLabel]
      let matched ← emitCaseTest discriminant switchCase.test
      appendLines [.brIf matched caseLabel (checkLabels.headD defaultLabel), .label caseLabel]
      appendLines (switchCase.body.thenBranch (caseLabels.headD defaultLabel))
      emitSwitchCases discriminant defaultLabel cases checkLabels caseLabels
  | _, _, _ => pure ()

def emitSwitchStatement (discriminant : Expression) (caseCount : Nat)
    (captureCases : StmtM (List CapturedSwitchCase × CapturedStatements)) : StmtM Unit := do
  let discriminant ← expr (emitExpression discriminant)
  let endLabel ← expr (nextBlockLabel "switch.end")
  let defaultLabel ← expr (nextBlockLabel "switch.default")
  let checkLabels ← expr (switchLabels "switch.check" caseCount)
  let caseLabels ← expr (switchLabels "switch.case" caseCount)
  let (cases, defaultCase) ← withStructuredExit .switch endLabel none captureCases
  expr (appendLines [.br (checkLabels.headD defaultLabel)])
  expr (emitSwitchCases discriminant defaultLabel cases checkLabels caseLabels)
  expr (appendLines ([.label defaultLabel] ++ defaultCase.thenBranch endLabel ++
    [.label endLabel]))

def withPendingLabel (label : String) (action : StmtM Unit) : StmtM Unit := do
  modify fun emitter => { emitter with pendingLabels := emitter.pendingLabels ++ [label] }
  action
  modify fun emitter => { emitter with pendingLabels := emitter.pendingLabels.dropLast }

def emitLabeledBlock (label : String) (emitBlock : StmtM Unit) : StmtM Unit := do
  let endLabel ← expr (nextBlockLabel ("label." ++ label ++ ".end"))
  withPendingLabel label (withStructuredExit .block endLabel none emitBlock)
  let emitter ← get
  if emitter.returned ∧ emitter.termination = .break ∧ emitter.terminationLabel = label then
    modify fun emitter => emitter.withTermination false .none ""
    expr (appendLines [.label endLabel])
  else if emitter.returned = false then
    expr (appendLines [.label endLabel])

def bindCaught (pos : SourcePos) (pattern : BindingPattern) (caught : Operand) : StmtM Unit := do
  expr (emitDestructureToPattern (some pattern) caught)
  registerDeclarationLifetime pos (some pattern)

/-- The binding of the caught value, which the throw slot holds. -/
def emitCatchBinding (pos : SourcePos) (throwSlot : LocalSlot)
    (catchPattern : Option BindingPattern) : StmtM Unit :=
  match catchPattern with
  | some pattern => do
      expr (declareBindingTargets (some pattern) .undef)
      let caught ← expr nextValueName
      expr (appendLines [.load caught throwSlot])
      bindCaught pos pattern (.named caught)
  | none => pure ()

def captureCatchBody (pos : SourcePos) (throwSlot : LocalSlot)
    (catchPattern : Option BindingPattern) (emitCatch : StmtM Unit) :
    StmtM CapturedStatements :=
  captureScopedStatements do
    emitCatchBinding pos throwSlot catchPattern
    emitCatch

/-- The code of a try statement from its captured bodies; a missing catch or finally body has no
label. -/
def tryLines (catchLabel finallyLabel : Option BlockLabel) (endLabel : BlockLabel)
    (tryBody catchBody finallyBody : CapturedStatements) : List Line :=
  let afterBody := finallyLabel.getD endLabel
  tryBody.thenBranch afterBody ++
    (match catchLabel with
      | some label => .label label :: catchBody.thenBranch afterBody
      | none => []) ++
    (match finallyLabel with
      | some label => .label label :: finallyBody.thenBranch endLabel
      | none => [])

def optionalBlockLabel (present : Bool) (stem : String) : ExprM (Option BlockLabel) :=
  if present then some <$> nextBlockLabel stem else pure none

def tryReturns (catchLabel finallyLabel : Option BlockLabel)
    (tryBody catchBody finallyBody : CapturedStatements) : Bool :=
  tryBody.termination = .return && (catchBody.termination = .return || catchLabel.isNone) &&
    (finallyBody.termination = .return || finallyLabel.isNone)

def emitTryBodies (throwTarget : BlockLabel) (emitTry : StmtM Unit)
    (captureCatch : Option (LocalSlot → StmtM CapturedStatements))
    (emitFinally : Option (StmtM Unit)) :
    StmtM (CapturedStatements × CapturedStatements × CapturedStatements) := do
  let throwSlot ← ensureThrowSlot
  let tryBody ← withThrowHandler throwTarget (captureScopedStatements emitTry)
  let catchBody ← captureOptional (captureCatch.map (· throwSlot))
  let finallyBody ← captureOptional (emitFinally.map captureScopedStatements)
  return (tryBody, catchBody, finallyBody)

/-- The end of `emitTryStatement`. -/
def finishTry (returns : Bool) (endLabel : BlockLabel) : StmtM Unit :=
  if returns then modify fun emitter => { emitter with returned := true, termination := .return }
  else expr (appendLines [.label endLabel])

def emitTryStatement (emitTry : StmtM Unit)
    (captureCatch : Option (LocalSlot → StmtM CapturedStatements))
    (emitFinally : Option (StmtM Unit)) : StmtM Unit := do
  let catchLabel ← expr (optionalBlockLabel captureCatch.isSome "try.catch")
  let finallyLabel ← expr (optionalBlockLabel emitFinally.isSome "try.finally")
  let endLabel ← expr (nextBlockLabel "try.end")
  match catchLabel.or finallyLabel with
  | none => fail "runtime try statement needs catch or finally body"
  | some throwTarget =>
      let (tryBody, catchBody, finallyBody) ←
        emitTryBodies throwTarget emitTry captureCatch emitFinally
      expr (appendLines (tryLines catchLabel finallyLabel endLabel tryBody catchBody finallyBody))
      finishTry (tryReturns catchLabel finallyLabel tryBody catchBody finallyBody) endLabel

/-- The loop of `EmitStatements` refuses a statement after one that does not complete. -/
def checkReachable : StmtM Unit := do
  if (← get).returned then fail "unreachable statement after lowered return"

mutual

def emitStatement : Statement → StmtM Unit
  | .empty _ => pure ()
  | .variableDecl pos _ _ pattern value => withDiagnostic pos
      (emitVariableDeclaration pos pattern value)
  | .functionDecl pos name _ _ => withDiagnostic pos (expr (emitFunctionDeclaration name))
  | .classDecl pos name superClass members => withDiagnostic pos
      (expr (emitClassDeclaration name superClass members))
  | .importDecl pos source specifiers sideEffect => withDiagnostic pos
      (expr (emitImportDeclaration source specifiers sideEffect))
  | .exportDecl pos declaration value specifiers source isDefault all namespaceName =>
      withDiagnostic pos
        (emitExportDeclaration (emitOptionalStatement declaration) declaration value specifiers
          source isDefault all namespaceName)
  | .assignment pos target operator value => withDiagnostic pos
      (expr (emitAssignmentStatement target operator value))
  | .block pos statements => withDiagnostic pos (emitScopedStatements (emitStatements statements))
  | .ifStatement pos condition consequence alternative => withDiagnostic pos
      (emitIfStatement condition (emitStatements consequence) (emitStatements alternative))
  | .whileStatement pos condition body => withDiagnostic pos
      (emitWhileStatement condition (emitStatements body))
  | .doWhileStatement pos body condition => withDiagnostic pos
      (emitDoWhileStatement (emitStatements body) condition)
  | .forStatement pos init condition update body => withDiagnostic pos
      (emitForStatement (emitOptionalStatement init) condition (emitUpdateStatement update)
        (emitStatements body))
  | .forInStatement pos _ pattern target object body => withDiagnostic pos
      (emitForInStatement pos pattern target object (emitStatements body))
  | .forOfStatement pos _ pattern target iterable body isAwait => withDiagnostic pos
      (emitForOfStatement pos pattern target iterable isAwait (emitStatements body))
  | .switchStatement pos discriminant cases default => withDiagnostic pos
      (emitSwitchStatement discriminant cases.length do
        let captured ← captureSwitchCases cases
        let defaultCase ← captureScopedStatements (emitStatements default)
        return (captured, defaultCase))
  | .labeledStatement pos label statement => withDiagnostic pos
      (if label = "" then emitStatement statement
      else match statement with
        | .block _ statements =>
            emitLabeledBlock label (emitScopedStatements (emitStatements statements))
        | statement => withPendingLabel label (emitStatement statement))
  | .breakStatement pos label => withDiagnostic pos (emitBreak label)
  | .continueStatement pos label => withDiagnostic pos (emitContinue label)
  | .expressionStatement pos expression => withDiagnostic pos do
      let _ ← expr (emitExpression expression)
  | .returnStatement pos value => withDiagnostic pos
      (emitReturnStatement (emitOptionalValue value))
  | .throwStatement pos value => withDiagnostic pos (emitThrowStatement (emitExpression value))
  | .tryStatement pos tryBody catchPattern catchBody finallyBody => withDiagnostic pos
      (emitTryStatement (emitStatements tryBody)
        (if catchBody.isEmpty then none
        else some fun slot => captureCatchBody pos slot catchPattern (emitStatements catchBody))
        (if finallyBody.isEmpty then none else some (emitStatements finallyBody)))
  | .debugger pos => withDiagnostic pos
      (fail "unsupported runtime statement *ast.DebuggerStatement")

def emitStatements : List Statement → StmtM Unit
  | [] => pure ()
  | statement :: rest => do
      checkReachable
      emitStatement statement
      emitStatements rest

def emitOptionalStatement : Option Statement → StmtM Unit
  | none => pure ()
  | some statement => emitStatement statement

def emitUpdateStatement : Option Statement → Option (StmtM Unit)
  | none => none
  | some statement => some do
      checkReachable
      emitStatement statement

/-- `captureSwitchCases`, but for the default. -/
def captureSwitchCases : List SwitchCase → StmtM (List CapturedSwitchCase)
  | [] => pure []
  | ⟨test, consequent⟩ :: rest => do
      let body ← captureScopedStatements (emitStatements consequent)
      let captured ← captureSwitchCases rest
      return { test, body } :: captured

end

def appendReturnTarget (target : ReturnTarget) : ExprM Unit := do
  let result ← nextValueName
  appendLines [.label target.label, .load result target.slot, .ret (.named result)]

def appendThrowTarget (label : BlockLabel) (slot : LocalSlot) : ExprM Unit := do
  let result ← nextValueName
  appendLines [.label label, .load result slot]
  emitRuntimeVoidCall "jayess_throw_unhandled" [valueArg (.named result)]
  appendLines [.ret .undef]

/-- What follows the emitted statements: the shared exits, or a plain return. -/
def appendTargets : StmtM Unit := do
  let emitter ← get
  match emitter.returnTarget with
  | some target => expr (appendReturnTarget target)
  | none => pure ()
  match emitter.throwLabel, emitter.throwSlot with
  | some label, some slot => expr (appendThrowTarget label slot)
  | _, _ => pure ()
  if emitter.returnTarget = none ∧ emitter.throwLabel = none ∧ emitter.returned = false then
    expr (appendLines [.ret .undef])

def lowerRuntimeStatementFunctionWithEmitter (name : String) (statements : List Statement)
    (emitter : StatementEmitter) : Except EmitError (Function × List Declaration × List Global) :=
  if name = "" then
    .error { message := "runtime statement function name must not be empty" }
  else
    match (do emitStatements statements; appendTargets : StmtM Unit) emitter with
    | .error error => .error error
    | .ok ((), emitted) =>
        .ok ({ name, returnType := runtimeValueIRType, body := emitted.body },
          emitted.expressions.declarations, emitted.expressions.globals)

def lowerRuntimeStatementFunction (name : String) (statements : List Statement) :
    Except EmitError (Function × List Declaration × List Global) :=
  lowerRuntimeStatementFunctionWithEmitter name statements newStatementEmitter

def lowerRuntimeStatementFunctionWithLifetimePlan (name : String) (statements : List Statement)
    (plan : Plan) (mapOrder : MapOrder) :
    Except EmitError (Function × List Declaration × List Global) :=
  lowerRuntimeStatementFunctionWithEmitter name statements
    (newStatementEmitterWithLifetimePlan plan mapOrder)

end Jayess.Backend
