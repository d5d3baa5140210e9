import Jayess.Lifetime.Cleanups

/-!
# Closure environments

What each function expression captures, for the function expressions the walk of the plan meets.
-/

namespace Jayess.Lifetime

def statementNames : List Statement → List String
  | [] => []
  | .variableDecl _ _ _ pattern _ :: rest => patternNames pattern ++ statementNames rest
  | .functionDecl _ name _ _ :: rest => name :: statementNames rest
  | _ :: rest => statementNames rest

def declareStatementNames (names : List String) (statements : List Statement) : List String :=
  statementNames statements ++ names

def parameterNames (params : List Parameter) : List String :=
  params.flatMap fun ⟨_, pattern, _, _⟩ => patternNames pattern

def declareParameters (names : List String) (params : List Parameter) : List String :=
  parameterNames params ++ names

/-- The locals of a function expression in `capturedNames`. -/
def functionNames (name : String) (params : List Parameter) (body : List Statement) : List String :=
  declareStatementNames (declareParameters (if name = "" then [] else [name]) params) body

section Captured

variable (scope locals : List String)

def addCaptured (name : String) (captured : List String) : List String :=
  if scope.contains name && !locals.contains name then captured.insert name else captured

mutual

def collectCapturedExpressionNames : Expression → List String → List String
  | .identifier _ name, captured => addCaptured scope locals name captured
  | .binary _ _ left right, captured | .logical _ _ left right, captured =>
      collectCapturedExpressionNames right (collectCapturedExpressionNames left captured)
  | .conditional _ condition consequent alternative, captured =>
      collectCapturedExpressionNames alternative
        (collectCapturedExpressionNames consequent
          (collectCapturedExpressionNames condition captured))
  | .arrayLiteral _ elements, captured => collectCapturedElements elements captured
  | .objectLiteral _ properties, captured => collectCapturedProperties properties captured
  | _, captured => captured

def collectCapturedElements : List (Option Expression) → List String → List String
  | [], captured => captured
  | none :: rest, captured => collectCapturedElements rest captured
  | some element :: rest, captured =>
      collectCapturedElements rest (collectCapturedExpressionNames element captured)

def collectCapturedProperties : List ObjectProperty → List String → List String
  | [], captured => captured
  | ⟨_, _, value, _, _⟩ :: rest, captured =>
      collectCapturedProperties rest (collectCapturedExpressionNames value captured)

end

def collectCapturedOption (value : Option Expression) (captured : List String) : List String :=
  match value with
  | none => captured
  | some value => collectCapturedExpressionNames scope locals value captured

mutual

def collectCapturedStatementNames : List Statement → List String → List String
  | [], captured => captured
  | statement :: rest, captured =>
      collectCapturedStatementNames rest (collectCapturedStatement statement captured)

def collectCapturedStatement : Statement → List String → List String
  | .variableDecl _ _ _ _ value, captured | .returnStatement _ value, captured =>
      collectCapturedOption scope locals value captured
  | .expressionStatement _ expression, captured =>
      collectCapturedExpressionNames scope locals expression captured
  | .assignment _ target _ value, captured =>
      collectCapturedExpressionNames scope locals value
        (collectCapturedExpressionNames scope locals target captured)
  | .block _ statements, captured => collectCapturedStatementNames statements captured
  | _, captured => captured

end

def markMutatedCapturedExpressionName : Expression → List String → List String
  | .identifier _ name, mutated => addCaptured scope locals name mutated
  | .update _ _ target _, mutated => markMutatedCapturedExpressionName target mutated
  | _, mutated => mutated

mutual

def collectMutatedCapturedStatementNames : List Statement → List String → List String
  | [], mutated => mutated
  | statement :: rest, mutated =>
      collectMutatedCapturedStatementNames rest (collectMutatedCapturedStatement statement mutated)

def collectMutatedCapturedStatement : Statement → List String → List String
  | .assignment _ target _ _, mutated => markMutatedCapturedExpressionName scope locals target mutated
  | .expressionStatement _ expression, mutated =>
      markMutatedCapturedExpressionName scope locals expression mutated
  | .block _ statements, mutated => collectMutatedCapturedStatementNames statements mutated
  | _, mutated => mutated

end

end Captured

/-- The keys of `seen`, in the order Go ranges over them. -/
def capturedNames (mapOrder : MapOrder) (scope : List String) (name : String)
    (params : List Parameter) (body : List Statement) (expressionBody : Option Expression) :
    List String :=
  let locals := functionNames name params body
  mapOrder.range (collectCapturedStatementNames scope locals body
    (collectCapturedOption scope locals expressionBody []))

def mutatedCapturedNames (scope : List String) (name : String) (params : List Parameter)
    (body : List Statement) : List String :=
  collectMutatedCapturedStatementNames scope (functionNames name params body) body []

abbrev Slots := List (String × Nat)

def sharedCaptureSlot (slots : Slots) (binding : String) : Nat × Slots :=
  match slots.lookup binding with
  | some slot => (slot, slots)
  | none => (slots.length, (binding, slots.length) :: slots)

def hasExtendedLifetime (plan : Plan) (binding : String) : Bool :=
  plan.extendedLifetimes.any fun extended => extended.binding = binding

def closureCaptures (mutated : List String) (plan : Plan) :
    List String → Slots → List ClosureCapture × Slots
  | [], slots => ([], slots)
  | name :: rest, slots =>
      let extended := hasExtendedLifetime plan name
      let (slot, slots) := sharedCaptureSlot slots name
      let (captures, slots) := closureCaptures mutated plan rest slots
      (⟨name, true, extended, slot, mutated.contains name, extended⟩ :: captures, slots)

/-- What the walk carries: `plan` and `slots`. -/
structure Collection where
  plan : Plan
  slots : Slots

def addClosureEnvironment (mapOrder : MapOrder) (scope : List String) (pos : SourcePos)
    (name : String) (params : List Parameter) (body : List Statement)
    (expressionBody : Option Expression) (collection : Collection) : Collection :=
  let captured := capturedNames mapOrder scope name params body expressionBody
  let mutated := mutatedCapturedNames scope name params body
  if captured.isEmpty then collection
  else
    let (captures, slots) := closureCaptures mutated collection.plan captured collection.slots
    { plan := { collection.plan with
        closureEnvironments :=
          collection.plan.closureEnvironments ++ [⟨pos.line, pos.column, "heap", captures⟩] }
      slots }

section Walk

variable (mapOrder : MapOrder)

mutual

def collectExpressionClosureEnvironments : Expression → List String → Collection → Collection
  | .functionExpression pos name params body expressionBody, scope, collection =>
      addClosureEnvironment mapOrder scope pos name params body expressionBody collection
  | .binary _ _ left right, scope, collection | .logical _ _ left right, scope, collection =>
      collectExpressionClosureEnvironments right scope
        (collectExpressionClosureEnvironments left scope collection)
  | .conditional _ condition consequent alternative, scope, collection =>
      collectExpressionClosureEnvironments alternative scope
        (collectExpressionClosureEnvironments consequent scope
          (collectExpressionClosureEnvironments condition scope collection))
  | .arrayLiteral _ elements, scope, collection =>
      collectElementClosureEnvironments elements scope collection
  | .objectLiteral _ properties, scope, collection =>
      collectPropertyClosureEnvironments properties scope collection
  | .call _ _ arguments, scope, collection =>
      collectArgumentClosureEnvironments arguments scope collection
  | .invoke _ callee arguments _, scope, collection =>
      collectArgumentClosureEnvironments arguments scope
        (collectExpressionClosureEnvironments callee scope collection)
  | _, _, collection => collection

def collectElementClosureEnvironments :
    List (Option Expression) → List String → Collection → Collection
  | [], _, collection => collection
  | none :: rest, scope, collection => collectElementClosureEnvironments rest scope collection
  | some element :: rest, scope, collection =>
      collectElementClosureEnvironments rest scope
        (collectExpressionClosureEnvironments element scope collection)

def collectPropertyClosureEnvironments :
    List ObjectProperty → List String → Collection → Collection
  | [], _, collection => collection
  | ⟨_, _, value, _, _⟩ :: rest, scope, collection =>
      collectPropertyClosureEnvironments rest scope
        (collectExpressionClosureEnvironments value scope collection)

def collectArgumentClosureEnvironments : List Expression → List String → Collection → Collection
  | [], _, collection => collection
  | argument :: rest, scope, collection =>
      collectArgumentClosureEnvironments rest scope
        (collectExpressionClosureEnvironments argument scope collection)

end

def collectOptionClosureEnvironments (value : Option Expression) (scope : List String)
    (collection : Collection) : Collection :=
  match value with
  | none => collection
  | some value => collectExpressionClosureEnvironments mapOrder value scope collection

mutual

def collectStatementClosureEnvironments : List Statement → List String → Collection → Collection
  | [], _, collection => collection
  | statement :: rest, scope, collection =>
      collectStatementClosureEnvironments rest scope
        (collectOneClosureEnvironments statement scope collection)

/-- One statement of `collectStatementClosureEnvironments`. -/
def collectOneClosureEnvironments : Statement → List String → Collection → Collection
  | .variableDecl _ _ _ _ value, scope, collection | .returnStatement _ value, scope, collection =>
      collectOptionClosureEnvironments mapOrder value scope collection
  | .functionDecl _ _ params body, scope, collection =>
      collectStatementClosureEnvironments body
        (declareStatementNames (declareParameters scope params) body) collection
  | .block _ statements, scope, collection =>
      collectStatementClosureEnvironments statements (declareStatementNames scope statements)
        collection
  | .expressionStatement _ expression, scope, collection =>
      collectExpressionClosureEnvironments mapOrder expression scope collection
  | .assignment _ target _ value, scope, collection =>
      collectExpressionClosureEnvironments mapOrder value scope
        (collectExpressionClosureEnvironments mapOrder target scope collection)
  | .ifStatement _ condition consequence alternative, scope, collection =>
      collectStatementClosureEnvironments alternative scope
        (collectStatementClosureEnvironments consequence scope
          (collectExpressionClosureEnvironments mapOrder condition scope collection))
  | .whileStatement _ condition body, scope, collection =>
      collectStatementClosureEnvironments body scope
        (collectExpressionClosureEnvironments mapOrder condition scope collection)
  | .forStatement _ init condition update body, scope, collection =>
      collectStatementClosureEnvironments body scope
        (collectOptionClosureEnvironments mapOrder condition scope
          (collectMissingClosureEnvironments update scope
            (collectMissingClosureEnvironments init scope collection)))
  | _, _, collection => collection

def collectMissingClosureEnvironments : Option Statement → List String → Collection → Collection
  | none, _, collection => collection
  | some statement, scope, collection => collectOneClosureEnvironments statement scope collection

end

def collectClosureEnvironments (statements : List Statement) (plan : Plan) : Plan :=
  (collectStatementClosureEnvironments mapOrder statements (declareStatementNames [] statements)
    ⟨plan, []⟩).plan

def buildScopeExitPlan (statements : List Statement) : Plan :=
  collectClosureEnvironments mapOrder statements
    (collectStatementCleanups mapOrder (Escape.analyze statements) statements 0 ⟨[], [], []⟩)

end Walk

end Jayess.Lifetime
