import Jayess.Bindings
import Jayess.Lowering.ReturnValues

/-!
# The evaluators and what they share

The functions of the evaluator call each other on the parts of a program, sometimes on the very
expression they were called on.
-/

namespace Jayess.Lowering

/-- A body that a call is folded to (`iifeBody`). -/
structure IifeBody where
  expression : Expression
  selfName : String
  params : List Parameter
  statements : List Statement
  locals : List String
  shadows : List String
  funcLocals : List String
  funcShadows : List String

inductive NonReturnFlowKind where
  | none
  | break
  | continue
deriving DecidableEq

structure NonReturnFlow where
  kind : NonReturnFlowKind
  label : String
deriving DecidableEq

def nonReturnFlowNone : NonReturnFlow := ⟨.none, ""⟩

def nonReturnFlowBreak : NonReturnFlow := ⟨.break, ""⟩

def nonReturnFlowContinue : NonReturnFlow := ⟨.continue, ""⟩

inductive TryThrowFlow where
  | none
  | throw
  | stop
deriving DecidableEq

/-- The functions that are called on the parts of an expression or statement; one without a result
succeeds where the source returns true. -/
structure Evaluators where
  int : Expression → Eval Int64
  string : Expression → Eval GoString
  bigInt : Expression → Eval GoString
  bool : Expression → Eval Bool
  boolValue : Expression → Eval Bool
  nullish : Expression → Eval ReturnNullishKind
  discard : Expression → Eval Unit
  functionIdentity : Expression → Eval Identity
  objectIdentity : Expression → Eval Identity
  materializeFunction : Expression → Eval Identity
  materializeObject : Expression → Eval Identity
  functionReference : Expression → Eval Unit
  objectReference : Expression → Eval Unit
  arrayElements : Expression → Eval (List ReturnValue)
  objectProperties : Expression → Eval (GoString → Option ReturnValue)
  callable : Expression → Eval IifeBody
  emptyCallable : Expression → Eval Unit
  emptyConstructor : Expression → Eval Unit
  returnCode : List Statement → Eval Int64
  nonReturn : List Statement → Eval NonReturnFlow
  nonReturnStatement : Statement → Eval NonReturnFlow
  tryBody : List Statement → Eval TryThrowFlow
  tryStatement : Statement → Eval TryThrowFlow
  labeledBreak : List Statement → String → Eval Unit
  labeledBreakStatement : Statement → String → Eval Unit

section

variable {α : Type} (ev : Evaluators)

def conditionally (condition : Expression) (consequent alternative : Eval α) : Eval α :=
  Eval.probe do
    if ← ev.bool condition then consequent else alternative

def afterDiscarding (left : Expression) (right : Eval α) : Eval α :=
  Eval.probe do
    ev.discard left
    right

/-- The side effects of a left operand of `??` stay even where its value is not folded. -/
def keepingEffects (left : Expression) : Eval α := do
  Eval.probe (ev.discard left)
  failure

def coalescing (left : Expression) (leftValue right : Eval α) : Eval α :=
  Eval.probing (ev.nullish left) (fun _ => right)
    (Eval.probe leftValue <|> keepingEffects ev left)

def coalescingReference (left : Expression) (leftValue right : Eval α) : Eval α :=
  Eval.probe leftValue <|>
    Eval.probing (ev.nullish left) (fun _ => right) (keepingEffects ev left)

/-- The left operand of the evaluator's own kind decides by its value, another by its truthiness. -/
def logically (operator : LogicalOperator) (left : Expression) (leftValue : Eval α)
    (truthy : α → Bool) (right : Eval α) : Eval α :=
  Eval.probing leftValue
    (fun value =>
      match operator with
      | .and => if truthy value then right else pure value
      | .or => if truthy value then pure value else right)
    (Eval.probe do
      let leftTruthy ← ev.bool left
      match operator with
      | .and => if leftTruthy then right else failure
      | .or => if leftTruthy then failure else right)

end

def iifeVariableDeclNames (name : String) (pattern : Option BindingPattern) : List String :=
  if name ≠ "" then [name] else patternNames pattern

mutual

/-- The names of the function declarations in a prefix (`iifePrefixFunctionDecls`). -/
def functionDeclNames : Statement → List String
  | .functionDecl _ name _ _ => [name]
  | .block _ statements => functionDeclsNames statements
  | .ifStatement _ _ consequence alternative =>
      functionDeclsNames consequence ++ functionDeclsNames alternative
  | .whileStatement _ _ body => functionDeclsNames body
  | .doWhileStatement _ body _ => functionDeclsNames body
  | .forStatement _ init _ _ body => functionDeclInitNames init ++ functionDeclsNames body
  | .forOfStatement _ _ _ _ _ body _ => functionDeclsNames body
  | .forInStatement _ _ _ _ _ body => functionDeclsNames body
  | .labeledStatement _ _ statement => functionDeclNames statement
  | .switchStatement _ _ cases default => functionDeclCaseNames cases ++ functionDeclsNames default
  | .tryStatement _ tryBody _ catchBody finallyBody =>
      functionDeclsNames tryBody ++ functionDeclsNames catchBody ++ functionDeclsNames finallyBody
  | _ => []

def functionDeclInitNames : Option Statement → List String
  | none => []
  | some statement => functionDeclNames statement

def functionDeclsNames : List Statement → List String
  | [] => []
  | statement :: rest => functionDeclNames statement ++ functionDeclsNames rest

def functionDeclCaseNames : List SwitchCase → List String
  | [] => []
  | ⟨_, consequent⟩ :: rest => functionDeclsNames consequent ++ functionDeclCaseNames rest

end

mutual

/-- The names of the variable declarations in a prefix (`iifePrefixVariableDecls`). -/
def variableDeclNames : Statement → List String
  | .variableDecl _ _ name pattern _ => iifeVariableDeclNames name pattern
  | .block _ statements => variableDeclsNames statements
  | .ifStatement _ _ consequence alternative =>
      variableDeclsNames consequence ++ variableDeclsNames alternative
  | .whileStatement _ _ body => variableDeclsNames body
  | .doWhileStatement _ body _ => variableDeclsNames body
  | .forStatement _ init _ _ body => variableDeclInitNames init ++ variableDeclsNames body
  | .forOfStatement _ kind pattern _ _ body _ =>
      (if kind = .var then patternNames pattern else []) ++ variableDeclsNames body
  | .forInStatement _ kind pattern _ _ body =>
      (if kind = .var then patternNames pattern else []) ++ variableDeclsNames body
  | .labeledStatement _ _ statement => variableDeclNames statement
  | .switchStatement _ _ cases default => variableDeclCaseNames cases ++ variableDeclsNames default
  | .tryStatement _ tryBody _ catchBody finallyBody =>
      variableDeclsNames tryBody ++ variableDeclsNames catchBody ++ variableDeclsNames finallyBody
  | _ => []

def variableDeclInitNames : Option Statement → List String
  | none => []
  | some statement => variableDeclNames statement

def variableDeclsNames : List Statement → List String
  | [] => []
  | statement :: rest => variableDeclNames statement ++ variableDeclsNames rest

def variableDeclCaseNames : List SwitchCase → List String
  | [] => []
  | ⟨_, consequent⟩ :: rest => variableDeclsNames consequent ++ variableDeclCaseNames rest

end

def parameterName : Parameter → String
  | ⟨name, _, _, _⟩ => name

/-- `iifeParameterNames` as a membership test. -/
def iifeParameterNames (params : List Parameter) (name : String) : Bool :=
  name ≠ "" ∧ name ∈ params.map parameterName

def collectNames (excluded : String → Bool) : List String → List String → List String
  | _, [] => []
  | seen, name :: rest =>
      if excluded name ∨ name ∈ seen then collectNames excluded seen rest
      else name :: collectNames excluded (name :: seen) rest

/-- `collectIIFEPrefixBindings`: the names a body declares, by whether the caller knows them. -/
def collectIIFEPrefixBindings (statements : List Statement) (selfName : String)
    (params : List Parameter) (scope : ReturnScope) (body : IifeBody) : IifeBody :=
  let functionNames := collectNames (fun name => name = "" ∨ iifeParameterNames params name) []
    (functionDeclsNames statements)
  let variableNames := collectNames (fun name => iifeParameterNames params name ∨ name = selfName)
    functionNames (variableDeclsNames statements)
  { body with
    locals := variableNames.filter fun name => !scope.bindingKnown name
    shadows := variableNames.filter fun name => scope.bindingKnown name
    funcLocals := functionNames.filter fun name => !scope.bindingKnown name
    funcShadows := functionNames.filter fun name => scope.bindingKnown name }

mutual

def statementContainsReturn : Statement → Bool
  | .returnStatement .. => true
  | .throwStatement .. => true
  | .block _ statements => statementsContainReturn statements
  | .labeledStatement _ _ statement => statementContainsReturn statement
  | .ifStatement _ _ consequence alternative =>
      statementsContainReturn consequence || statementsContainReturn alternative
  | .switchStatement _ _ cases default =>
      statementsContainReturn default || casesContainReturn cases
  | .whileStatement _ _ body => statementsContainReturn body
  | .forStatement _ _ _ _ body => statementsContainReturn body
  | .doWhileStatement _ body _ => statementsContainReturn body
  | .tryStatement _ tryBody _ catchBody finallyBody =>
      statementsContainReturn tryBody || statementsContainReturn catchBody ||
        statementsContainReturn finallyBody
  | _ => false

def statementsContainReturn : List Statement → Bool
  | [] => false
  | statement :: rest => statementContainsReturn statement || statementsContainReturn rest

def casesContainReturn : List SwitchCase → Bool
  | [] => false
  | ⟨_, consequent⟩ :: rest => statementsContainReturn consequent || casesContainReturn rest

end

end Jayess.Lowering
