import Jayess.Lowering.Evaluators

/-! # The variables that a body assigns -/

namespace Jayess.Lowering

def ownName (selfName : String) (params : List Parameter) (name : String) : Bool :=
  name = selfName || name ∈ params.map parameterName

def hoistedName (statements : List Statement) (name : String) : Bool :=
  name ∈ functionDeclsNames statements || name ∈ variableDeclsNames statements

def isTarget (name : String) : Expression → Bool
  | .identifier _ other => other = name
  | _ => false

mutual

/-- Whether an expression has an assignment to an outer variable in it. -/
def expressionAssigns (name : String) : Expression → Bool
  | .templateLiteral _ _ expressions => expressionsAssign name expressions
  | .newExpression _ callee arguments =>
      expressionAssigns name callee || expressionsAssign name arguments
  | .binary _ _ left right => expressionAssigns name left || expressionAssigns name right
  | .comparison _ _ left right => expressionAssigns name left || expressionAssigns name right
  | .logical _ _ left right => expressionAssigns name left || expressionAssigns name right
  | .nullishCoalesce _ left right => expressionAssigns name left || expressionAssigns name right
  | .conditional _ condition consequent alternative =>
      expressionAssigns name condition ||
        (expressionAssigns name consequent || expressionAssigns name alternative)
  | .comma _ left right => expressionAssigns name left || expressionAssigns name right
  | .unary _ _ right => expressionAssigns name right
  | .update _ _ target _ => isTarget name target || expressionAssigns name target
  | .typeof _ value => expressionAssigns name value
  | .await _ value => expressionAssigns name value
  | .yield _ value _ => optionExpressionAssigns name value
  | .instanceof _ left right => expressionAssigns name left || expressionAssigns name right
  | .call _ _ arguments => expressionsAssign name arguments
  | .invoke _ callee arguments _ =>
      expressionAssigns name callee || expressionsAssign name arguments
  | .index _ target index _ => expressionAssigns name target || expressionAssigns name index
  | .member _ target _ _ _ => expressionAssigns name target
  | .objectLiteral _ properties => propertiesAssign name properties
  | .arrayLiteral _ elements => elementsAssign name elements
  | .spread _ value => expressionAssigns name value
  | .functionExpression _ selfName params body expressionBody =>
      !ownName selfName params name &&
        (parametersAssign name params || (optionExpressionAssigns name expressionBody ||
          (!hoistedName body name && statementsAssign name body)))
  | _ => false

def optionExpressionAssigns (name : String) : Option Expression → Bool
  | none => false
  | some expression => expressionAssigns name expression

def expressionsAssign (name : String) : List Expression → Bool
  | [] => false
  | expression :: rest => expressionAssigns name expression || expressionsAssign name rest

def elementsAssign (name : String) : List (Option Expression) → Bool
  | [] => false
  | element :: rest => optionExpressionAssigns name element || elementsAssign name rest

def propertiesAssign (name : String) : List ObjectProperty → Bool
  | [] => false
  | ⟨_, keyExpr, value, _, _⟩ :: rest =>
      optionExpressionAssigns name keyExpr ||
        (expressionAssigns name value || propertiesAssign name rest)

def parametersAssign (name : String) : List Parameter → Bool
  | [] => false
  | ⟨_, _, _, default⟩ :: rest => optionExpressionAssigns name default || parametersAssign name rest

/-- Whether a statement has an assignment to an outer variable in it. A catch clause has names of its own. -/
def statementAssigns (name : String) : Statement → Bool
  | .variableDecl _ _ declared _ value => declared = name || optionExpressionAssigns name value
  | .assignment _ target _ value =>
      isTarget name target || (expressionAssigns name target || expressionAssigns name value)
  | .block _ statements => statementsAssign name statements
  | .ifStatement _ condition consequence alternative =>
      expressionAssigns name condition ||
        (statementsAssign name consequence || statementsAssign name alternative)
  | .whileStatement _ condition body => expressionAssigns name condition || statementsAssign name body
  | .doWhileStatement _ body condition => statementsAssign name body || expressionAssigns name condition
  | .forStatement _ init condition update body =>
      optionStatementAssigns name init || (optionExpressionAssigns name condition ||
        (optionStatementAssigns name update || statementsAssign name body))
  | .forInStatement _ _ _ target object body =>
      isTarget name target || (expressionAssigns name object || statementsAssign name body)
  | .forOfStatement _ _ _ target iterable body _ =>
      isTarget name target || (expressionAssigns name iterable || statementsAssign name body)
  | .switchStatement _ discriminant cases default =>
      expressionAssigns name discriminant || (casesAssign name cases || statementsAssign name default)
  | .labeledStatement _ _ statement => statementAssigns name statement
  | .expressionStatement _ expression => expressionAssigns name expression
  | .returnStatement _ value => optionExpressionAssigns name value
  | .throwStatement _ value => expressionAssigns name value
  | .tryStatement _ tryBody catchPattern catchBody finallyBody =>
      statementsAssign name tryBody ||
        ((!(name ∈ patternNames catchPattern) && statementsAssign name catchBody) ||
          statementsAssign name finallyBody)
  | _ => false

def optionStatementAssigns (name : String) : Option Statement → Bool
  | none => false
  | some statement => statementAssigns name statement

def statementsAssign (name : String) : List Statement → Bool
  | [] => false
  | statement :: rest => statementAssigns name statement || statementsAssign name rest

def casesAssign (name : String) : List SwitchCase → Bool
  | [] => false
  | ⟨test, consequent⟩ :: rest =>
      expressionAssigns name test || (statementsAssign name consequent || casesAssign name rest)

end

def parameterDefault : Parameter → Option Expression
  | ⟨_, _, _, default⟩ => default

namespace IifeBody

def declares (body : IifeBody) (name : String) : Bool :=
  ownName body.selfName body.params name || hoistedName body.statements name

def assigns (body : IifeBody) (name : String) : Bool :=
  statementsAssign name body.statements || expressionAssigns name body.expression

def Spares (name : String) (body : IifeBody) : Prop :=
  ownName body.selfName body.params name = false → parametersAssign name body.params = false ∧
    (hoistedName body.statements name = false → body.assigns name = false)

def functionNames (body : IifeBody) : List String :=
  collectNames (fun name => name = "" ∨ iifeParameterNames body.params name) []
    (functionDeclsNames body.statements)

def variableNames (body : IifeBody) : List String :=
  collectNames (fun name => iifeParameterNames body.params name ∨ name = body.selfName) body.functionNames
    (variableDeclsNames body.statements)

structure Collected (body : IifeBody) (scope : ReturnScope) : Prop where
  locals : body.locals = body.variableNames.filter fun name => !scope.bindingKnown name
  funcLocals : body.funcLocals = body.functionNames.filter fun name => !scope.bindingKnown name
  shadows : body.shadows = body.variableNames.filter fun name => scope.bindingKnown name
  funcShadows : body.funcShadows = body.functionNames.filter fun name => scope.bindingKnown name

end IifeBody

end Jayess.Lowering
