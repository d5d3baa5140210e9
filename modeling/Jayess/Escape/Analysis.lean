import Jayess.Escape.Report

/-!
# The escape analysis

`escape.Analyze`: one walk over the program that marks names as escaping where a value flows out,
and a second kind of walk that marks every name in a value.
-/

namespace Jayess.Escape

open Report (new)

mutual

def declareStatementLocals : List Statement → List String
  | [] => []
  | statement :: rest => declareStatementLocal statement ++ declareStatementLocals rest

def declareStatementLocal : Statement → List String
  | .variableDecl _ _ _ pattern _ => patternNames pattern
  | .functionDecl _ name _ _ => [name]
  | .block _ statements => declareStatementLocals statements
  | .ifStatement _ _ consequence alternative =>
      declareStatementLocals consequence ++ declareStatementLocals alternative
  | .forStatement _ init _ _ body => declareOptionLocals init ++ declareStatementLocals body
  | .forOfStatement _ _ pattern _ _ body _ | .forInStatement _ _ pattern _ _ body =>
      patternNames pattern ++ declareStatementLocals body
  | .switchStatement _ _ cases default => declareCaseLocals cases ++ declareStatementLocals default
  | .tryStatement _ tryBody catchPattern catchBody finallyBody =>
      declareStatementLocals tryBody ++ patternNames catchPattern ++
        declareStatementLocals catchBody ++ declareStatementLocals finallyBody
  | _ => []

def declareCaseLocals : List SwitchCase → List String
  | [] => []
  | ⟨_, consequent⟩ :: rest => declareStatementLocals consequent ++ declareCaseLocals rest

def declareOptionLocals : Option Statement → List String
  | none => []
  | some statement => declareStatementLocal statement

end

def functionLocals (name : String) (params : List Parameter) (body : List Statement) :
    List String :=
  (if name = "" then [] else [name]) ++ params.flatMap (fun ⟨_, pattern, _, _⟩ => patternNames pattern)
    ++ declareStatementLocals body

section Walk

variable (order : AliasOrder)

/-- `markCapturedExpressionIdentifiersEscaping`, over the marking of the whole expression. -/
def markCapturedExpressionIdentifiersEscaping (locals : List String) (expression : Expression)
    (markWhole : Report → Report) (report : Report) : Report :=
  match expression with
  | .identifier _ name => if locals.contains name then report else report.markEscaping order name
  | .functionExpression .. => report
  | _ => markWhole report

def isKnownDirectCall (scope : Scope) (name : String) : Bool :=
  scope.hasLocal name || scope.hasOuter name

def markUnknownCallArgumentsEscaping (scope : Scope) (callee : String)
    (markArguments : Report → Report) (report : Report) : Report :=
  if isKnownDirectCall scope callee then report else markArguments report

def markOuterAssignmentEscaping (scope : Scope) (target : Expression) (markValue : Report → Report)
    (report : Report) : Report :=
  match target with
  | .identifier _ name =>
      if scope.hasLocal name then report
      else if scope.hasOuter name then markValue report
      else report
  | _ => report

def recordDeclarationAlias (pattern : Option BindingPattern) (value : Option Expression)
    (report : Report) : Report :=
  match pattern, value with
  | some (.name name), some (.identifier _ source) => report.addAlias order name source
  | _, _ => report

def onTarget (pattern : Option BindingPattern) (walk : Report → Report) (report : Report) : Report :=
  match pattern with
  | some _ => report
  | none => walk report

/-! ## The walks -/

mutual

def markExpressionIdentifiersEscaping : Expression → Report → Report
  | .identifier _ name, report => report.markEscaping order name
  | .binary _ _ left right, report | .comparison _ _ left right, report
  | .logical _ _ left right, report | .nullishCoalesce _ left right, report
  | .comma _ left right, report | .instanceof _ left right, report | .index _ left right _, report =>
      markExpressionIdentifiersEscaping right (markExpressionIdentifiersEscaping left report)
  | .conditional _ condition consequent alternative, report =>
      markExpressionIdentifiersEscaping alternative
        (markExpressionIdentifiersEscaping consequent
          (markExpressionIdentifiersEscaping condition report))
  | .unary _ _ value, report | .update _ _ value _, report | .typeof _ value, report
  | .await _ value, report | .spread _ value, report | .member _ value _ _ _, report =>
      markExpressionIdentifiersEscaping value report
  | .yield _ value _, report => markOptionIdentifiersEscaping value report
  | .templateLiteral _ _ expressions, report =>
      markExpressionListIdentifiersEscaping expressions report
  | .arrayLiteral _ elements, report => markElementIdentifiersEscaping elements report
  | .objectLiteral _ properties, report => markPropertyIdentifiersEscaping properties report
  | .call _ _ arguments, report => markExpressionListIdentifiersEscaping arguments report
  | .invoke _ callee arguments _, report | .newExpression _ callee arguments, report =>
      markExpressionListIdentifiersEscaping arguments
        (markExpressionIdentifiersEscaping callee report)
  | .functionExpression _ name params body expressionBody, report =>
      (analyzeStatements body
        (analyzeOption expressionBody (Scope.newScope [])
          (markCapturedStatementIdentifiersEscaping body (functionLocals name params body)
            (markCapturedOption expressionBody (functionLocals name params body) report)),
          Scope.newScope [])).1
  | _, report => report

def markOptionIdentifiersEscaping : Option Expression → Report → Report
  | none, report => report
  | some value, report => markExpressionIdentifiersEscaping value report

def markExpressionListIdentifiersEscaping : List Expression → Report → Report
  | [], report => report
  | expression :: rest, report =>
      markExpressionListIdentifiersEscaping rest (markExpressionIdentifiersEscaping expression report)

/-- `markArrayStoredValuesEscaping`. -/
def markElementIdentifiersEscaping : List (Option Expression) → Report → Report
  | [], report => report
  | element :: rest, report =>
      markElementIdentifiersEscaping rest (markOptionIdentifiersEscaping element report)

def markPropertyIdentifiersEscaping : List ObjectProperty → Report → Report
  | [], report => report
  | ⟨_, keyExpr, value, _, _⟩ :: rest, report =>
      markPropertyIdentifiersEscaping rest
        (markExpressionIdentifiersEscaping value (markOptionIdentifiersEscaping keyExpr report))

def markObjectStoredValuesEscaping : List ObjectProperty → Report → Report
  | [], report => report
  | ⟨_, _, value, _, _⟩ :: rest, report =>
      markObjectStoredValuesEscaping rest (markExpressionIdentifiersEscaping value report)

def markCapturedOption : Option Expression → List String → Report → Report
  | none, _, report => report
  | some value, locals, report =>
      markCapturedExpressionIdentifiersEscaping order locals value
        (markExpressionIdentifiersEscaping value) report

def markCapturedStatementIdentifiersEscaping : List Statement → List String → Report → Report
  | [], _, report => report
  | statement :: rest, locals, report =>
      markCapturedStatementIdentifiersEscaping rest locals
        (markCapturedStatement statement locals report)

def markCapturedStatementOption : Option Statement → List String → Report → Report
  | none, _, report => report
  | some statement, locals, report => markCapturedStatement statement locals report

def markCapturedCases : List SwitchCase → List String → Report → Report
  | [], _, report => report
  | ⟨test, consequent⟩ :: rest, locals, report =>
      markCapturedCases rest locals
        (markCapturedStatementIdentifiersEscaping consequent locals
          (markCapturedExpressionIdentifiersEscaping order locals test
            (markExpressionIdentifiersEscaping test) report))

/-- One statement of `markCapturedStatementIdentifiersEscaping`. -/
def markCapturedStatement : Statement → List String → Report → Report
  | .variableDecl _ _ _ _ value, locals, report | .returnStatement _ value, locals, report =>
      markCapturedOption value locals report
  | .block _ statements, locals, report =>
      markCapturedStatementIdentifiersEscaping statements locals report
  | .expressionStatement _ expression, locals, report
  | .throwStatement _ expression, locals, report =>
      markCapturedExpressionIdentifiersEscaping order locals expression
        (markExpressionIdentifiersEscaping expression) report
  | .assignment _ target _ value, locals, report =>
      markCapturedExpressionIdentifiersEscaping order locals value
        (markExpressionIdentifiersEscaping value)
        (markCapturedExpressionIdentifiersEscaping order locals target
          (markExpressionIdentifiersEscaping target) report)
  | .ifStatement _ condition consequence alternative, locals, report =>
      markCapturedStatementIdentifiersEscaping alternative locals
        (markCapturedStatementIdentifiersEscaping consequence locals
          (markCapturedExpressionIdentifiersEscaping order locals condition
            (markExpressionIdentifiersEscaping condition) report))
  | .whileStatement _ condition body, locals, report =>
      markCapturedStatementIdentifiersEscaping body locals
        (markCapturedExpressionIdentifiersEscaping order locals condition
          (markExpressionIdentifiersEscaping condition) report)
  | .doWhileStatement _ body condition, locals, report =>
      markCapturedExpressionIdentifiersEscaping order locals condition
        (markExpressionIdentifiersEscaping condition)
        (markCapturedStatementIdentifiersEscaping body locals report)
  | .forStatement _ init condition update body, locals, report =>
      markCapturedStatementIdentifiersEscaping body locals
        (markCapturedOption condition locals
          (markCapturedStatementOption update locals (markCapturedStatementOption init locals report)))
  | .forOfStatement _ _ pattern target iterable body _, locals, report
  | .forInStatement _ _ pattern target iterable body, locals, report =>
      markCapturedStatementIdentifiersEscaping body locals
        (markCapturedExpressionIdentifiersEscaping order locals iterable
          (markExpressionIdentifiersEscaping iterable)
          (onTarget pattern (markCapturedExpressionIdentifiersEscaping order locals target
            (markExpressionIdentifiersEscaping target)) report))
  | .labeledStatement _ _ statement, locals, report => markCapturedStatement statement locals report
  | .switchStatement _ discriminant cases default, locals, report =>
      markCapturedStatementIdentifiersEscaping default locals
        (markCapturedCases cases locals
          (markCapturedExpressionIdentifiersEscaping order locals discriminant
            (markExpressionIdentifiersEscaping discriminant) report))
  | .tryStatement _ tryBody _ catchBody finallyBody, locals, report =>
      markCapturedStatementIdentifiersEscaping finallyBody locals
        (markCapturedStatementIdentifiersEscaping catchBody locals
          (markCapturedStatementIdentifiersEscaping tryBody locals report))
  | _, _, report => report

def analyzeExpression : Expression → Scope → Report → Report
  | .functionExpression _ name params body expressionBody, scope, report =>
      (analyzeStatements body
        (analyzeOption expressionBody (scope.newScope.declareParameters params)
          (markCapturedStatementIdentifiersEscaping body (functionLocals name params body)
            (markCapturedOption expressionBody (functionLocals name params body) report)),
          scope.newScope.declareParameters params)).1
  | .binary _ _ left right, scope, report | .comparison _ _ left right, scope, report
  | .logical _ _ left right, scope, report | .nullishCoalesce _ left right, scope, report
  | .comma _ left right, scope, report | .instanceof _ left right, scope, report
  | .index _ left right _, scope, report =>
      analyzeExpression right scope (analyzeExpression left scope report)
  | .conditional _ condition consequent alternative, scope, report =>
      analyzeExpression alternative scope
        (analyzeExpression consequent scope (analyzeExpression condition scope report))
  | .unary _ _ value, scope, report | .update _ _ value _, scope, report
  | .typeof _ value, scope, report | .await _ value, scope, report | .spread _ value, scope, report
  | .member _ value _ _ _, scope, report => analyzeExpression value scope report
  | .yield _ value _, scope, report => analyzeOption value scope report
  | .templateLiteral _ _ expressions, scope, report => analyzeExpressionList expressions scope report
  | .arrayLiteral _ elements, scope, report =>
      analyzeElements elements scope (markElementIdentifiersEscaping elements report)
  | .objectLiteral _ properties, scope, report =>
      analyzeProperties properties scope (markObjectStoredValuesEscaping properties report)
  | .call _ callee arguments, scope, report =>
      analyzeExpressionList arguments scope
        (markUnknownCallArgumentsEscaping scope callee
          (markExpressionListIdentifiersEscaping arguments) report)
  | .invoke _ callee arguments _, scope, report | .newExpression _ callee arguments, scope, report =>
      analyzeExpressionList arguments scope
        (analyzeExpression callee scope (markExpressionListIdentifiersEscaping arguments report))
  | _, _, report => report

def analyzeOption : Option Expression → Scope → Report → Report
  | none, _, report => report
  | some value, scope, report => analyzeExpression value scope report

def analyzeExpressionList : List Expression → Scope → Report → Report
  | [], _, report => report
  | expression :: rest, scope, report =>
      analyzeExpressionList rest scope (analyzeExpression expression scope report)

def analyzeElements : List (Option Expression) → Scope → Report → Report
  | [], _, report => report
  | element :: rest, scope, report => analyzeElements rest scope (analyzeOption element scope report)

def analyzeProperties : List ObjectProperty → Scope → Report → Report
  | [], _, report => report
  | ⟨_, keyExpr, value, _, _⟩ :: rest, scope, report =>
      analyzeProperties rest scope
        (analyzeExpression value scope (analyzeOption keyExpr scope report))

/-- The scope grows with the declarations of its own statements. -/
def analyzeStatements : List Statement → Report × Scope → Report × Scope
  | [], state => state
  | statement :: rest, state => analyzeStatements rest (analyzeStatement statement state)

def analyzeOptionStatement : Option Statement → Report × Scope → Report × Scope
  | none, state => state
  | some statement, state => analyzeStatement statement state

def analyzeCases : List SwitchCase → Scope → Report → Report
  | [], _, report => report
  | ⟨test, consequent⟩ :: rest, scope, report =>
      analyzeCases rest scope
        (analyzeStatements consequent (analyzeExpression test scope report, scope.newScope)).1

def analyzeStatement : Statement → Report × Scope → Report × Scope
  | .variableDecl _ _ _ pattern value, (report, scope) =>
      (recordDeclarationAlias order pattern value (analyzeOption value scope report),
        scope.declarePattern pattern)
  | .functionDecl _ name params body, (report, scope) =>
      ((analyzeStatements body
        (report, (scope.declare name).newScope.declareParameters params)).1, scope.declare name)
  | .block _ statements, (report, scope) =>
      ((analyzeStatements statements (report, scope.newScope)).1, scope)
  | .expressionStatement _ expression, (report, scope)
  | .throwStatement _ expression, (report, scope) =>
      (analyzeExpression expression scope report, scope)
  | .assignment _ target _ value, (report, scope) =>
      (analyzeExpression value scope (analyzeExpression target scope
        (markOuterAssignmentEscaping scope target (markExpressionIdentifiersEscaping value) report)),
        scope)
  | .returnStatement _ value, (report, scope) => (markOptionIdentifiersEscaping value report, scope)
  | .ifStatement _ condition consequence alternative, (report, scope) =>
      ((analyzeStatements alternative
        ((analyzeStatements consequence
          (analyzeExpression condition scope report, scope.newScope)).1, scope.newScope)).1, scope)
  | .whileStatement _ condition body, (report, scope) =>
      ((analyzeStatements body (analyzeExpression condition scope report, scope.newScope)).1, scope)
  | .doWhileStatement _ body condition, (report, scope) =>
      (analyzeExpression condition scope (analyzeStatements body (report, scope.newScope)).1, scope)
  | .forStatement _ init condition update body, (report, scope) =>
      let (report, loopScope) := analyzeOptionStatement init (report, scope.newScope)
      let (report, loopScope) :=
        analyzeOptionStatement update (analyzeOption condition loopScope report, loopScope)
      ((analyzeStatements body (report, loopScope.newScope)).1, scope)
  | .forOfStatement _ _ pattern target iterable body _, (report, scope)
  | .forInStatement _ _ pattern target iterable body, (report, scope) =>
      let loopScope := scope.newScope.declarePattern pattern
      let report := analyzeExpression iterable loopScope
        (onTarget pattern (analyzeExpression target loopScope) report)
      ((analyzeStatements body (report, loopScope.newScope)).1, scope)
  | .labeledStatement _ _ statement, state => analyzeStatement statement state
  | .switchStatement _ discriminant cases default, (report, scope) =>
      let report := analyzeCases cases scope.newScope
        (analyzeExpression discriminant scope.newScope report)
      ((analyzeStatements default (report, scope.newScope.newScope)).1, scope)
  | .tryStatement _ tryBody catchPattern catchBody finallyBody, (report, scope) =>
      let report := (analyzeStatements tryBody (report, scope.newScope)).1
      let report := (analyzeStatements catchBody
        (report, scope.newScope.declarePattern catchPattern)).1
      ((analyzeStatements finallyBody (report, scope.newScope)).1, scope)
  | _, state => state

end

/-- `Analyze`, for a given order of the aliases. -/
def analyzeIn (statements : List Statement) : Report :=
  (analyzeStatements order statements (new, Scope.newScope [])).1

end Walk

def analyze (statements : List Statement) : Report := analyzeIn .listed statements

end Jayess.Escape
