import Jayess.Escape.Marks

/-! # The walks of the escape analysis -/

namespace Jayess.Escape

variable {mark : AliasOrder → Report → Report}

theorem acts_captured (locals : List String) (expression : Expression) (hmark : Acts mark) :
    Acts fun order => markCapturedExpressionIdentifiersEscaping order locals expression
      (mark order) := by
  cases expression with
  | identifier pos name =>
      change Acts fun order report =>
        if locals.contains name then report else report.markEscaping order name
      by_cases hlocal : locals.contains name
      · simp only [if_pos hlocal]
        exact acts_id
      · simp only [if_neg hlocal]
        exact acts_escape name
  | functionExpression => exact acts_id
  | _ => exact hmark

theorem acts_unknownCall (scope : Scope) (callee : String) (hmark : Acts mark) :
    Acts fun order => markUnknownCallArgumentsEscaping scope callee (mark order) := by
  unfold markUnknownCallArgumentsEscaping
  by_cases hknown : isKnownDirectCall scope callee
  · simp only [if_pos hknown]
    exact acts_id
  · simp only [if_neg hknown]
    exact hmark

theorem acts_outerAssignment (scope : Scope) (target : Expression) (hmark : Acts mark) :
    Acts fun order => markOuterAssignmentEscaping scope target (mark order) := by
  cases target with
  | identifier pos name =>
      change Acts fun order report =>
        if scope.hasLocal name then report
        else if scope.hasOuter name then mark order report else report
      by_cases hlocal : scope.hasLocal name
      · simp only [if_pos hlocal]
        exact acts_id
      · by_cases houter : scope.hasOuter name
        · simp only [if_neg hlocal, if_pos houter]
          exact hmark
        · simp only [if_neg hlocal, if_neg houter]
          exact acts_id
  | _ => exact acts_id

theorem acts_declarationAlias (pattern : Option BindingPattern) (value : Option Expression) :
    Acts fun order => recordDeclarationAlias order pattern value := by
  unfold recordDeclarationAlias
  split
  · exact acts_link _ _
  · exact acts_id

theorem acts_onTarget {walk : AliasOrder → Report → Report} (pattern : Option BindingPattern)
    (hwalk : Acts walk) : Acts fun order => onTarget pattern (walk order) := by
  cases pattern with
  | none => exact hwalk
  | some pattern => exact acts_id

/-! ## The walks -/

mutual

theorem acts_mark (expression : Expression) :
    Acts fun order => markExpressionIdentifiersEscaping order expression :=
  match expression with
  | .identifier _ name => acts_escape name
  | .binary _ _ left right | .comparison _ _ left right | .logical _ _ left right
  | .nullishCoalesce _ left right | .comma _ left right | .instanceof _ left right
  | .index _ left right _ => (acts_mark left).andThen (acts_mark right)
  | .conditional _ condition consequent alternative =>
      ((acts_mark condition).andThen (acts_mark consequent)).andThen (acts_mark alternative)
  | .unary _ _ value | .update _ _ value _ | .typeof _ value | .await _ value | .spread _ value
  | .member _ value _ _ _ => acts_mark value
  | .yield _ value _ => acts_markOption value
  | .templateLiteral _ _ expressions => acts_markList expressions
  | .arrayLiteral _ elements => acts_markElements elements
  | .objectLiteral _ properties => acts_markProperties properties
  | .call _ _ arguments => acts_markList arguments
  | .invoke _ callee arguments _ | .newExpression _ callee arguments =>
      (acts_mark callee).andThen (acts_markList arguments)
  | .functionExpression _ name params body expressionBody =>
      (((acts_capturedOption expressionBody (functionLocals name params body)).andThen
        (acts_capturedStatements body (functionLocals name params body))).andThen
          (acts_option expressionBody (Scope.newScope []))).andThen
            ((acts_statements body).report (Scope.newScope []))
  | .thisExpression _ | .superExpression _ | .numberLiteral .. | .bigIntLiteral ..
  | .stringLiteral .. | .booleanLiteral .. | .nullLiteral _ | .undefinedLiteral _ | .importMeta _
  | .newTarget _ => acts_id

theorem acts_markOption (value : Option Expression) :
    Acts fun order => markOptionIdentifiersEscaping order value :=
  match value with
  | none => acts_id
  | some value => acts_mark value

theorem acts_markList (expressions : List Expression) :
    Acts fun order => markExpressionListIdentifiersEscaping order expressions :=
  match expressions with
  | [] => acts_id
  | expression :: rest => (acts_mark expression).andThen (acts_markList rest)

theorem acts_markElements (elements : List (Option Expression)) :
    Acts fun order => markElementIdentifiersEscaping order elements :=
  match elements with
  | [] => acts_id
  | element :: rest => (acts_markOption element).andThen (acts_markElements rest)

theorem acts_markProperties (properties : List ObjectProperty) :
    Acts fun order => markPropertyIdentifiersEscaping order properties :=
  match properties with
  | [] => acts_id
  | ⟨_, keyExpr, value, _, _⟩ :: rest =>
      ((acts_markOption keyExpr).andThen (acts_mark value)).andThen (acts_markProperties rest)

theorem acts_markObject (properties : List ObjectProperty) :
    Acts fun order => markObjectStoredValuesEscaping order properties :=
  match properties with
  | [] => acts_id
  | ⟨_, _, value, _, _⟩ :: rest => (acts_mark value).andThen (acts_markObject rest)

theorem acts_capturedOption (value : Option Expression) (locals : List String) :
    Acts fun order => markCapturedOption order value locals :=
  match value with
  | none => acts_id
  | some value => acts_captured locals value (acts_mark value)

theorem acts_capturedStatements (statements : List Statement) (locals : List String) :
    Acts fun order => markCapturedStatementIdentifiersEscaping order statements locals :=
  match statements with
  | [] => acts_id
  | statement :: rest =>
      (acts_capturedStatement statement locals).andThen (acts_capturedStatements rest locals)

theorem acts_capturedStatementOption (statement : Option Statement) (locals : List String) :
    Acts fun order => markCapturedStatementOption order statement locals :=
  match statement with
  | none => acts_id
  | some statement => acts_capturedStatement statement locals

theorem acts_capturedCases (cases : List SwitchCase) (locals : List String) :
    Acts fun order => markCapturedCases order cases locals :=
  match cases with
  | [] => acts_id
  | ⟨test, consequent⟩ :: rest =>
      ((acts_captured locals test (acts_mark test)).andThen
        (acts_capturedStatements consequent locals)).andThen (acts_capturedCases rest locals)

theorem acts_capturedStatement (statement : Statement) (locals : List String) :
    Acts fun order => markCapturedStatement order statement locals :=
  match statement with
  | .variableDecl _ _ _ _ value | .returnStatement _ value => acts_capturedOption value locals
  | .block _ statements => acts_capturedStatements statements locals
  | .expressionStatement _ expression | .throwStatement _ expression =>
      acts_captured locals expression (acts_mark expression)
  | .assignment _ target _ value =>
      (acts_captured locals target (acts_mark target)).andThen
        (acts_captured locals value (acts_mark value))
  | .ifStatement _ condition consequence alternative =>
      ((acts_captured locals condition (acts_mark condition)).andThen
        (acts_capturedStatements consequence locals)).andThen
          (acts_capturedStatements alternative locals)
  | .whileStatement _ condition body =>
      (acts_captured locals condition (acts_mark condition)).andThen
        (acts_capturedStatements body locals)
  | .doWhileStatement _ body condition =>
      (acts_capturedStatements body locals).andThen
        (acts_captured locals condition (acts_mark condition))
  | .forStatement _ init condition update body =>
      (((acts_capturedStatementOption init locals).andThen
        (acts_capturedStatementOption update locals)).andThen
          (acts_capturedOption condition locals)).andThen (acts_capturedStatements body locals)
  | .forOfStatement _ _ pattern target iterable body _
  | .forInStatement _ _ pattern target iterable body =>
      ((acts_onTarget pattern (acts_captured locals target (acts_mark target))).andThen
        (acts_captured locals iterable (acts_mark iterable))).andThen
          (acts_capturedStatements body locals)
  | .labeledStatement _ _ statement => acts_capturedStatement statement locals
  | .switchStatement _ discriminant cases default =>
      ((acts_captured locals discriminant (acts_mark discriminant)).andThen
        (acts_capturedCases cases locals)).andThen (acts_capturedStatements default locals)
  | .tryStatement _ tryBody _ catchBody finallyBody =>
      ((acts_capturedStatements tryBody locals).andThen
        (acts_capturedStatements catchBody locals)).andThen
          (acts_capturedStatements finallyBody locals)
  | .empty _ | .functionDecl .. | .classDecl .. | .importDecl .. | .exportDecl ..
  | .breakStatement .. | .continueStatement .. | .debugger _ => acts_id

theorem acts_expression (expression : Expression) (scope : Scope) :
    Acts fun order => analyzeExpression order expression scope :=
  match expression with
  | .functionExpression _ name params body expressionBody =>
      (((acts_capturedOption expressionBody (functionLocals name params body)).andThen
        (acts_capturedStatements body (functionLocals name params body))).andThen
          (acts_option expressionBody (scope.newScope.declareParameters params))).andThen
            ((acts_statements body).report (scope.newScope.declareParameters params))
  | .binary _ _ left right | .comparison _ _ left right | .logical _ _ left right
  | .nullishCoalesce _ left right | .comma _ left right | .instanceof _ left right
  | .index _ left right _ => (acts_expression left scope).andThen (acts_expression right scope)
  | .conditional _ condition consequent alternative =>
      ((acts_expression condition scope).andThen (acts_expression consequent scope)).andThen
        (acts_expression alternative scope)
  | .unary _ _ value | .update _ _ value _ | .typeof _ value | .await _ value | .spread _ value
  | .member _ value _ _ _ => acts_expression value scope
  | .yield _ value _ => acts_option value scope
  | .templateLiteral _ _ expressions => acts_list expressions scope
  | .arrayLiteral _ elements => (acts_markElements elements).andThen (acts_elements elements scope)
  | .objectLiteral _ properties =>
      (acts_markObject properties).andThen (acts_properties properties scope)
  | .call _ callee arguments =>
      (acts_unknownCall scope callee (acts_markList arguments)).andThen (acts_list arguments scope)
  | .invoke _ callee arguments _ | .newExpression _ callee arguments =>
      ((acts_markList arguments).andThen (acts_expression callee scope)).andThen
        (acts_list arguments scope)
  | .identifier .. | .thisExpression _ | .superExpression _ | .numberLiteral .. | .bigIntLiteral ..
  | .stringLiteral .. | .booleanLiteral .. | .nullLiteral _ | .undefinedLiteral _ | .importMeta _
  | .newTarget _ => acts_id

theorem acts_option (value : Option Expression) (scope : Scope) :
    Acts fun order => analyzeOption order value scope :=
  match value with
  | none => acts_id
  | some value => acts_expression value scope

theorem acts_list (expressions : List Expression) (scope : Scope) :
    Acts fun order => analyzeExpressionList order expressions scope :=
  match expressions with
  | [] => acts_id
  | expression :: rest => (acts_expression expression scope).andThen (acts_list rest scope)

theorem acts_elements (elements : List (Option Expression)) (scope : Scope) :
    Acts fun order => analyzeElements order elements scope :=
  match elements with
  | [] => acts_id
  | element :: rest => (acts_option element scope).andThen (acts_elements rest scope)

theorem acts_properties (properties : List ObjectProperty) (scope : Scope) :
    Acts fun order => analyzeProperties order properties scope :=
  match properties with
  | [] => acts_id
  | ⟨_, keyExpr, value, _, _⟩ :: rest =>
      ((acts_option keyExpr scope).andThen (acts_expression value scope)).andThen
        (acts_properties rest scope)

theorem acts_statements (statements : List Statement) :
    ActsScoped fun order => analyzeStatements order statements :=
  match statements with
  | [] => actsScoped_of id fun _ => acts_id
  | statement :: rest => (acts_statement statement).andThen (acts_statements rest)

theorem acts_optionStatement (statement : Option Statement) :
    ActsScoped fun order => analyzeOptionStatement order statement :=
  match statement with
  | none => actsScoped_of id fun _ => acts_id
  | some statement => acts_statement statement

theorem acts_cases (cases : List SwitchCase) (scope : Scope) :
    Acts fun order => analyzeCases order cases scope :=
  match cases with
  | [] => acts_id
  | ⟨test, consequent⟩ :: rest =>
      ((acts_expression test scope).andThen
        ((acts_statements consequent).report scope.newScope)).andThen (acts_cases rest scope)

theorem acts_statement (statement : Statement) :
    ActsScoped fun order => analyzeStatement order statement :=
  match statement with
  | .variableDecl _ _ _ pattern value =>
      actsScoped_of (fun scope => scope.declarePattern pattern) fun scope =>
        (acts_option value scope).andThen (acts_declarationAlias pattern value)
  | .functionDecl _ name params body =>
      actsScoped_of (fun scope => scope.declare name) fun scope =>
        (acts_statements body).report ((scope.declare name).newScope.declareParameters params)
  | .block _ statements => actsScoped_of id fun scope => (acts_statements statements).report scope.newScope
  | .expressionStatement _ expression | .throwStatement _ expression =>
      actsScoped_of id fun scope => acts_expression expression scope
  | .assignment _ target _ value =>
      actsScoped_of id fun scope =>
        ((acts_outerAssignment scope target (acts_mark value)).andThen
          (acts_expression target scope)).andThen (acts_expression value scope)
  | .returnStatement _ value => actsScoped_of id fun _ => acts_markOption value
  | .ifStatement _ condition consequence alternative =>
      actsScoped_of id fun scope =>
        ((acts_expression condition scope).andThen
          ((acts_statements consequence).report scope.newScope)).andThen
            ((acts_statements alternative).report scope.newScope)
  | .whileStatement _ condition body =>
      actsScoped_of id fun scope =>
        (acts_expression condition scope).andThen ((acts_statements body).report scope.newScope)
  | .doWhileStatement _ body condition =>
      actsScoped_of id fun scope =>
        ((acts_statements body).report scope.newScope).andThen (acts_expression condition scope)
  | .forStatement _ init condition update body =>
      -- the initialisation and the update declare in the scope that the condition and the body see
      actsScoped_of id fun scope =>
        ((((acts_optionStatement init).andThen
          (actsScoped_of id fun scope => acts_option condition scope)).andThen
            (acts_optionStatement update)).andThen
              (actsScoped_of Scope.newScope fun _ => acts_id)).andThen
                (acts_statements body) |>.report scope.newScope
  | .forOfStatement _ _ pattern target iterable body _
  | .forInStatement _ _ pattern target iterable body =>
      actsScoped_of id fun scope =>
        ((acts_onTarget pattern
          (acts_expression target (scope.newScope.declarePattern pattern))).andThen
            (acts_expression iterable (scope.newScope.declarePattern pattern))).andThen
              ((acts_statements body).report (scope.newScope.declarePattern pattern).newScope)
  | .labeledStatement _ _ statement => acts_statement statement
  | .switchStatement _ discriminant cases default =>
      actsScoped_of id fun scope =>
        ((acts_expression discriminant scope.newScope).andThen
          (acts_cases cases scope.newScope)).andThen
            ((acts_statements default).report scope.newScope.newScope)
  | .tryStatement _ tryBody catchPattern catchBody finallyBody =>
      actsScoped_of id fun scope =>
        (((acts_statements tryBody).report scope.newScope).andThen
          ((acts_statements catchBody).report (scope.newScope.declarePattern catchPattern))).andThen
            ((acts_statements finallyBody).report scope.newScope)
  | .empty _ | .classDecl .. | .importDecl .. | .exportDecl .. | .breakStatement ..
  | .continueStatement .. | .debugger _ => actsScoped_of id fun _ => acts_id

end

theorem acts_analyzeIn (statements : List Statement) :
    ∃ marks, ∀ order, analyzeIn order statements = replay order Report.new marks := by
  obtain ⟨marks, hmarks⟩ := (acts_statements statements).report (Scope.newScope [])
  exact ⟨marks, fun order => hmarks order Report.new⟩

theorem same_analyzeIn (order order' : AliasOrder) (statements : List Statement) :
    (analyzeIn order statements).Same (analyzeIn order' statements) := by
  obtain ⟨marks, hmarks⟩ := acts_analyzeIn statements
  rw [hmarks, hmarks]
  exact (Report.Same.refl Report.new).replay marks

end Jayess.Escape
