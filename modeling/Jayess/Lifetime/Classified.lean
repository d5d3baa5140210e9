import Jayess.Lifetime.Declarations

/-!
# The declarations that a plan classifies
-/

namespace Jayess.Lifetime

/-- A declaration anywhere in a program, and whether a function expression, a class or an export stands
around it. -/
structure Found where
  declared : Declared
  enclosed : Bool

mutual

/-- The declarations in an expression at a depth. -/
def expressionFound (depth : Nat) : Expression → List Found
  | .functionExpression _ _ params body expressionBody =>
      parametersFound (depth + 1) params ++ statementsFound true (depth + 1) body ++
        optionExpressionFound (depth + 1) expressionBody
  | .templateLiteral _ _ expressions => expressionsFound depth expressions
  | .newExpression _ callee arguments | .invoke _ callee arguments _ =>
      expressionFound depth callee ++ expressionsFound depth arguments
  | .binary _ _ left right | .comparison _ _ left right | .logical _ _ left right
  | .nullishCoalesce _ left right | .comma _ left right | .instanceof _ left right =>
      expressionFound depth left ++ expressionFound depth right
  | .conditional _ condition consequent alternative =>
      expressionFound depth condition ++ expressionFound depth consequent ++
        expressionFound depth alternative
  | .unary _ _ value | .update _ _ value _ | .typeof _ value | .await _ value | .member _ value _ _ _
  | .spread _ value => expressionFound depth value
  | .yield _ value _ => optionExpressionFound depth value
  | .call _ _ arguments => expressionsFound depth arguments
  | .index _ target index _ => expressionFound depth target ++ expressionFound depth index
  | .objectLiteral _ properties => propertiesFound depth properties
  | .arrayLiteral _ elements => elementsFound depth elements
  | .identifier .. | .thisExpression _ | .superExpression _ | .numberLiteral .. | .bigIntLiteral ..
  | .stringLiteral .. | .booleanLiteral .. | .nullLiteral _ | .undefinedLiteral _ | .importMeta _
  | .newTarget _ => []

def expressionsFound (depth : Nat) : List Expression → List Found
  | [] => []
  | expression :: rest => expressionFound depth expression ++ expressionsFound depth rest

def optionExpressionFound (depth : Nat) : Option Expression → List Found
  | none => []
  | some expression => expressionFound depth expression

def elementsFound (depth : Nat) : List (Option Expression) → List Found
  | [] => []
  | element :: rest => optionExpressionFound depth element ++ elementsFound depth rest

def propertiesFound (depth : Nat) : List ObjectProperty → List Found
  | [] => []
  | ⟨_, keyExpr, value, _, _⟩ :: rest =>
      optionExpressionFound depth keyExpr ++ expressionFound depth value ++ propertiesFound depth rest

def patternFound (depth : Nat) : BindingPattern → List Found
  | .name _ => []
  | .default pattern value => optionPatternFound depth pattern ++ expressionFound depth value
  | .rest pattern => optionPatternFound depth pattern
  | .array elements => patternsFound depth elements
  | .object properties => bindingsFound depth properties

def optionPatternFound (depth : Nat) : Option BindingPattern → List Found
  | none => []
  | some pattern => patternFound depth pattern

def patternsFound (depth : Nat) : List (Option BindingPattern) → List Found
  | [] => []
  | pattern :: rest => optionPatternFound depth pattern ++ patternsFound depth rest

def bindingsFound (depth : Nat) : List ObjectBindingProperty → List Found
  | [] => []
  | ⟨_, keyExpr, pattern, _, _⟩ :: rest =>
      optionExpressionFound depth keyExpr ++ optionPatternFound depth pattern ++
        bindingsFound depth rest

def parametersFound (depth : Nat) : List Parameter → List Found
  | [] => []
  | ⟨_, pattern, _, default⟩ :: rest =>
      optionPatternFound depth pattern ++ optionExpressionFound depth default ++
        parametersFound depth rest

def membersFound (depth : Nat) : List ClassMember → List Found
  | [] => []
  | ⟨_, keyExpr, params, body, value, _, _, _, _, _, _, _, _⟩ :: rest =>
      optionExpressionFound depth keyExpr ++ parametersFound (depth + 1) params ++
        statementsFound true (depth + 1) body ++ optionExpressionFound depth value ++
        membersFound depth rest

def statementsFound (enclosed : Bool) (depth : Nat) : List Statement → List Found
  | [] => []
  | statement :: rest => statementFound enclosed depth statement ++ statementsFound enclosed depth rest

def statementFound (enclosed : Bool) (depth : Nat) : Statement → List Found
  | .variableDecl pos _ _ pattern value =>
      ⟨⟨pos, pattern, depth⟩, enclosed⟩ ::
        (optionPatternFound depth pattern ++ optionExpressionFound depth value)
  | .functionDecl _ _ params body =>
      parametersFound (depth + 1) params ++ statementsFound enclosed (depth + 1) body
  | .classDecl _ _ superClass members =>
      optionExpressionFound depth superClass ++ membersFound depth members
  | .exportDecl _ declaration value _ _ _ _ _ =>
      optionFound true depth declaration ++ optionExpressionFound depth value
  | .assignment _ target _ value => expressionFound depth target ++ expressionFound depth value
  | .block _ statements => statementsFound enclosed (depth + 1) statements
  | .ifStatement _ condition consequence alternative =>
      expressionFound depth condition ++ statementsFound enclosed (depth + 1) consequence ++
        statementsFound enclosed (depth + 1) alternative
  | .whileStatement _ condition body | .doWhileStatement _ body condition =>
      expressionFound depth condition ++ statementsFound enclosed (depth + 1) body
  | .forStatement _ init condition update body =>
      optionFound enclosed (depth + 1) init ++ optionExpressionFound (depth + 1) condition ++
        optionFound enclosed (depth + 1) update ++ statementsFound enclosed (depth + 1) body
  | .forInStatement pos _ pattern target value body
  | .forOfStatement pos _ pattern target value body _ =>
      ⟨⟨pos, pattern, depth + 1⟩, enclosed⟩ ::
        (optionPatternFound (depth + 1) pattern ++ expressionFound (depth + 1) target ++
          expressionFound depth value ++ statementsFound enclosed (depth + 1) body)
  | .switchStatement _ discriminant cases default =>
      expressionFound depth discriminant ++ casesFound enclosed (depth + 1) cases ++
        statementsFound enclosed (depth + 1) default
  | .labeledStatement _ _ statement => statementFound enclosed depth statement
  | .expressionStatement _ value | .throwStatement _ value => expressionFound depth value
  | .returnStatement _ value => optionExpressionFound depth value
  | .tryStatement pos tryBody catchPattern catchBody finallyBody =>
      statementsFound enclosed (depth + 1) tryBody ++
        ⟨⟨pos, catchPattern, depth + 1⟩, enclosed⟩ ::
          (optionPatternFound (depth + 1) catchPattern ++
            statementsFound enclosed (depth + 1) catchBody ++
            statementsFound enclosed (depth + 1) finallyBody)
  | .empty _ | .importDecl .. | .breakStatement .. | .continueStatement .. | .debugger _ => []

def casesFound (enclosed : Bool) (depth : Nat) : List SwitchCase → List Found
  | [] => []
  | ⟨test, consequent⟩ :: rest =>
      expressionFound depth test ++ statementsFound enclosed depth consequent ++
        casesFound enclosed depth rest

def optionFound (enclosed : Bool) (depth : Nat) : Option Statement → List Found
  | none => []
  | some statement => statementFound enclosed depth statement

end

/-- All declarations of a program. -/
def programFound (statements : List Statement) : List Found := statementsFound false 0 statements

/-! ## The declarations that the walk meets -/

def unenclosed (found : List Found) : List Declared :=
  (found.filter fun found => !found.enclosed).map Found.declared

def Enclosing (found : List Found) : Prop := ∀ one ∈ found, one.enclosed = true

section Enclosing

variable {first second found : List Found}

theorem enclosing_nil : Enclosing [] := fun _ hmem => absurd hmem List.not_mem_nil

theorem Enclosing.append (hfirst : Enclosing first) (hsecond : Enclosing second) :
    Enclosing (first ++ second) := fun one hmem =>
  (List.mem_append.mp hmem).elim (hfirst one) (hsecond one)

theorem Enclosing.cons (hfound : Enclosing found) (declared : Declared) :
    Enclosing (⟨declared, true⟩ :: found) := List.forall_mem_cons.mpr ⟨rfl, hfound⟩

end Enclosing

mutual

theorem enclosing_expression (depth : Nat) (expression : Expression) :
    Enclosing (expressionFound depth expression) :=
  match expression with
  | .functionExpression _ _ params body expressionBody =>
      ((enclosing_parameters (depth + 1) params).append
        (enclosing_statements (depth + 1) body)).append
          (enclosing_optionExpression (depth + 1) expressionBody)
  | .templateLiteral _ _ expressions => enclosing_expressions depth expressions
  | .newExpression _ callee arguments | .invoke _ callee arguments _ =>
      (enclosing_expression depth callee).append (enclosing_expressions depth arguments)
  | .binary _ _ left right | .comparison _ _ left right | .logical _ _ left right
  | .nullishCoalesce _ left right | .comma _ left right | .instanceof _ left right =>
      (enclosing_expression depth left).append (enclosing_expression depth right)
  | .conditional _ condition consequent alternative =>
      ((enclosing_expression depth condition).append
        (enclosing_expression depth consequent)).append (enclosing_expression depth alternative)
  | .unary _ _ value | .update _ _ value _ | .typeof _ value | .await _ value | .member _ value _ _ _
  | .spread _ value => enclosing_expression depth value
  | .yield _ value _ => enclosing_optionExpression depth value
  | .call _ _ arguments => enclosing_expressions depth arguments
  | .index _ target index _ =>
      (enclosing_expression depth target).append (enclosing_expression depth index)
  | .objectLiteral _ properties => enclosing_properties depth properties
  | .arrayLiteral _ elements => enclosing_elements depth elements
  | .identifier .. | .thisExpression _ | .superExpression _ | .numberLiteral .. | .bigIntLiteral ..
  | .stringLiteral .. | .booleanLiteral .. | .nullLiteral _ | .undefinedLiteral _ | .importMeta _
  | .newTarget _ => enclosing_nil

theorem enclosing_expressions (depth : Nat) (expressions : List Expression) :
    Enclosing (expressionsFound depth expressions) :=
  match expressions with
  | [] => enclosing_nil
  | expression :: rest =>
      (enclosing_expression depth expression).append (enclosing_expressions depth rest)

theorem enclosing_optionExpression (depth : Nat) (expression : Option Expression) :
    Enclosing (optionExpressionFound depth expression) :=
  match expression with
  | none => enclosing_nil
  | some expression => enclosing_expression depth expression

theorem enclosing_elements (depth : Nat) (elements : List (Option Expression)) :
    Enclosing (elementsFound depth elements) :=
  match elements with
  | [] => enclosing_nil
  | element :: rest =>
      (enclosing_optionExpression depth element).append (enclosing_elements depth rest)

theorem enclosing_properties (depth : Nat) (properties : List ObjectProperty) :
    Enclosing (propertiesFound depth properties) :=
  match properties with
  | [] => enclosing_nil
  | ⟨_, keyExpr, value, _, _⟩ :: rest =>
      ((enclosing_optionExpression depth keyExpr).append
        (enclosing_expression depth value)).append (enclosing_properties depth rest)

theorem enclosing_pattern (depth : Nat) (pattern : BindingPattern) :
    Enclosing (patternFound depth pattern) :=
  match pattern with
  | .name _ => enclosing_nil
  | .default pattern value =>
      (enclosing_optionPattern depth pattern).append (enclosing_expression depth value)
  | .rest pattern => enclosing_optionPattern depth pattern
  | .array elements => enclosing_patterns depth elements
  | .object properties => enclosing_bindings depth properties

theorem enclosing_optionPattern (depth : Nat) (pattern : Option BindingPattern) :
    Enclosing (optionPatternFound depth pattern) :=
  match pattern with
  | none => enclosing_nil
  | some pattern => enclosing_pattern depth pattern

theorem enclosing_patterns (depth : Nat) (patterns : List (Option BindingPattern)) :
    Enclosing (patternsFound depth patterns) :=
  match patterns with
  | [] => enclosing_nil
  | pattern :: rest =>
      (enclosing_optionPattern depth pattern).append (enclosing_patterns depth rest)

theorem enclosing_bindings (depth : Nat) (properties : List ObjectBindingProperty) :
    Enclosing (bindingsFound depth properties) :=
  match properties with
  | [] => enclosing_nil
  | ⟨_, keyExpr, pattern, _, _⟩ :: rest =>
      ((enclosing_optionExpression depth keyExpr).append
        (enclosing_optionPattern depth pattern)).append (enclosing_bindings depth rest)

theorem enclosing_parameters (depth : Nat) (params : List Parameter) :
    Enclosing (parametersFound depth params) :=
  match params with
  | [] => enclosing_nil
  | ⟨_, pattern, _, default⟩ :: rest =>
      ((enclosing_optionPattern depth pattern).append
        (enclosing_optionExpression depth default)).append (enclosing_parameters depth rest)

theorem enclosing_members (depth : Nat) (members : List ClassMember) :
    Enclosing (membersFound depth members) :=
  match members with
  | [] => enclosing_nil
  | ⟨_, keyExpr, params, body, value, _, _, _, _, _, _, _, _⟩ :: rest =>
      ((((enclosing_optionExpression depth keyExpr).append
        (enclosing_parameters (depth + 1) params)).append
          (enclosing_statements (depth + 1) body)).append
            (enclosing_optionExpression depth value)).append (enclosing_members depth rest)

theorem enclosing_statements (depth : Nat) (statements : List Statement) :
    Enclosing (statementsFound true depth statements) :=
  match statements with
  | [] => enclosing_nil
  | statement :: rest =>
      (enclosing_statement depth statement).append (enclosing_statements depth rest)

theorem enclosing_statement (depth : Nat) (statement : Statement) :
    Enclosing (statementFound true depth statement) :=
  match statement with
  | .variableDecl _ _ _ pattern value =>
      ((enclosing_optionPattern depth pattern).append
        (enclosing_optionExpression depth value)).cons _
  | .functionDecl _ _ params body =>
      (enclosing_parameters (depth + 1) params).append (enclosing_statements (depth + 1) body)
  | .classDecl _ _ superClass members =>
      (enclosing_optionExpression depth superClass).append (enclosing_members depth members)
  | .exportDecl _ declaration value _ _ _ _ _ =>
      (enclosing_option depth declaration).append (enclosing_optionExpression depth value)
  | .assignment _ target _ value =>
      (enclosing_expression depth target).append (enclosing_expression depth value)
  | .block _ statements => enclosing_statements (depth + 1) statements
  | .ifStatement _ condition consequence alternative =>
      ((enclosing_expression depth condition).append
        (enclosing_statements (depth + 1) consequence)).append
          (enclosing_statements (depth + 1) alternative)
  | .whileStatement _ condition body | .doWhileStatement _ body condition =>
      (enclosing_expression depth condition).append (enclosing_statements (depth + 1) body)
  | .forStatement _ init condition update body =>
      (((enclosing_option (depth + 1) init).append
        (enclosing_optionExpression (depth + 1) condition)).append
          (enclosing_option (depth + 1) update)).append (enclosing_statements (depth + 1) body)
  | .forInStatement _ _ pattern target value body
  | .forOfStatement _ _ pattern target value body _ =>
      ((((enclosing_optionPattern (depth + 1) pattern).append
        (enclosing_expression (depth + 1) target)).append
          (enclosing_expression depth value)).append (enclosing_statements (depth + 1) body)).cons _
  | .switchStatement _ discriminant cases default =>
      ((enclosing_expression depth discriminant).append
        (enclosing_cases (depth + 1) cases)).append (enclosing_statements (depth + 1) default)
  | .labeledStatement _ _ statement => enclosing_statement depth statement
  | .expressionStatement _ value | .throwStatement _ value => enclosing_expression depth value
  | .returnStatement _ value => enclosing_optionExpression depth value
  | .tryStatement _ tryBody catchPattern catchBody finallyBody =>
      (enclosing_statements (depth + 1) tryBody).append
        ((((enclosing_optionPattern (depth + 1) catchPattern).append
          (enclosing_statements (depth + 1) catchBody)).append
            (enclosing_statements (depth + 1) finallyBody)).cons _)
  | .empty _ | .importDecl .. | .breakStatement .. | .continueStatement .. | .debugger _ =>
      enclosing_nil

theorem enclosing_cases (depth : Nat) (cases : List SwitchCase) :
    Enclosing (casesFound true depth cases) :=
  match cases with
  | [] => enclosing_nil
  | ⟨test, consequent⟩ :: rest =>
      ((enclosing_expression depth test).append
        (enclosing_statements depth consequent)).append (enclosing_cases depth rest)

theorem enclosing_option (depth : Nat) (statement : Option Statement) :
    Enclosing (optionFound true depth statement) :=
  match statement with
  | none => enclosing_nil
  | some statement => enclosing_statement depth statement

end

section Unenclosed

variable {first second found : List Found}

theorem unenclosed_append (first second : List Found) :
    unenclosed (first ++ second) = unenclosed first ++ unenclosed second := by
  rw [unenclosed, List.filter_append, List.map_append]
  rfl

theorem unenclosed_cons (declared : Declared) (found : List Found) :
    unenclosed (⟨declared, false⟩ :: found) = declared :: unenclosed found := rfl

theorem Enclosing.unenclosed_eq_nil (hfound : Enclosing found) : unenclosed found = [] := by
  have hnone : found.filter (fun one => !one.enclosed) = [] := by
    refine List.filter_eq_nil_iff.mpr fun one hmem => ?_
    rw [hfound one hmem]
    exact Bool.false_ne_true
  rw [unenclosed, hnone]
  rfl

theorem unenclosed_expression (depth : Nat) (expression : Expression) :
    unenclosed (expressionFound depth expression) = [] :=
  (enclosing_expression depth expression).unenclosed_eq_nil

theorem unenclosed_optionExpression (depth : Nat) (expression : Option Expression) :
    unenclosed (optionExpressionFound depth expression) = [] :=
  (enclosing_optionExpression depth expression).unenclosed_eq_nil

theorem unenclosed_optionPattern (depth : Nat) (pattern : Option BindingPattern) :
    unenclosed (optionPatternFound depth pattern) = [] :=
  (enclosing_optionPattern depth pattern).unenclosed_eq_nil

theorem unenclosed_parameters (depth : Nat) (params : List Parameter) :
    unenclosed (parametersFound depth params) = [] :=
  (enclosing_parameters depth params).unenclosed_eq_nil

theorem unenclosed_members (depth : Nat) (members : List ClassMember) :
    unenclosed (membersFound depth members) = [] :=
  (enclosing_members depth members).unenclosed_eq_nil

theorem unenclosed_exported (depth : Nat) (statement : Option Statement) :
    unenclosed (optionFound true depth statement) = [] :=
  (enclosing_option depth statement).unenclosed_eq_nil

end Unenclosed

mutual

theorem unenclosed_statements (depth : Nat) (statements : List Statement) :
    unenclosed (statementsFound false depth statements) = statementsDeclared depth statements :=
  match statements with
  | [] => rfl
  | statement :: rest => by
      rw [statementsFound, statementsDeclared, unenclosed_append, unenclosed_statement,
        unenclosed_statements]

theorem unenclosed_statement (depth : Nat) (statement : Statement) :
    unenclosed (statementFound false depth statement) = statementDeclared depth statement :=
  match statement with
  | .variableDecl .. => by
      rw [statementFound, statementDeclared, unenclosed_cons, unenclosed_append,
        unenclosed_optionPattern, unenclosed_optionExpression, List.append_nil]
  | .functionDecl _ _ _ body => by
      rw [statementFound, statementDeclared, unenclosed_append, unenclosed_parameters,
        unenclosed_statements, List.nil_append]
  | .classDecl .. => by
      rw [statementFound, statementDeclared, unenclosed_append, unenclosed_optionExpression,
        unenclosed_members, List.append_nil]
      all_goals nofun
  | .exportDecl .. => by
      rw [statementFound, statementDeclared, unenclosed_append, unenclosed_exported,
        unenclosed_optionExpression, List.append_nil]
      all_goals nofun
  | .assignment .. => by
      rw [statementFound, statementDeclared, unenclosed_append, unenclosed_expression,
        unenclosed_expression, List.append_nil]
      all_goals nofun
  | .block _ statements => by rw [statementFound, statementDeclared, unenclosed_statements]
  | .ifStatement _ _ consequence alternative => by
      rw [statementFound, statementDeclared, unenclosed_append, unenclosed_append,
        unenclosed_expression, unenclosed_statements, unenclosed_statements, List.nil_append]
  | .whileStatement _ _ body | .doWhileStatement _ body _ => by
      rw [statementFound, statementDeclared, unenclosed_append, unenclosed_expression,
        unenclosed_statements, List.nil_append]
  | .forStatement _ init _ update body => by
      rw [statementFound, statementDeclared, unenclosed_append, unenclosed_append, unenclosed_append,
        unenclosed_option, unenclosed_optionExpression, unenclosed_option, unenclosed_statements,
        List.append_nil]
  | .forInStatement _ _ _ _ _ body | .forOfStatement _ _ _ _ _ body _ => by
      rw [statementFound, statementDeclared, unenclosed_cons, unenclosed_append, unenclosed_append,
        unenclosed_append, unenclosed_optionPattern, unenclosed_expression, unenclosed_expression,
        unenclosed_statements, List.nil_append, List.nil_append, List.nil_append]
  | .switchStatement _ _ cases default => by
      rw [statementFound, statementDeclared, unenclosed_append, unenclosed_append,
        unenclosed_expression, unenclosed_cases, unenclosed_statements, List.nil_append]
  | .labeledStatement _ _ statement => by
      rw [statementFound, statementDeclared, unenclosed_statement]
  | .expressionStatement .. | .throwStatement .. => by
      rw [statementFound, statementDeclared, unenclosed_expression]
      all_goals nofun
  | .returnStatement .. => by
      rw [statementFound, statementDeclared, unenclosed_optionExpression]
      all_goals nofun
  | .tryStatement _ tryBody _ catchBody finallyBody => by
      rw [statementFound, statementDeclared, unenclosed_append, unenclosed_cons, unenclosed_append,
        unenclosed_append, unenclosed_optionPattern, unenclosed_statements, unenclosed_statements,
        unenclosed_statements, List.nil_append, List.append_assoc, List.append_assoc]
      rfl
  | .empty _ | .importDecl .. | .breakStatement .. | .continueStatement .. | .debugger _ => rfl

theorem unenclosed_cases (depth : Nat) (cases : List SwitchCase) :
    unenclosed (casesFound false depth cases) = casesDeclared depth cases :=
  match cases with
  | [] => rfl
  | ⟨_, consequent⟩ :: rest => by
      rw [casesFound, casesDeclared, unenclosed_append, unenclosed_append, unenclosed_expression,
        unenclosed_statements, unenclosed_cases, List.nil_append]

theorem unenclosed_option (depth : Nat) (statement : Option Statement) :
    unenclosed (optionFound false depth statement) = optionDeclared depth statement :=
  match statement with
  | none => rfl
  | some statement => by rw [optionFound, optionDeclared, unenclosed_statement]

end

/-- The entries of a plan, by the name and the position of the declaration. -/
def Plan.keys (plan : Plan) : List (String × SourcePos) :=
  plan.scopeExitCleanups.map (fun cleanup => (cleanup.binding, ⟨cleanup.line, cleanup.column⟩)) ++
    plan.extendedLifetimes.map fun extended => (extended.binding, ⟨extended.line, extended.column⟩)

def Declared.keys (order : MapOrder) (declared : Declared) : List (String × SourcePos) :=
  (declared.names order).map fun name => (name, declared.pos)

def Declared.Binds (name : String) (pos : SourcePos) (declared : Declared) : Prop :=
  declared.pos = pos ∧ name ∈ patternNames declared.pattern

instance (name : String) (pos : SourcePos) : DecidablePred (Declared.Binds name pos) :=
  fun declared => inferInstanceAs (Decidable (declared.pos = pos ∧ _))

section Keys

variable {order : MapOrder} {report : Report} {statements : List Statement} {name : String}
  {pos : SourcePos}

theorem keys_append_perm (cleanups cleanups' : List Cleanup)
    (extended extended' : List ExtendedLifetime) :
    (Plan.keys ⟨cleanups ++ cleanups', extended ++ extended', []⟩).Perm
      (Plan.keys ⟨cleanups, extended, []⟩ ++ Plan.keys ⟨cleanups', extended', []⟩) := by
  rw [Plan.keys, Plan.keys, Plan.keys, List.map_append, List.map_append, List.append_assoc,
    List.append_assoc]
  refine .append_left _ ?_
  rw [← List.append_assoc, ← List.append_assoc]
  exact List.perm_append_comm.append_right _

theorem Declared.keys_perm (report : Escape.Report) (declared : Declared) :
    (Plan.keys ⟨declared.cleanups order report, declared.extended order report, []⟩).Perm
      (declared.keys order) := by
  have hcleanups : (declared.cleanups order report).map
      (fun cleanup => (cleanup.binding, (⟨cleanup.line, cleanup.column⟩ : SourcePos))) =
      ((declared.names order).filter fun name => ¬Outlives report declared.depth name).map
        fun name => (name, declared.pos) := by
    rw [Declared.cleanups, List.map_map]
    rfl
  have hextended : (declared.extended order report).map
      (fun extended => (extended.binding, (⟨extended.line, extended.column⟩ : SourcePos))) =
      ((declared.names order).filter fun name => Outlives report declared.depth name).map
        fun name => (name, declared.pos) := by
    rw [Declared.extended, List.map_map]
    rfl
  have hsplit := List.filter_append_perm
    (fun name => decide (Outlives report declared.depth name)) (declared.names order)
  rw [Plan.keys, hcleanups, hextended, ← List.map_append, Declared.keys]
  refine List.Perm.map _ (List.perm_append_comm.trans ?_)
  simpa only [decide_not] using hsplit

theorem keys_met_perm (report : Escape.Report) (met : List Declared) :
    (Plan.keys ⟨met.flatMap (·.cleanups order report), met.flatMap (·.extended order report), []⟩).Perm
      (met.flatMap (·.keys order)) := by
  induction met with
  | nil => exact .nil
  | cons declared met ih =>
      rw [List.flatMap_cons, List.flatMap_cons, List.flatMap_cons]
      exact (keys_append_perm _ _ _ _).trans ((declared.keys_perm report).append ih)

theorem keys_plan_perm : (buildScopeExitPlan order statements).keys.Perm
    ((statementsDeclared 0 statements).flatMap (·.keys order)) := by
  rw [Plan.keys, cleanups_plan, extended_plan]
  exact keys_met_perm (Escape.analyze statements) (statementsDeclared 0 statements)

theorem Declared.count_keys (declared : Declared) :
    (declared.keys order).count (name, pos) = if declared.Binds name pos then 1 else 0 := by
  have hnodup : (declared.keys order).Nodup := by
    refine List.Nodup.map (fun first second heq => (Prod.mk.inj heq).1) ?_
    exact (order.perm _).nodup_iff.mpr (List.nodup_dedup _)
  rw [hnodup.count]
  refine if_congr ?_ rfl rfl
  rw [Declared.keys, List.mem_map]
  constructor
  · rintro ⟨used, hused, heq⟩
    obtain ⟨rfl, rfl⟩ := Prod.mk.inj heq
    exact ⟨rfl, Declared.mem_names.mp hused⟩
  · rintro ⟨rfl, hname⟩
    exact ⟨name, Declared.mem_names.mpr hname, rfl⟩

theorem count_keys_plan : (buildScopeExitPlan order statements).keys.count (name, pos) =
    (statementsDeclared 0 statements).countP fun declared => declared.Binds name pos := by
  rw [keys_plan_perm.count_eq]
  induction statementsDeclared 0 statements with
  | nil => rfl
  | cons declared rest ih =>
      rw [List.flatMap_cons, List.count_append, ih, Declared.count_keys, List.countP_cons]
      simp only [decide_eq_true_eq]
      exact Nat.add_comm _ _

end Keys

namespace Found

/-- Each name of the declaration has one entry in the plan. -/
def Classified (plan : Plan) (found : Found) : Prop :=
  ∀ name ∈ patternNames found.declared.pattern, plan.keys.count (name, found.declared.pos) = 1

/-- One declaration that nothing encloses binds each name of this one at its position. -/
def Alone (all : List Found) (found : Found) : Prop :=
  ∀ name ∈ patternNames found.declared.pattern,
    (unenclosed all).countP (fun declared => declared.Binds name found.declared.pos) = 1

def Apart (found other : Found) : Prop :=
  ∀ name ∈ patternNames found.declared.pattern, ¬other.declared.Binds name found.declared.pos

end Found

/-- Each declaration of a program in some scope is classified exactly where each is alone: one that
nothing encloses binds its names at its position. -/
theorem classified_iff (order : MapOrder) (statements : List Statement) :
    (∀ found ∈ programFound statements, 1 ≤ found.declared.depth →
      found.Classified (buildScopeExitPlan order statements)) ↔
    ∀ found ∈ programFound statements, 1 ≤ found.declared.depth →
      found.Alone (programFound statements) := by
  refine forall₃_congr fun found _ _ => forall₂_congr fun name _ => ?_
  rw [count_keys_plan, programFound, unenclosed_statements]

/-- `const f = function () { const x = 1; };` -/
def localInFunction : List Statement :=
  [.variableDecl ⟨1, 1⟩ .const "f" (some (.name "f"))
    (some (.functionExpression ⟨1, 11⟩ "" []
      [.variableDecl ⟨1, 25⟩ .const "x" (some (.name "x")) (some (.numberLiteral ⟨1, 35⟩ "1"))]
      none))]

/-- The walk for scope exits does not enter a function expression. -/
theorem localInFunction_unclassified :
    ¬∀ (order : MapOrder) (statements : List Statement), ∀ found ∈ programFound statements,
      1 ≤ found.declared.depth → found.Classified (buildScopeExitPlan order statements) := by
  intro hclaim
  have hclassified := hclaim .insertion localInFunction
    ⟨⟨⟨1, 25⟩, some (.name "x"), 1⟩, true⟩ (.tail _ List.mem_cons_self) (Nat.le_refl 1) "x"
    List.mem_cons_self
  rw [count_keys_plan] at hclassified
  exact absurd hclassified (by decide)

end Jayess.Lifetime
