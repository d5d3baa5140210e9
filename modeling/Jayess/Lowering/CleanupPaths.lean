import Jayess.Lowering.CleanupExits

/-!
# The cleanups of every exit
-/

namespace Jayess.Lowering

open Lifetime (Cleanup Plan)
open CleanupFrame (declared findFrame)

section Declarations

variable {cleanups : List Cleanup}

def listedOps (entries : List Entry) : List CleanupOp := (entries.filter Entry.listed).map Entry.op

theorem listedOps_nil : listedOps [] = [] := rfl

theorem listedOps_append (first second : List Entry) :
    listedOps (first ++ second) = listedOps first ++ listedOps second := by
  rw [listedOps, List.filter_append, List.map_append]
  rfl

theorem length_listedOps (entries : List Entry) :
    (listedOps entries).length = entries.countP Entry.listed := by
  rw [listedOps, List.length_map, List.countP_eq_length_filter]

theorem listedOps_entriesFrom (pos : SourcePos) (names seen : List String) :
    listedOps (entriesFrom cleanups pos seen names) =
      names.filterMap (cleanupOpFor cleanups pos) := by
  induction names generalizing seen with
  | nil => rfl
  | cons name rest ih =>
      rw [entriesFrom, listedOps_append, ih, List.filterMap_cons]
      cases cleanupOpFor cleanups pos name <;> rfl

theorem listedOps_declaredEntries (pos : SourcePos) (pattern : Option BindingPattern) :
    listedOps (declaredEntries cleanups pos pattern) =
      cleanupOpsForDeclaration cleanups pos pattern := listedOps_entriesFrom pos _ []

theorem listedOps_unlisted (entries : List Entry) :
    listedOps (entries.map fun entry => { entry with listed := false }) = [] := by
  rw [listedOps, List.filter_map]
  exact congrArg _ (congrArg _ (List.filter_false entries))

theorem listedOps_surplus (entries : List Entry) :
    listedOps (entries.map fun entry => { entry with surplus := true }) = listedOps entries := by
  rw [listedOps, List.filter_map, List.map_map]
  rfl

end Declarations

/-! ## Exits where the lowering does not come -/

def Silent (exits : List Exit) : Prop := ∀ exit ∈ exits, exit.boundary = none

section Silent

variable {first second exits : List Exit} {context : ExitContext}

theorem silent_nil : Silent [] := fun _ hmem => absurd hmem List.not_mem_nil

theorem Silent.append (hfirst : Silent first) (hsecond : Silent second) : Silent (first ++ second) :=
  fun exit hmem => (List.mem_append.mp hmem).elim (hfirst exit) (hsecond exit)

theorem silent_exit (hunvisited : context.visited = false) (path : CleanupPath) (pos : SourcePos)
    (boundary leaving : Option Nat) : Silent [context.exit path pos boundary leaving] := by
  intro exit hmem
  rw [List.mem_singleton.mp hmem, ExitContext.exit, hunvisited]
  rfl

theorem silent_forEnd (context : ExitContext) (ends : Bool) : Silent [context.forEnd ends] := by
  intro exit hmem
  rw [List.mem_singleton.mp hmem, ExitContext.forEnd, ExitContext.exit]
  exact ite_self none

def emittedOps (exits : List Exit) : List ControlFlowCleanupOp := exits.flatMap Exit.emitted

theorem emittedOps_append (first second : List Exit) :
    emittedOps (first ++ second) = emittedOps first ++ emittedOps second := List.flatMap_append

theorem emittedOps_singleton (exit : Exit) : emittedOps [exit] = exit.emitted := List.flatMap_singleton ..

theorem Silent.emittedOps_eq_nil (hsilent : Silent exits) : emittedOps exits = [] := by
  refine List.flatMap_eq_nil_iff.mpr fun exit hmem => ?_
  rw [Exit.emitted, Exit.lowered, hsilent exit hmem]
  rfl

end Silent

section Unvisited

variable {cleanups : List Cleanup}

mutual

theorem silent_expression (expression : Expression) : Silent (expressionExits cleanups expression) :=
  match expression with
  | .functionExpression _ _ params body expressionBody =>
      ((silent_parameters params).append (silent_statements .unvisitedFunction rfl body)).append
        (silent_optionExpression expressionBody)
  | .templateLiteral _ _ expressions => silent_expressions expressions
  | .newExpression _ callee arguments | .invoke _ callee arguments _ =>
      (silent_expression callee).append (silent_expressions arguments)
  | .binary _ _ left right | .comparison _ _ left right | .logical _ _ left right
  | .nullishCoalesce _ left right | .comma _ left right | .instanceof _ left right =>
      (silent_expression left).append (silent_expression right)
  | .conditional _ condition consequent alternative =>
      ((silent_expression condition).append (silent_expression consequent)).append
        (silent_expression alternative)
  | .unary _ _ value | .update _ _ value _ | .typeof _ value | .await _ value | .member _ value _ _ _
  | .spread _ value => silent_expression value
  | .yield _ value _ => silent_optionExpression value
  | .call _ _ arguments => silent_expressions arguments
  | .index _ target index _ => (silent_expression target).append (silent_expression index)
  | .objectLiteral _ properties => silent_properties properties
  | .arrayLiteral _ elements => silent_elements elements
  | .identifier .. | .thisExpression _ | .superExpression _ | .numberLiteral .. | .bigIntLiteral ..
  | .stringLiteral .. | .booleanLiteral .. | .nullLiteral _ | .undefinedLiteral _ | .importMeta _
  | .newTarget _ => silent_nil

theorem silent_expressions (expressions : List Expression) :
    Silent (expressionsExits cleanups expressions) :=
  match expressions with
  | [] => silent_nil
  | expression :: rest => (silent_expression expression).append (silent_expressions rest)

theorem silent_optionExpression (expression : Option Expression) :
    Silent (optionExpressionExits cleanups expression) :=
  match expression with
  | none => silent_nil
  | some expression => silent_expression expression

theorem silent_elements (elements : List (Option Expression)) :
    Silent (elementsExits cleanups elements) :=
  match elements with
  | [] => silent_nil
  | element :: rest => (silent_optionExpression element).append (silent_elements rest)

theorem silent_properties (properties : List ObjectProperty) :
    Silent (propertiesExits cleanups properties) :=
  match properties with
  | [] => silent_nil
  | ⟨_, keyExpr, value, _, _⟩ :: rest =>
      ((silent_optionExpression keyExpr).append (silent_expression value)).append
        (silent_properties rest)

theorem silent_pattern (pattern : BindingPattern) : Silent (patternExits cleanups pattern) :=
  match pattern with
  | .name _ => silent_nil
  | .default pattern value => (silent_optionPattern pattern).append (silent_expression value)
  | .rest pattern => silent_optionPattern pattern
  | .array elements => silent_patterns elements
  | .object properties => silent_bindings properties

theorem silent_optionPattern (pattern : Option BindingPattern) :
    Silent (optionPatternExits cleanups pattern) :=
  match pattern with
  | none => silent_nil
  | some pattern => silent_pattern pattern

theorem silent_patterns (patterns : List (Option BindingPattern)) :
    Silent (patternsExits cleanups patterns) :=
  match patterns with
  | [] => silent_nil
  | pattern :: rest => (silent_optionPattern pattern).append (silent_patterns rest)

theorem silent_bindings (properties : List ObjectBindingProperty) :
    Silent (bindingsExits cleanups properties) :=
  match properties with
  | [] => silent_nil
  | ⟨_, keyExpr, pattern, _, _⟩ :: rest =>
      ((silent_optionExpression keyExpr).append (silent_optionPattern pattern)).append
        (silent_bindings rest)

theorem silent_parameters (params : List Parameter) : Silent (parametersExits cleanups params) :=
  match params with
  | [] => silent_nil
  | ⟨_, pattern, _, default⟩ :: rest =>
      ((silent_optionPattern pattern).append (silent_optionExpression default)).append
        (silent_parameters rest)

theorem silent_members (members : List ClassMember) : Silent (membersExits cleanups members) :=
  match members with
  | [] => silent_nil
  | ⟨_, keyExpr, params, body, value, _, _, _, _, _, _, _, _⟩ :: rest =>
      ((((silent_optionExpression keyExpr).append (silent_parameters params)).append
        (silent_statements .unvisitedFunction rfl body)).append
          (silent_optionExpression value)).append (silent_members rest)

theorem silent_statements (context : ExitContext) (hunvisited : context.visited = false)
    (statements : List Statement) : Silent (statementsExits cleanups context statements) :=
  match statements with
  | [] => silent_exit hunvisited _ _ _ _
  | statement :: rest =>
      (silent_statement context hunvisited statement).append
        (silent_statements (context.after cleanups statement)
          (by rw [ExitContext.after, hunvisited]; rfl) rest)

theorem silent_statement (context : ExitContext) (hunvisited : context.visited = false)
    (statement : Statement) : Silent (statementExits cleanups context statement) :=
  match statement with
  | .variableDecl _ _ _ pattern value =>
      (silent_optionPattern pattern).append (silent_optionExpression value)
  | .functionDecl _ _ params body =>
      (silent_parameters params).append (silent_statements context.enterFunction hunvisited body)
  | .classDecl _ _ superClass members =>
      (silent_optionExpression superClass).append (silent_members members)
  | .exportDecl _ declaration value _ _ _ _ _ =>
      (silent_option context.unvisited rfl declaration).append (silent_optionExpression value)
  | .assignment _ target _ value => (silent_expression target).append (silent_expression value)
  | .block _ statements => silent_statements (context.push .scope []) hunvisited statements
  | .ifStatement _ condition consequence alternative =>
      ((silent_expression condition).append
        (silent_statements (context.push .scope []) hunvisited consequence)).append
          (silent_statements (context.push .scope []) hunvisited alternative)
  | .whileStatement _ condition body | .doWhileStatement _ body condition =>
      (silent_expression condition).append
        (silent_statements (context.push (.loop true) []) hunvisited body)
  | .forStatement _ init condition update body =>
      ((((silent_option context hunvisited init).append (silent_optionExpression condition)).append
        (silent_option (context.enterFor cleanups init).unvisited rfl update)).append
          (silent_statements (context.enterFor cleanups init)
            (by rw [ExitContext.enterFor, hunvisited]; rfl) body)).append (silent_forEnd _ _)
  | .forInStatement pos _ pattern target value body
  | .forOfStatement pos _ pattern target value body _ =>
      (((silent_optionPattern pattern).append (silent_expression target)).append
        (silent_expression value)).append
          (silent_statements (context.push (.loop true) (declaredEntries cleanups pos pattern))
            hunvisited body)
  | .switchStatement _ discriminant cases default =>
      ((silent_expression discriminant).append
        (silent_cases (context.push .switch []) hunvisited cases)).append
          (silent_statements ((context.push .switch []).push .scope []) hunvisited default)
  | .labeledStatement _ label statement =>
      silent_statement (context.push (.label label) []) hunvisited statement
  | .expressionStatement _ value => silent_expression value
  | .tryStatement pos tryBody catchPattern catchBody finallyBody =>
      (((silent_statements (context.push _ []) hunvisited tryBody).append
        (silent_optionPattern catchPattern)).append
          (silent_statements (context.push .scope (declaredEntries cleanups pos catchPattern))
            hunvisited catchBody)).append
              (silent_statements (context.push .scope []) hunvisited finallyBody)
  | .returnStatement _ value =>
      (silent_optionExpression value).append (silent_exit hunvisited _ _ _ _)
  | .throwStatement _ value => (silent_expression value).append (silent_exit hunvisited _ _ _ _)
  | .breakStatement .. | .continueStatement .. => silent_exit hunvisited _ _ _ _
  | .empty _ | .importDecl .. | .debugger _ => silent_nil

theorem silent_cases (context : ExitContext) (hunvisited : context.visited = false)
    (cases : List SwitchCase) : Silent (casesExits cleanups context cases) :=
  match cases with
  | [] => silent_nil
  | ⟨test, consequent⟩ :: rest =>
      ((silent_expression test).append
        (silent_statements (context.push .scope []) hunvisited consequent)).append
          (silent_cases context hunvisited rest)

theorem silent_option (context : ExitContext) (hunvisited : context.visited = false)
    (statement : Option Statement) : Silent (optionExits cleanups context statement) :=
  match statement with
  | none => silent_nil
  | some statement => silent_statement context hunvisited statement

end

end Unvisited

/-! ## What the lowering emits -/

namespace ExitContext

/-- The active cleanups of the lowering. -/
def active (context : ExitContext) : List CleanupOp := listedOps (declared context.frames)

variable {cleanups : List Cleanup} {context : ExitContext}

theorem length_active (context : ExitContext) :
    context.active.length = (declared context.frames).countP Entry.listed := length_listedOps _

theorem emitted_exit (hvisited : context.visited = true) (path : CleanupPath) (pos : SourcePos)
    (start : Nat) (leaving : Option Nat) :
    (context.exit path pos (some start) leaving).emitted =
      exitOps path pos (context.active.drop start) := by
  rw [exit, hvisited, active, listedOps, ← List.map_drop]
  rfl

theorem active_push (context : ExitContext) (kind : FrameKind) (head : List Entry) :
    (context.push kind head).active = context.active ++ listedOps head := by
  change listedOps (declared context.frames ++ (head ++ [])) = _
  rw [List.append_nil, listedOps_append]
  rfl

theorem active_after (context : ExitContext) (statement : Statement) :
    (context.after cleanups statement).active =
      context.active ++ listedOps (scopeEntries cleanups statement) := by
  change listedOps (declared context.outer ++ (context.frame.head ++ (context.frame.entries ++ _))) = _
  rw [← List.append_assoc, ← List.append_assoc, listedOps_append, List.append_assoc]
  rfl

theorem scopeStart_push (context : ExitContext) (kind : FrameKind) (head : List Entry) :
    (context.push kind head).scopeStart = (context.active ++ listedOps head).length := by
  rw [List.length_append, length_active, length_listedOps, ← List.countP_append]
  rfl

theorem breakBoundary_after (statement : Statement) :
    (context.after cleanups statement).breakBoundary = context.breakBoundary := rfl

theorem continueBoundary_after (statement : Statement) :
    (context.after cleanups statement).continueBoundary = context.continueBoundary := rfl

end ExitContext

structure Stands (cleanups : List Cleanup) (lowerer : CleanupLowerer) (context : ExitContext) :
    Prop where
  cleanups : lowerer.cleanups = cleanups
  visited : context.visited = true
  breakBoundary : lowerer.breakBoundary = context.breakBoundary
  continueBoundary : lowerer.continueBoundary = context.continueBoundary

namespace CleanupLowerer

def append (lowerer : CleanupLowerer) (ops : List ControlFlowCleanupOp) : CleanupLowerer :=
  { lowerer with ops := lowerer.ops ++ ops }

theorem append_nil (lowerer : CleanupLowerer) : lowerer.append [] = lowerer := by
  rw [append, List.append_nil]

theorem append_append (lowerer : CleanupLowerer) (first second : List ControlFlowCleanupOp) :
    (lowerer.append first).append second = lowerer.append (first ++ second) := by
  rw [append, append, append, List.append_assoc]

theorem emitCleanupsFromBoundary_eq (lowerer : CleanupLowerer) {context : ExitContext}
    (hvisited : context.visited = true) (boundary : Option Nat) (path : CleanupPath)
    (pos : SourcePos) (leaving : Option Nat) :
    lowerer.emitCleanupsFromBoundary context.active boundary path pos =
      lowerer.append (context.exit path pos boundary leaving).emitted := by
  cases boundary with
  | none =>
      have hnone : (context.exit path pos none leaving).emitted = [] := by
        rw [ExitContext.exit, ite_self]
        rfl
      rw [hnone, append_nil]
      rfl
  | some boundary =>
      rw [ExitContext.emitted_exit hvisited, emitCleanupsFromBoundary]
      split
      · rename_i hover
        rw [List.drop_eq_nil_of_le (Nat.le_of_lt hover)]
        exact (append_nil lowerer).symm
      · rfl

end CleanupLowerer

namespace Stands

variable {cleanups : List Cleanup} {lowerer : CleanupLowerer} {context : ExitContext}

theorem append (hstands : Stands cleanups lowerer context) (ops : List ControlFlowCleanupOp) :
    Stands cleanups (lowerer.append ops) context :=
  ⟨hstands.cleanups, hstands.visited, hstands.breakBoundary, hstands.continueBoundary⟩

theorem after (hstands : Stands cleanups lowerer context) {statement : Statement}
    (hfalls : fallsThrough statement = true) :
    Stands cleanups lowerer (context.after cleanups statement) where
  cleanups := hstands.cleanups
  visited := by rw [ExitContext.after, hstands.visited, hfalls]; rfl
  breakBoundary := by rw [hstands.breakBoundary, ExitContext.breakBoundary_after]
  continueBoundary := by rw [hstands.continueBoundary, ExitContext.continueBoundary_after]

theorem push (hstands : Stands cleanups lowerer context) {kind : FrameKind} (head : List Entry)
    (hbreakable : CleanupFrame.isBreakable ⟨kind, head, []⟩ = false)
    (hloop : CleanupFrame.isLoop ⟨kind, head, []⟩ = false) :
    Stands cleanups lowerer (context.push kind head) where
  cleanups := hstands.cleanups
  visited := hstands.visited
  breakBoundary := by
    rw [hstands.breakBoundary]
    exact (if_neg (Bool.eq_false_iff.mp hbreakable)).symm
  continueBoundary := by
    rw [hstands.continueBoundary]
    exact (if_neg (Bool.eq_false_iff.mp hloop)).symm

theorem pushLoop (hstands : Stands cleanups lowerer context) (perIteration : Bool)
    (head : List Entry) :
    Stands cleanups (lowerer.enterLoop (context.active ++ listedOps head).length)
      (context.push (.loop perIteration) head) := by
  have hlength : (context.active ++ listedOps head).length =
      (declared context.frames ++ head).countP Entry.listed := by
    rw [List.length_append, length_listedOps, context.length_active, List.countP_append]
  refine ⟨hstands.cleanups, hstands.visited, ?_, ?_⟩
  · rw [hlength]
    rfl
  · rw [hlength]
    rfl

theorem enterFor (hstands : Stands cleanups lowerer context) {init : Option Statement}
    (hfalls : optionFallsThrough init = true) :
    Stands cleanups
      (lowerer.enterLoop (context.active ++ listedOps (optionEntries cleanups init)).length)
      (context.enterFor cleanups init) := by
  have hpushed := hstands.pushLoop false (optionEntries cleanups init)
  refine ⟨hpushed.cleanups, ?_, hpushed.breakBoundary, hpushed.continueBoundary⟩
  rw [ExitContext.enterFor, hstands.visited, hfalls]
  rfl

theorem pushSwitch (hstands : Stands cleanups lowerer context) :
    Stands cleanups { lowerer with breakBoundary := some context.active.length }
      (context.push .switch []) := by
  refine ⟨hstands.cleanups, hstands.visited, ?_, hstands.continueBoundary⟩
  rw [context.length_active, ← List.append_nil (declared context.frames)]
  rfl

end Stands

section Lowered

variable {cleanups : List Cleanup} {lowerer : CleanupLowerer} {context : ExitContext}
  {body : List Statement}

/-- From every place that it visits, the lowering emits at the exits of these statements what is listed
there. -/
def Lowers (cleanups : List Cleanup) (statements : List Statement) : Prop :=
  ∀ lowerer context, Stands cleanups lowerer context →
    lowerStatements lowerer context.scopeStart context.active statements =
      lowerer.append (emittedOps (statementsExits cleanups context statements))

namespace Lowers

theorem inFrame (hbody : Lowers cleanups body) (hstands : Stands cleanups lowerer context)
    {kind : FrameKind} (head : List Entry)
    (hbreakable : CleanupFrame.isBreakable ⟨kind, head, []⟩ = false)
    (hloop : CleanupFrame.isLoop ⟨kind, head, []⟩ = false) :
    lowerStatements lowerer (context.active ++ listedOps head).length
        (context.active ++ listedOps head) body =
      lowerer.append (emittedOps (statementsExits cleanups (context.push kind head) body)) := by
  have hrun := hbody lowerer _ (hstands.push head hbreakable hloop)
  rwa [ExitContext.scopeStart_push, ExitContext.active_push] at hrun

theorem inScope (hbody : Lowers cleanups body) (hstands : Stands cleanups lowerer context) :
    lowerStatements lowerer context.active.length context.active body =
      lowerer.append (emittedOps (statementsExits cleanups (context.push .scope []) body)) := by
  have hrun := @inFrame _ _ _ _ hbody hstands .scope [] rfl rfl
  rwa [listedOps_nil, List.append_nil] at hrun

theorem inLoop (hbody : Lowers cleanups body) {active : List CleanupOp}
    (hstands : Stands cleanups (lowerer.enterLoop active.length) context)
    (hactive : context.active = active) (hstart : context.scopeStart = active.length) :
    (lowerStatements (lowerer.enterLoop active.length) active.length active body).leaveLoop lowerer =
      lowerer.append (emittedOps (statementsExits cleanups context body)) := by
  have hrun := hbody _ _ hstands
  rw [hactive, hstart] at hrun
  rw [hrun]
  rfl

theorem inLoopBody (hbody : Lowers cleanups body) (hstands : Stands cleanups lowerer context)
    (head : List Entry) :
    (lowerStatements (lowerer.enterLoop (context.active ++ listedOps head).length)
        (context.active ++ listedOps head).length
        (context.active ++ listedOps head) body).leaveLoop lowerer =
      lowerer.append
        (emittedOps (statementsExits cleanups (context.push (.loop true) head) body)) := by
  exact hbody.inLoop (hstands.pushLoop true head) (context.active_push _ head)
    (context.scopeStart_push _ head)

end Lowers

end Lowered

section Walk

variable {cleanups : List Cleanup}

mutual

theorem lowerStatements_eq (statements : List Statement) : Lowers cleanups statements :=
  match statements with
  | [] => by
      intro lowerer context hstands
      rw [statementsExits, emittedOps_singleton, ExitContext.scopeEnd,
        ExitContext.emitted_exit hstands.visited]
      rfl
  | statement :: rest => by
      intro lowerer context hstands
      rw [lowerStatements, lowerStatement_eq statement hstands, statementsExits, emittedOps_append]
      dsimp only
      split
      · rename_i hfalls
        have hrest := lowerStatements_eq rest _ _
          ((hstands.after hfalls).append (emittedOps (statementExits cleanups context statement)))
        rw [ExitContext.active_after, CleanupLowerer.append_append] at hrest
        exact hrest
      · rename_i hjumps
        have hsilent : Silent (statementsExits cleanups (context.after cleanups statement) rest) := by
          refine silent_statements _ ?_ rest
          rw [ExitContext.after, Bool.eq_false_iff.mpr hjumps, Bool.and_false]
        rw [hsilent.emittedOps_eq_nil, List.append_nil]

theorem lowerStatement_eq (statement : Statement) {lowerer : CleanupLowerer}
    {context : ExitContext} (hstands : Stands cleanups lowerer context) :
    lowerStatement lowerer context.active statement =
      (lowerer.append (emittedOps (statementExits cleanups context statement)),
        context.active ++ listedOps (scopeEntries cleanups statement), fallsThrough statement) :=
  match statement with
  | .variableDecl _ _ _ pattern value => by
      rw [lowerStatement, statementExits, emittedOps_append,
        (silent_optionPattern pattern).emittedOps_eq_nil,
        (silent_optionExpression value).emittedOps_eq_nil, List.append_nil,
        CleanupLowerer.append_nil, scopeEntries, listedOps_declaredEntries, hstands.cleanups]
      rfl
  | .functionDecl _ _ params body => by
      have hbody := lowerStatements_eq body lowerer context.enterFunction
        ⟨hstands.cleanups, hstands.visited, hstands.breakBoundary, hstands.continueBoundary⟩
      rw [statementExits, emittedOps_append, (silent_parameters params).emittedOps_eq_nil,
        List.nil_append, ← hbody]
      exact Prod.ext rfl (Prod.ext (List.append_nil _).symm rfl)
  | .classDecl _ _ superClass members => by
      rw [statementExits, emittedOps_append, (silent_optionExpression superClass).emittedOps_eq_nil,
        (silent_members members).emittedOps_eq_nil, List.append_nil, CleanupLowerer.append_nil]
      exact Prod.ext rfl (Prod.ext (List.append_nil _).symm rfl)
  | .exportDecl _ declaration value _ _ _ _ _ => by
      rw [statementExits, emittedOps_append, (silent_option _ rfl declaration).emittedOps_eq_nil,
        (silent_optionExpression value).emittedOps_eq_nil, List.append_nil,
        CleanupLowerer.append_nil, scopeEntries, listedOps_unlisted, List.append_nil]
      rfl
  | .assignment _ target _ value => by
      rw [statementExits, emittedOps_append, (silent_expression target).emittedOps_eq_nil,
        (silent_expression value).emittedOps_eq_nil, List.append_nil, CleanupLowerer.append_nil]
      exact Prod.ext rfl (Prod.ext (List.append_nil _).symm rfl)
  | .expressionStatement _ value => by
      rw [statementExits, (silent_expression value).emittedOps_eq_nil, CleanupLowerer.append_nil]
      exact Prod.ext rfl (Prod.ext (List.append_nil _).symm rfl)
  | .empty _ | .importDecl .. | .debugger _ => by
      rw [statementExits, silent_nil.emittedOps_eq_nil, CleanupLowerer.append_nil]
      exact Prod.ext rfl (Prod.ext (List.append_nil _).symm rfl)
  | .block _ statements => by
      rw [statementExits, ← (lowerStatements_eq statements).inScope hstands]
      exact Prod.ext rfl (Prod.ext (List.append_nil _).symm rfl)
  | .ifStatement _ condition consequence alternative => by
      rw [statementExits, emittedOps_append, emittedOps_append,
        (silent_expression condition).emittedOps_eq_nil, List.nil_append,
        ← CleanupLowerer.append_append,
        ← (lowerStatements_eq alternative).inScope (hstands.append _),
        ← (lowerStatements_eq consequence).inScope hstands]
      exact Prod.ext rfl (Prod.ext (List.append_nil _).symm rfl)
  | .whileStatement _ condition body | .doWhileStatement _ body condition => by
      have hbody := (lowerStatements_eq body).inLoopBody hstands []
      rw [listedOps_nil, List.append_nil] at hbody
      rw [statementExits, emittedOps_append, (silent_expression condition).emittedOps_eq_nil,
        List.nil_append, ← hbody]
      exact Prod.ext rfl (Prod.ext (List.append_nil _).symm rfl)
  | .forStatement _ init condition update body => by
      have hupdate : Silent (optionExits cleanups (context.enterFor cleanups init).unvisited update) :=
        silent_option _ rfl update
      rw [lowerStatement, lowerOption_eq init hstands, statementExits, emittedOps_append,
        emittedOps_append, emittedOps_append, emittedOps_append, hupdate.emittedOps_eq_nil,
        (silent_optionExpression condition).emittedOps_eq_nil,
        (silent_forEnd _ _).emittedOps_eq_nil, List.append_nil, List.append_nil, List.append_nil,
        scopeEntries, listedOps_surplus]
      dsimp only
      split
      · rename_i hfalls
        have hinit := hstands.append (emittedOps (optionExits cleanups context init))
        have hbody := (lowerStatements_eq body).inLoop (hinit.enterFor hfalls)
          (context.active_push _ _) (context.scopeStart_push (.loop false) _)
        rw [hbody, CleanupLowerer.append_append]
        exact Prod.ext rfl (Prod.ext rfl hfalls.symm)
      · rename_i hjumps
        have hbody : Silent (statementsExits cleanups (context.enterFor cleanups init) body) := by
          refine silent_statements _ ?_ body
          rw [ExitContext.enterFor, Bool.eq_false_iff.mpr hjumps, Bool.and_false]
        rw [hbody.emittedOps_eq_nil, List.append_nil]
        exact Prod.ext rfl (Prod.ext rfl (Bool.eq_false_iff.mpr hjumps).symm)
  | .forInStatement pos _ pattern target value body
  | .forOfStatement pos _ pattern target value body _ => by
      have hbody := (lowerStatements_eq body).inLoopBody hstands
        (declaredEntries cleanups pos pattern)
      rw [listedOps_declaredEntries] at hbody
      rw [lowerStatement, statementExits, emittedOps_append, emittedOps_append, emittedOps_append,
        (silent_optionPattern pattern).emittedOps_eq_nil,
        (silent_expression target).emittedOps_eq_nil, (silent_expression value).emittedOps_eq_nil,
        List.nil_append, List.nil_append, List.nil_append, ← hbody, hstands.cleanups]
      exact Prod.ext rfl (Prod.ext (List.append_nil _).symm rfl)
  | .switchStatement _ discriminant cases default => by
      have hswitch := hstands.pushSwitch
      have hcases := lowerCases_eq cases hswitch
      have hdefault := (lowerStatements_eq default).inScope
        (hswitch.append (emittedOps (casesExits cleanups (context.push .switch []) cases)))
      rw [ExitContext.active_push, listedOps_nil, List.append_nil] at hcases hdefault
      rw [lowerStatement, statementExits, emittedOps_append, emittedOps_append,
        (silent_expression discriminant).emittedOps_eq_nil, List.nil_append]
      rw [hcases, hdefault, CleanupLowerer.append_append]
      exact Prod.ext rfl (Prod.ext (List.append_nil _).symm rfl)
  | .labeledStatement _ label statement => by
      have hinside := lowerStatement_eq statement (hstands.push [] rfl rfl : Stands cleanups lowerer
        (context.push (.label label) []))
      rw [ExitContext.active_push, listedOps_nil, List.append_nil] at hinside
      exact hinside
  | .tryStatement pos tryBody catchPattern catchBody finallyBody => by
      have htry := @Lowers.inFrame _ _ _ _ (lowerStatements_eq tryBody) hstands
        (if hasCatchClause catchPattern catchBody then .guarded else .scope) []
        (by split <;> rfl) (by split <;> rfl)
      rw [listedOps_nil, List.append_nil] at htry
      have hafter := hstands.append (emittedOps (statementsExits cleanups (context.push
        (if hasCatchClause catchPattern catchBody then .guarded else .scope) []) tryBody))
      have hcatch := @Lowers.inFrame _ _ _ _ (lowerStatements_eq catchBody) hafter .scope
        (declaredEntries cleanups pos catchPattern) rfl rfl
      rw [listedOps_declaredEntries] at hcatch
      rw [lowerStatement, statementExits, emittedOps_append, emittedOps_append, emittedOps_append,
        (silent_optionPattern catchPattern).emittedOps_eq_nil, List.append_nil]
      rw [htry, hafter.cleanups, hcatch,
        (lowerStatements_eq finallyBody).inScope (hafter.append _),
        CleanupLowerer.append_append, CleanupLowerer.append_append, List.append_assoc]
      exact Prod.ext rfl (Prod.ext (List.append_nil _).symm rfl)
  | .returnStatement pos value => by
      rw [statementExits, emittedOps_append, (silent_optionExpression value).emittedOps_eq_nil,
        List.nil_append, emittedOps_singleton, ExitContext.emitted_exit hstands.visited]
      exact Prod.ext rfl (Prod.ext (List.append_nil _).symm rfl)
  | .throwStatement pos value => by
      rw [statementExits, emittedOps_append, (silent_expression value).emittedOps_eq_nil,
        List.nil_append, emittedOps_singleton, ExitContext.emitted_exit hstands.visited]
      exact Prod.ext rfl (Prod.ext (List.append_nil _).symm rfl)
  | .breakStatement pos label => by
      rw [lowerStatement, statementExits, emittedOps_singleton, hstands.breakBoundary,
        lowerer.emitCleanupsFromBoundary_eq hstands.visited _ _ _ (context.breakLeaving label)]
      exact Prod.ext rfl (Prod.ext (List.append_nil _).symm rfl)
  | .continueStatement pos label => by
      rw [lowerStatement, statementExits, emittedOps_singleton, hstands.continueBoundary,
        lowerer.emitCleanupsFromBoundary_eq hstands.visited _ _ _ (context.continueLeaving label)]
      exact Prod.ext rfl (Prod.ext (List.append_nil _).symm rfl)

theorem lowerCases_eq (cases : List SwitchCase) {lowerer : CleanupLowerer}
    {context : ExitContext} (hstands : Stands cleanups lowerer context) :
    lowerCases lowerer context.active cases =
      lowerer.append (emittedOps (casesExits cleanups context cases)) :=
  match cases with
  | [] => (CleanupLowerer.append_nil lowerer).symm
  | ⟨test, consequent⟩ :: rest => by
      rw [lowerCases, (lowerStatements_eq consequent).inScope hstands,
        lowerCases_eq rest (hstands.append _), CleanupLowerer.append_append, casesExits,
        emittedOps_append, emittedOps_append, (silent_expression test).emittedOps_eq_nil,
        List.nil_append]

theorem lowerOption_eq (statement : Option Statement) {lowerer : CleanupLowerer}
    {context : ExitContext} (hstands : Stands cleanups lowerer context) :
    lowerOption lowerer context.active statement =
      (lowerer.append (emittedOps (optionExits cleanups context statement)),
        context.active ++ listedOps (optionEntries cleanups statement),
        optionFallsThrough statement) :=
  match statement with
  | none => by
      rw [lowerOption, optionEntries, listedOps_nil, List.append_nil]
      change _ = (lowerer.append [], _)
      rw [CleanupLowerer.append_nil]
      rfl
  | some statement => lowerStatement_eq statement hstands

end

end Walk

namespace Exit

variable (exit : Exit)

theorem lowered_eq_drop : exit.lowered = exit.listed.drop exit.loweredStart := by
  rw [lowered, loweredStart]
  cases exit.boundary with
  | none => exact (List.drop_length (l := exit.listed)).symm
  | some boundary => rfl

theorem filter_drop (entries : List Entry) (start : Nat) :
    (entries.drop start).filter Entry.listed =
      (entries.filter Entry.listed).drop ((entries.take start).countP Entry.listed) := by
  have hsplit : entries.filter Entry.listed =
      (entries.take start).filter Entry.listed ++ (entries.drop start).filter Entry.listed := by
    rw [← List.filter_append, List.take_append_drop]
  rw [hsplit, List.countP_eq_length_filter, List.drop_left]

theorem filter_left :
    exit.left.filter Entry.listed =
      (exit.listed.drop exit.leftStart).filter fun entry => !entry.surplus := by
  rw [left, List.filter_comm, leftStart]
  cases exit.leaving with
  | none => rw [List.drop_length]; rfl
  | some start => rw [entriesAfter, filter_drop]; rfl

theorem drop_eq_append (entries : List Entry) {first second : Nat} (hle : first ≤ second) :
    entries.drop first = (entries.take second).drop first ++ entries.drop second := by
  have hlater : entries.drop second = (entries.drop first).drop (second - first) := by
    rw [List.drop_drop, Nat.add_sub_cancel' hle]
  rw [List.drop_take, hlater, List.take_append_drop]

theorem filter_eq_self_of_fresh {entries : List Entry}
    (hfresh : ∀ entry ∈ entries, entry.surplus = false) :
    (entries.filter fun entry => !entry.surplus) = entries := by
  refine List.filter_eq_self.mpr fun entry hmem => ?_
  rw [hfresh entry hmem]
  rfl

theorem filter_eq_nil_iff {entries : List Entry} :
    (entries.filter fun entry => !entry.surplus) = [] ↔ ∀ entry ∈ entries, entry.surplus = true := by
  simp only [List.filter_eq_nil_iff, Bool.not_eq_true', Bool.not_eq_false]

theorem left_eq_filter (hlisted : ∀ entry ∈ exit.left, entry.listed = true) :
    exit.left = (exit.listed.drop exit.leftStart).filter fun entry => !entry.surplus := by
  rw [← filter_left, List.filter_eq_self.mpr hlisted]

theorem lowered_eq_left_iff : exit.lowered = exit.left ↔ exit.Covered := by
  rw [lowered_eq_drop]
  constructor
  · intro heq
    have hlisted : ∀ entry ∈ exit.left, entry.listed = true := by
      intro entry hmem
      rw [← heq] at hmem
      exact (List.mem_filter.mp (List.mem_of_mem_drop hmem)).2
    have hfresh : ∀ entry ∈ exit.listed.drop exit.loweredStart, entry.surplus = false := by
      intro entry hmem
      rw [heq] at hmem
      simpa using (List.mem_filter.mp hmem).2
    rw [left_eq_filter exit hlisted] at heq
    refine ⟨hlisted, hfresh, ?_, ?_⟩
    · have hlength := List.length_filter_le (fun entry => !entry.surplus)
        (exit.listed.drop exit.leftStart)
      rw [← heq, List.length_drop, List.length_drop] at hlength
      apply List.drop_eq_nil_of_le
      rw [List.length_take]
      omega
    · rcases Nat.le_total exit.leftStart exit.loweredStart with hle | hle
      · rw [drop_eq_append exit.listed hle, List.filter_append, filter_eq_self_of_fresh hfresh] at heq
        exact filter_eq_nil_iff.mp (List.self_eq_append_left.mp heq)
      · rw [List.drop_eq_nil_of_le (Nat.le_trans (List.length_take_le _ _) hle)]
        exact fun _ hmem => absurd hmem List.not_mem_nil
  · intro hcovered
    rw [left_eq_filter exit hcovered.listed]
    rcases Nat.le_total exit.leftStart exit.loweredStart with hle | hle
    · rw [drop_eq_append exit.listed hle, List.filter_append, filter_eq_nil_iff.mpr hcovered.missed,
        filter_eq_self_of_fresh hcovered.fresh, List.nil_append]
    · have hsame : exit.listed.drop exit.loweredStart = exit.listed.drop exit.leftStart := by
        rw [drop_eq_append exit.listed hle, hcovered.outside, List.nil_append]
      rw [← hsame, filter_eq_self_of_fresh hcovered.fresh]

end Exit

section Program

variable (statements : List Statement) (plan : Plan)

theorem lowerControlFlowCleanupOps_eq_emittedOps :
    lowerControlFlowCleanupOps statements plan =
      emittedOps (programExits plan.scopeExitCleanups statements) := by
  have hstands : Stands plan.scopeExitCleanups ⟨plan.scopeExitCleanups, [], none, none⟩
      ⟨⟨.scope, [], []⟩, [], none, none, true, true⟩ := ⟨rfl, rfl, rfl, rfl⟩
  have hrun := lowerStatements_eq statements _ _ hstands
  exact congrArg CleanupLowerer.ops hrun

end Program

/-- Nested blocks with a break are covered. -/
example : ∀ exit ∈ programExits [⟨"outer", 3, 1, 2⟩, ⟨"inner", 5, 1, 3⟩]
    [.functionDecl ⟨1, 1⟩ "run" [] [.whileStatement ⟨2, 1⟩ (.identifier ⟨2, 8⟩ "active")
      [.variableDecl ⟨3, 1⟩ .const "outer" (some (.name "outer")) (some (.objectLiteral ⟨3, 15⟩ [])),
        .ifStatement ⟨4, 1⟩ (.identifier ⟨4, 5⟩ "ready")
          [.variableDecl ⟨5, 1⟩ .const "inner" (some (.name "inner"))
              (some (.objectLiteral ⟨5, 15⟩ [])),
            .breakStatement ⟨6, 1⟩ ""] []]]], exit.Covered := by decide

end Jayess.Lowering
