import Jayess.Escape.Analysis
import Jayess.Lifetime.Plan

/-!
# Scope exits

Which declared bindings are destroyed when their scope is left and which live on, by the report of the
escape analysis.
-/

namespace Jayess.Lifetime

open Escape (Report)

/-- One name of `addDeclarationLifetimeActions`. -/
def addLifetimeAction (report : Report) (pos : SourcePos) (depth : Nat) (plan : Plan)
    (name : String) : Plan :=
  if depth = 0 ∨ (!report.eligibleForScopeCleanup name && report.mustSurviveScopeExit name) then
    { plan with
      extendedLifetimes := plan.extendedLifetimes ++ [⟨name, pos.line, pos.column, depth⟩] }
  else if report.eligibleForScopeCleanup name then
    { plan with
      scopeExitCleanups := plan.scopeExitCleanups ++ [⟨name, pos.line, pos.column, depth⟩] }
  else plan

def addDeclarationLifetimeActions (mapOrder : MapOrder) (report : Report) (pos : SourcePos)
    (pattern : Option BindingPattern) (depth : Nat) (plan : Plan) : Plan :=
  (bindingNames mapOrder pattern).foldl (addLifetimeAction report pos depth) plan

section Walk

variable (mapOrder : MapOrder) (report : Report)

mutual

def collectStatementCleanups : List Statement → Nat → Plan → Plan
  | [], _, plan => plan
  | statement :: rest, depth, plan =>
      collectStatementCleanups rest depth (collectStatementCleanup statement depth plan)

def collectStatementCleanup : Statement → Nat → Plan → Plan
  | .variableDecl pos _ _ pattern _, depth, plan =>
      addDeclarationLifetimeActions mapOrder report pos pattern depth plan
  | .functionDecl _ _ _ body, depth, plan | .block _ body, depth, plan
  | .whileStatement _ _ body, depth, plan | .doWhileStatement _ body _, depth, plan =>
      collectStatementCleanups body (depth + 1) plan
  | .ifStatement _ _ consequence alternative, depth, plan =>
      collectStatementCleanups alternative (depth + 1)
        (collectStatementCleanups consequence (depth + 1) plan)
  | .forStatement _ init _ update body, depth, plan =>
      collectStatementCleanups body (depth + 1)
        (collectOptionCleanup update (depth + 1) (collectOptionCleanup init (depth + 1) plan))
  | .forOfStatement pos _ pattern _ _ body _, depth, plan
  | .forInStatement pos _ pattern _ _ body, depth, plan =>
      collectStatementCleanups body (depth + 1)
        (addDeclarationLifetimeActions mapOrder report pos pattern (depth + 1) plan)
  | .labeledStatement _ _ statement, depth, plan => collectStatementCleanup statement depth plan
  | .switchStatement _ _ cases default, depth, plan =>
      collectStatementCleanups default (depth + 1) (collectCaseCleanups cases (depth + 1) plan)
  | .tryStatement pos tryBody catchPattern catchBody finallyBody, depth, plan =>
      collectStatementCleanups finallyBody (depth + 1)
        (collectStatementCleanups catchBody (depth + 1)
          (addDeclarationLifetimeActions mapOrder report pos catchPattern (depth + 1)
            (collectStatementCleanups tryBody (depth + 1) plan)))
  | _, _, plan => plan

def collectCaseCleanups : List SwitchCase → Nat → Plan → Plan
  | [], _, plan => plan
  | ⟨_, consequent⟩ :: rest, depth, plan =>
      collectCaseCleanups rest depth (collectStatementCleanups consequent depth plan)

def collectOptionCleanup : Option Statement → Nat → Plan → Plan
  | none, _, plan => plan
  | some statement, depth, plan => collectStatementCleanup statement depth plan

end

end Walk

end Jayess.Lifetime
