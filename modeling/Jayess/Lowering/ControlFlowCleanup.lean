import Jayess.Bindings
import Jayess.Lifetime.Plan

/-! # Cleanups on control flow -/

namespace Jayess.Lowering

open Lifetime (Cleanup Plan)

structure CleanupOp where
  binding : String
  line : Nat
  column : Nat
  scopeDepth : Nat
deriving DecidableEq, Repr

inductive CleanupPath where
  | normal | return | break | continue | throw
deriving DecidableEq, Repr

structure ControlFlowCleanupOp where
  op : CleanupOp
  path : CleanupPath
  exitLine : Nat
  exitColumn : Nat
deriving DecidableEq, Repr

/-- `cleanupLowerer`; no boundary is `-1` in the source. -/
structure CleanupLowerer where
  cleanups : List Cleanup
  ops : List ControlFlowCleanupOp
  breakBoundary : Option Nat
  continueBoundary : Option Nat

/-- `cleanupBindingNames`: each name as often as the pattern binds it. -/
def cleanupBindingNames (pattern : Option BindingPattern) : List String := patternNames pattern

def cleanupOpFor (cleanups : List Cleanup) (pos : SourcePos) (name : String) : Option CleanupOp :=
  (cleanups.find? fun cleanup =>
    cleanup.binding = name ∧ cleanup.line = pos.line ∧ cleanup.column = pos.column).map
      fun cleanup => ⟨cleanup.binding, cleanup.line, cleanup.column, cleanup.scopeDepth⟩

def cleanupOpsForDeclaration (cleanups : List Cleanup) (pos : SourcePos)
    (pattern : Option BindingPattern) : List CleanupOp :=
  (cleanupBindingNames pattern).filterMap (cleanupOpFor cleanups pos)

def exitOps (path : CleanupPath) (exit : SourcePos) (cleanups : List CleanupOp) :
    List ControlFlowCleanupOp :=
  cleanups.reverse.map fun op => ⟨op, path, exit.line, exit.column⟩

namespace CleanupLowerer

def emitCleanups (lowerer : CleanupLowerer) (cleanups : List CleanupOp) (path : CleanupPath)
    (exit : SourcePos) : CleanupLowerer :=
  { lowerer with ops := lowerer.ops ++ exitOps path exit cleanups }

def emitCleanupsFromBoundary (lowerer : CleanupLowerer) (active : List CleanupOp)
    (boundary : Option Nat) (path : CleanupPath) (exit : SourcePos) : CleanupLowerer :=
  match boundary with
  | none => lowerer
  | some boundary =>
      if active.length < boundary then lowerer
      else lowerer.emitCleanups (active.drop boundary) path exit

/-- What `lowerLoopBody` does before the body. -/
def enterLoop (lowerer : CleanupLowerer) (boundary : Nat) : CleanupLowerer :=
  { lowerer with breakBoundary := some boundary, continueBoundary := some boundary }

def leaveLoop (inside before : CleanupLowerer) : CleanupLowerer :=
  { inside with
    breakBoundary := before.breakBoundary
    continueBoundary := before.continueBoundary }

end CleanupLowerer

mutual

/-- The loop of `lowerScope`, from a statement on, where `scopeStart` cleanups come from outside. -/
def lowerStatements (lowerer : CleanupLowerer) (scopeStart : Nat) (active : List CleanupOp) :
    List Statement → CleanupLowerer
  | [] => lowerer.emitCleanups (active.drop scopeStart) .normal ⟨0, 0⟩
  | statement :: rest =>
      let (later, active, fallsThrough) := lowerStatement lowerer active statement
      if fallsThrough then lowerStatements later scopeStart active rest else later

/-- `lowerStatement`: the lowerer after it, the active cleanups, and whether the statement falls
through. -/
def lowerStatement (lowerer : CleanupLowerer) (active : List CleanupOp) :
    Statement → CleanupLowerer × List CleanupOp × Bool
  | .variableDecl pos _ _ pattern _ =>
      (lowerer, active ++ cleanupOpsForDeclaration lowerer.cleanups pos pattern, true)
  | .functionDecl _ _ _ body => (lowerStatements lowerer 0 [] body, active, true)
  | .block _ statements => (lowerStatements lowerer active.length active statements, active, true)
  | .ifStatement _ _ consequence alternative =>
      let lowerer := lowerStatements lowerer active.length active consequence
      (lowerStatements lowerer active.length active alternative, active, true)
  | .whileStatement _ _ body | .doWhileStatement _ body _ =>
      let inside := lowerStatements (lowerer.enterLoop active.length) active.length active body
      (inside.leaveLoop lowerer, active, true)
  | .forStatement _ init _ _ body =>
      let (lowerer, active, fallsThrough) := lowerOption lowerer active init
      if fallsThrough then
        let inside := lowerStatements (lowerer.enterLoop active.length) active.length active body
        (inside.leaveLoop lowerer, active, true)
      else (lowerer, active, false)
  | .forOfStatement pos _ pattern _ _ body _ | .forInStatement pos _ pattern _ _ body =>
      let loopActive := active ++ cleanupOpsForDeclaration lowerer.cleanups pos pattern
      let inside :=
        lowerStatements (lowerer.enterLoop loopActive.length) loopActive.length loopActive body
      (inside.leaveLoop lowerer, active, true)
  | .labeledStatement _ _ statement => lowerStatement lowerer active statement
  | .switchStatement _ _ cases default =>
      let inside := { lowerer with breakBoundary := some active.length }
      let inside := lowerCases inside active cases
      let inside := lowerStatements inside active.length active default
      ({ inside with breakBoundary := lowerer.breakBoundary }, active, true)
  | .tryStatement pos tryBody catchPattern catchBody finallyBody =>
      let lowerer := lowerStatements lowerer active.length active tryBody
      let catchActive := active ++ cleanupOpsForDeclaration lowerer.cleanups pos catchPattern
      let lowerer := lowerStatements lowerer catchActive.length catchActive catchBody
      (lowerStatements lowerer active.length active finallyBody, active, true)
  | .returnStatement pos _ => (lowerer.emitCleanups active .return pos, active, false)
  | .breakStatement pos _ =>
      (lowerer.emitCleanupsFromBoundary active lowerer.breakBoundary .break pos, active, false)
  | .continueStatement pos _ =>
      (lowerer.emitCleanupsFromBoundary active lowerer.continueBoundary .continue pos, active, false)
  | .throwStatement pos _ => (lowerer.emitCleanups active .throw pos, active, false)
  | _ => (lowerer, active, true)

def lowerCases (lowerer : CleanupLowerer) (active : List CleanupOp) :
    List SwitchCase → CleanupLowerer
  | [] => lowerer
  | ⟨_, consequent⟩ :: rest =>
      lowerCases (lowerStatements lowerer active.length active consequent) active rest

def lowerOption (lowerer : CleanupLowerer) (active : List CleanupOp) :
    Option Statement → CleanupLowerer × List CleanupOp × Bool
  | none => (lowerer, active, true)
  | some statement => lowerStatement lowerer active statement

end

/-- `lowerScope`; what it returns is not used. -/
def lowerScope (lowerer : CleanupLowerer) (statements : List Statement)
    (incoming : List CleanupOp) : CleanupLowerer :=
  lowerStatements lowerer incoming.length incoming statements

def lowerControlFlowCleanupOps (statements : List Statement) (plan : Plan) :
    List ControlFlowCleanupOp :=
  (lowerScope ⟨plan.scopeExitCleanups, [], none, none⟩ statements []).ops

end Jayess.Lowering
