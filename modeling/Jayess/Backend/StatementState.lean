import Jayess.Backend.ExpressionEmitter
import Jayess.Bindings

/-!
# The state of the statement emitter

The exits, handlers, scopes and targets the statement emitter threads through a function, and the
emission of jumps, cleanups and captured statement lists.
-/

namespace Jayess.Backend

open Lifetime (Plan)

inductive StatementTermination where
  | none | return | break | continue | throw
deriving DecidableEq, Repr

inductive StructuredExitKind where
  | block | loop | switch
deriving DecidableEq, Repr

/-- A statement that a jump can leave. Only a loop has a continue label. -/
structure StructuredExit where
  kind : StructuredExitKind
  labels : List String
  breakLabel : BlockLabel
  continueLabel : Option BlockLabel
  cleanupDepth : Nat
deriving DecidableEq, Repr

structure ReturnTarget where
  slot : LocalSlot
  label : BlockLabel
deriving DecidableEq, Repr

structure StatementEmitter where
  expressions : ExpressionEmitter
  returned : Bool
  termination : StatementTermination
  terminationLabel : String
  exits : List StructuredExit
  pendingLabels : List String
  returnTarget : Option ReturnTarget
  throwSlot : Option LocalSlot
  throwLabel : Option BlockLabel
  throwHandlers : List BlockLabel
  lifetimePlan : Option Plan
  cleanupScopes : List (List String)
  mapOrder : MapOrder

def newStatementEmitter : StatementEmitter where
  expressions := newExpressionEmitter
  returned := false
  termination := .none
  terminationLabel := ""
  exits := []
  pendingLabels := []
  returnTarget := none
  throwSlot := none
  throwLabel := none
  throwHandlers := []
  lifetimePlan := none
  cleanupScopes := []
  mapOrder := .insertion

def newStatementEmitterWithLifetimePlan (plan : Plan) (mapOrder : MapOrder) : StatementEmitter :=
  { newStatementEmitter with
    expressions := { newExpressionEmitter with lifetimePlan := some plan }
    lifetimePlan := some plan
    mapOrder }

abbrev StmtM := StateT StatementEmitter (Except EmitError)

def expr {α : Type} (action : ExprM α) : StmtM α := fun emitter =>
  match action emitter.expressions with
  | .ok (value, expressions) => .ok (value, { emitter with expressions })
  | .error error => .error error

/-- `emitLifetimeCall` on the value of a name; a name that is not a local is skipped. -/
def emitLifetimeCall (symbol name : String) : StmtM Unit := do
  if (← get).expressions.locals name |>.isSome then
    let value ← expr (loadLocal name)
    expr (emitRuntimeVoidCall symbol [valueArg value])

def emitCleanupList (cleanups : List String) : StmtM Unit :=
  cleanups.forM (emitLifetimeCall "jayess_value_release")

/-- `emitCleanupsUntil`: the scopes entered since there were `boundary` of them. -/
def emitCleanupsUntil (boundary : Nat) : StmtM Unit := do
  let scopes := (← get).cleanupScopes
  (scopes.take (scopes.length - boundary)).forM emitCleanupList

def emitActiveCleanups : StmtM Unit := emitCleanupsUntil 0

def enterLexicalScope : StmtM Unit := do
  expr pushScope
  modify fun emitter => { emitter with cleanupScopes := [] :: emitter.cleanupScopes }

/-- `leaveLexicalScope`, with the normal cleanups when the end of the scope is reachable. -/
def leaveLexicalScope : StmtM Unit := do
  let emitter ← get
  unless emitter.returned do
    emitCleanupList (emitter.cleanupScopes.headD [])
  modify fun emitter => { emitter with cleanupScopes := emitter.cleanupScopes.tail }
  expr popScope

def emitScopedStatements (emitStatements : StmtM Unit) : StmtM Unit := do
  enterLexicalScope
  emitStatements
  leaveLexicalScope

def hasLifetimeCleanup (plan : Plan) (name : String) (pos : SourcePos) : Bool :=
  plan.scopeExitCleanups.any fun cleanup =>
    cleanup.binding == name && cleanup.line == pos.line && cleanup.column == pos.column

def hasExtendedLifetime (plan : Plan) (name : String) (pos : SourcePos) : Bool :=
  plan.extendedLifetimes.any fun extended =>
    extended.binding == name && extended.line == pos.line && extended.column == pos.column

def pushLifetimeCleanup (name : String) : StmtM Unit :=
  modify fun emitter =>
    match emitter.cleanupScopes with
    | scope :: outer =>
        if name = "" then emitter
        else { emitter with cleanupScopes := (name :: scope) :: outer }
    | [] => emitter

/-- `registerDeclarationLifetime` on the names a declaration binds. -/
def registerLifetimes (plan : Plan) (pos : SourcePos) (names : List String) : StmtM Unit :=
  names.forM fun name => do
    if hasLifetimeCleanup plan name pos then pushLifetimeCleanup name
    if hasExtendedLifetime plan name pos then emitLifetimeCall "jayess_value_retain" name

structure CapturedStatements where
  lines : List Line
  returns : Bool
  termination : StatementTermination

def CapturedStatements.empty : CapturedStatements := ⟨[], false, .none⟩

def StatementEmitter.body (emitter : StatementEmitter) : List Line := emitter.expressions.body

def StatementEmitter.withBody (emitter : StatementEmitter) (body : List Line) :
    StatementEmitter :=
  { emitter with expressions := { emitter.expressions with body } }

def StatementEmitter.withTermination (emitter : StatementEmitter) (returned : Bool)
    (termination : StatementTermination) (terminationLabel : String) : StatementEmitter :=
  { emitter with returned, termination, terminationLabel }

/-- `captureStatements`: emits with cleared flags, then takes the lines off the body and restores
the flags. -/
def captureStatements (emitStatements : StmtM Unit) : StmtM CapturedStatements := fun emitter =>
  match emitStatements (emitter.withTermination false .none "") with
  | .error error => .error error
  | .ok (_, emitted) =>
      .ok ({ lines := emitted.body.drop emitter.body.length
             returns := emitted.returned
             termination := emitted.termination },
        (emitted.withBody (emitted.body.take emitter.body.length)).withTermination
          emitter.returned emitter.termination emitter.terminationLabel)

def captureScopedStatements (emitStatements : StmtM Unit) : StmtM CapturedStatements :=
  captureStatements (emitScopedStatements emitStatements)

def pushStructuredExit (kind : StructuredExitKind) (breakLabel : BlockLabel)
    (continueLabel : Option BlockLabel) : StmtM Unit :=
  modify fun emitter =>
    { emitter with
      exits := { kind, labels := emitter.pendingLabels, breakLabel, continueLabel,
                 cleanupDepth := emitter.cleanupScopes.length } :: emitter.exits }

def popStructuredExit : StmtM Unit :=
  modify fun emitter => { emitter with exits := emitter.exits.tail }

def withStructuredExit {α : Type} (kind : StructuredExitKind) (breakLabel : BlockLabel)
    (continueLabel : Option BlockLabel) (action : StmtM α) : StmtM α := do
  pushStructuredExit kind breakLabel continueLabel
  let result ← action
  popStructuredExit
  return result

def StructuredExit.hasLabel (exit : StructuredExit) (label : String) : Bool :=
  exit.labels.contains label

/-- Whether the search of `emitBreak` stops at an exit. -/
def StructuredExit.breaks (label : String) (exit : StructuredExit) : Bool :=
  if label = "" then exit.kind ≠ .block else exit.hasLabel label

/-- Whether the search of `emitContinue` stops at an exit. -/
def StructuredExit.continues (label : String) (exit : StructuredExit) : Bool :=
  (label = "" || exit.hasLabel label) && exit.kind = .loop && exit.continueLabel.isSome

def setTermination (termination : StatementTermination) (label : String) : StmtM Unit :=
  modify fun emitter => emitter.withTermination true termination label

def emitBreak (label : String) : StmtM Unit := do
  match (← get).exits.find? (·.breaks label) with
  | some exit =>
      emitCleanupsUntil exit.cleanupDepth
      expr (appendLines [.br exit.breakLabel])
      setTermination .break label
  | none =>
      if label ≠ "" then fail ("runtime break has no enclosing label " ++ label)
      fail "runtime break has no enclosing loop or switch"

def emitContinue (label : String) : StmtM Unit := do
  match ((← get).exits.find? (·.continues label)).bind fun exit =>
      exit.continueLabel.map (exit, ·) with
  | some (exit, continueLabel) =>
      emitCleanupsUntil exit.cleanupDepth
      expr (appendLines [.br continueLabel])
      setTermination .continue label
  | none =>
      if label ≠ "" then fail ("runtime continue has no enclosing loop label " ++ label)
      fail "runtime continue has no enclosing loop"

/-- `ensureReturnTarget`: the first return of a function makes its slot and its label. -/
def ensureReturnTarget : StmtM ReturnTarget := do
  match (← get).returnTarget with
  | some target => return target
  | none =>
      let slot ← expr nextLocalSlot
      let label ← expr (nextBlockLabel "return")
      modify fun emitter => { emitter with returnTarget := some ⟨slot, label⟩ }
      expr (appendLines [.alloca slot])
      return ⟨slot, label⟩

def emitReturnStatement (emitValue : ExprM Operand) : StmtM Unit := do
  let value ← expr emitValue
  let target ← ensureReturnTarget
  emitActiveCleanups
  expr (appendLines [.store value target.slot, .br target.label, .legacyRet value])
  setTermination .return ""

def ensureThrowSlot : StmtM LocalSlot := do
  match (← get).throwSlot with
  | some slot => return slot
  | none =>
      let slot ← expr nextLocalSlot
      modify fun emitter => { emitter with throwSlot := some slot }
      expr (appendLines [.alloca slot])
      return slot

def ensureThrowTarget : StmtM BlockLabel := do
  match (← get).throwLabel with
  | some label => return label
  | none =>
      let label ← expr (nextBlockLabel "throw")
      modify fun emitter => { emitter with throwLabel := some label }
      return label

def findThrowTarget : StmtM BlockLabel := do
  match (← get).throwHandlers with
  | handler :: _ => return handler
  | [] => ensureThrowTarget

def emitThrowStatement (emitValue : ExprM Operand) : StmtM Unit := do
  let value ← expr emitValue
  let slot ← ensureThrowSlot
  let target ← findThrowTarget
  emitActiveCleanups
  expr (appendLines [.store value slot, .br target])
  setTermination .throw ""

def withThrowHandler {α : Type} (handler : BlockLabel) (action : StmtM α) : StmtM α := do
  modify fun emitter => { emitter with throwHandlers := handler :: emitter.throwHandlers }
  let result ← action
  modify fun emitter => { emitter with throwHandlers := emitter.throwHandlers.tail }
  return result

end Jayess.Backend
