import Jayess.Backend.Ir
import Jayess.Lifetime.Plan

/-!
# The state of the expression emitter

The counters, the locals with their scopes and the lines emitted so far, and the operations on them
that look at no syntax.
-/

namespace Jayess.Backend

open Lifetime (Plan)

/-- An emitter error; `position` is filled in by the innermost node that has one. -/
structure EmitError where
  message : String
  position : Option SourcePos := none
deriving DecidableEq, Repr

/-- `diagnosticError`. -/
def EmitError.locate (pos : SourcePos) (error : EmitError) : EmitError :=
  if error.position.isSome ∨ pos.line = 0 ∨ pos.column = 0 then error
  else { error with position := some pos }

structure StdlibBinding where
  moduleName : String
  member : String
deriving DecidableEq, Repr

abbrev Scope := String → Option (Option LocalSlot)

structure ExpressionEmitter where
  valueIndex : Nat
  stringIndex : Nat
  slotIndex : Nat
  blockIndex : Nat
  locals : String → Option LocalSlot
  stdlibBindings : String → Option StdlibBinding
  stdlibNamespaces : String → Option String
  declarations : List Declaration
  globals : List Global
  body : List Line
  scopes : List Scope
  lifetimePlan : Option Plan

def newExpressionEmitter : ExpressionEmitter where
  valueIndex := 0
  stringIndex := 0
  slotIndex := 0
  blockIndex := 0
  locals := fun _ => none
  stdlibBindings := fun _ => none
  stdlibNamespaces := fun _ => none
  declarations := []
  globals := []
  body := []
  scopes := []
  lifetimePlan := none

abbrev ExprM := StateT ExpressionEmitter (Except EmitError)

def fail {σ α : Type} (message : String) : StateT σ (Except EmitError) α :=
  fun _ => .error { message }

def withDiagnostic {σ α : Type} (pos : SourcePos) (action : StateT σ (Except EmitError) α) :
    StateT σ (Except EmitError) α :=
  fun emitter =>
    match action emitter with
    | .ok result => .ok result
    | .error error => .error (error.locate pos)

def nextValueName : ExprM Nat := fun emitter =>
  .ok (emitter.valueIndex, { emitter with valueIndex := emitter.valueIndex + 1 })

def nextLocalSlot : ExprM LocalSlot := fun emitter =>
  .ok (⟨emitter.slotIndex⟩, { emitter with slotIndex := emitter.slotIndex + 1 })

def isBlockLabelChar (ch : Char) : Bool :=
  ('a' ≤ ch && ch ≤ 'z') || ('A' ≤ ch && ch ≤ 'Z') || ('0' ≤ ch && ch ≤ '9') || ch == '_' ||
    ch == '.'

def sanitizeBlockLabel (label : String) : String :=
  String.ofList (label.toList.map fun ch => if isBlockLabelChar ch then ch else '_')

def nextBlockLabel (stem : String) : ExprM BlockLabel := fun emitter =>
  .ok (⟨sanitizeBlockLabel (if stem = "" then "block" else stem), emitter.blockIndex⟩,
    { emitter with blockIndex := emitter.blockIndex + 1 })

def appendLines (lines : List Line) : ExprM Unit := fun emitter =>
  .ok ((), { emitter with body := emitter.body ++ lines })

def Declaration.key (declaration : Declaration) : String :=
  declaration.irType ++ " @" ++ declaration.name

/-- `addDeclarations` of one declaration: each key is declared once. -/
def ExpressionEmitter.declare (emitter : ExpressionEmitter) (declaration : Declaration) :
    ExpressionEmitter :=
  { emitter with
    declarations :=
      if emitter.declarations.any fun declared => declared.key == declaration.key then
        emitter.declarations
      else emitter.declarations ++ [declaration] }

def addDeclaration (declaration : Declaration) : ExprM Unit := fun emitter =>
  .ok ((), emitter.declare declaration)

def valueArg (value : Operand) : RuntimeCallArg := ⟨runtimeValueIRType, value⟩

def emitRuntimeCall (resultType symbol : String) (args : List RuntimeCallArg) : ExprM Operand := do
  let result ← nextValueName
  addDeclaration (runtimeCallDeclaration symbol resultType args)
  appendLines [.call result resultType symbol args]
  return .named result

def emitRuntimeValueCall (symbol : String) (args : List RuntimeCallArg) : ExprM Operand :=
  emitRuntimeCall runtimeValueIRType symbol args

def emitRuntimeVoidCall (symbol : String) (args : List RuntimeCallArg) : ExprM Unit := do
  addDeclaration (runtimeCallDeclaration symbol "void" args)
  appendLines [.voidCall symbol args]

def emitRuntimeUnaryValue (symbol : String) (value : Operand) : ExprM Operand :=
  emitRuntimeValueCall symbol [valueArg value]

def emitRuntimeBinaryValue (symbol : String) (left right : Operand) : ExprM Operand :=
  emitRuntimeValueCall symbol [valueArg left, valueArg right]

def emitTruthiness (value : Operand) : ExprM Operand :=
  emitRuntimeCall "i1" "jayess_value_truthy" [valueArg value]

def emitNullishCheck (value : Operand) : ExprM Operand :=
  emitRuntimeCall "i1" "jayess_value_is_nullish" [valueArg value]

def emitRuntimeStrictEqual (left right : Operand) : ExprM Operand :=
  emitRuntimeCall "i1" "jayess_value_strict_equal" [valueArg left, valueArg right]

def hasLocal (name : String) : ExprM Bool := fun emitter =>
  .ok ((emitter.locals name).isSome, emitter)

def loadLocal (name : String) : ExprM Operand := fun emitter =>
  match emitter.locals name with
  | none => .error { message := "undefined emitted local " ++ name }
  | some slot =>
      (do
        let result ← nextValueName
        appendLines [.load result slot]
        return .named result : ExprM Operand) emitter

def storeLocal (name : String) (value : Operand) : ExprM Unit := fun emitter =>
  match emitter.locals name with
  | none => .error { message := "assignment to undefined emitted local " ++ name }
  | some slot => appendLines [.store value slot] emitter

def bindLocal (name : String) (value : Operand) : ExprM Unit := do
  if name = "" then fail "local name must not be empty"
  let slot ← nextLocalSlot
  modify fun emitter => { emitter with locals := Function.update emitter.locals name (some slot) }
  appendLines [.alloca slot, .store value slot]

/-- `recordScopedLocal` on a scope: the slot a name had before its first declaration there. -/
def Scope.record (scope : Scope) (name : String) (previous : Option LocalSlot) : Scope :=
  if (scope name).isSome then scope else Function.update scope name (some previous)

def recordScopedLocal (name : String) : ExprM Unit :=
  modify fun emitter =>
    match emitter.scopes with
    | scope :: outer =>
        if name = "" then emitter
        else { emitter with scopes := scope.record name (emitter.locals name) :: outer }
    | [] => emitter

def declareLocal (name : String) (value : Operand) : ExprM Unit := do
  recordScopedLocal name
  bindLocal name value

def pushScope : ExprM Unit :=
  modify fun emitter => { emitter with scopes := (fun _ => none) :: emitter.scopes }

def Scope.restore (scope : Scope) (locals : String → Option LocalSlot) :
    String → Option LocalSlot :=
  fun name => (scope name).getD (locals name)

def popScope : ExprM Unit := fun emitter =>
  match emitter.scopes with
  | [] => .error { message := "cannot pop runtime local scope from empty stack" }
  | scope :: outer =>
      .ok ((), { emitter with scopes := outer, locals := scope.restore emitter.locals })

end Jayess.Backend
