import Jayess.Ast

/-!
# The jump checks of the analyzer

What `Analyze` checks about labels, breaks and continues: the control context it carries down the
statements of a function body, and the errors it reports.
-/

namespace Jayess.Semantic

/-- A `DiagnosticError` with the position of the statement it is about. -/
structure DiagnosticError where
  pos : SourcePos
  message : String
deriving DecidableEq, Repr

structure LabelTarget where
  name : String
  allowsContinue : Bool
deriving DecidableEq, Repr

structure ControlContext where
  inLoop : Bool
  inSwitch : Bool
  labels : List LabelTarget
deriving DecidableEq, Repr

/-- The context of every function body. -/
def rootContext : ControlContext := ⟨false, false, []⟩

def isLoopStatement : Statement → Bool
  | .whileStatement .. | .doWhileStatement .. | .forStatement .. | .forOfStatement ..
  | .forInStatement .. => true
  | _ => false

namespace ControlContext

def enterLoop (context : ControlContext) : ControlContext := { context with inLoop := true }

def enterSwitch (context : ControlContext) : ControlContext := { context with inSwitch := true }

def findLabel (context : ControlContext) (name : String) : Option LabelTarget :=
  context.labels.find? (·.name = name)

def enterLabel (context : ControlContext) (name : String) (statement : Statement) :
    Option ControlContext :=
  if (context.findLabel name).isSome then none
  else some { context with labels := ⟨name, isLoopStatement statement⟩ :: context.labels }

end ControlContext

def errorAt (pos : SourcePos) (message : String) : Except DiagnosticError Unit :=
  .error ⟨pos, message⟩

def analyzeBreakStatement (context : ControlContext) (pos : SourcePos) (label : String) :
    Except DiagnosticError Unit :=
  if label ≠ "" then
    if (context.findLabel label).isNone then errorAt pos ("unknown label " ++ label)
    else .ok ()
  else if !context.inLoop && !context.inSwitch then errorAt pos "break outside loop or switch"
  else .ok ()

def analyzeContinueStatement (context : ControlContext) (pos : SourcePos) (label : String) :
    Except DiagnosticError Unit :=
  if label ≠ "" then
    match context.findLabel label with
    | none => errorAt pos ("unknown label " ++ label)
    | some target =>
        if !target.allowsContinue then
          errorAt pos ("continue target " ++ label ++ " is not a loop")
        else .ok ()
  else if !context.inLoop then errorAt pos "continue outside loop"
  else .ok ()

mutual

def analyzeStatement (context : ControlContext) : Statement → Except DiagnosticError Unit
  | .exportDecl _ declaration _ _ _ _ _ _ => analyzeOptionalStatement context declaration
  | .block _ statements => analyzeStatements context statements
  | .ifStatement _ _ consequence alternative => do
      analyzeStatements context consequence
      analyzeStatements context alternative
  | .whileStatement _ _ body | .doWhileStatement _ body _ =>
      analyzeStatements context.enterLoop body
  | .forStatement _ init _ update body => do
      analyzeOptionalStatement context init
      analyzeOptionalStatement context update
      analyzeStatements context.enterLoop body
  | .forInStatement _ _ _ _ _ body | .forOfStatement _ _ _ _ _ body _ =>
      analyzeStatements context.enterLoop body
  | .labeledStatement pos label statement =>
      match context.enterLabel label statement with
      | some labelContext => analyzeStatement labelContext statement
      | none => errorAt pos ("duplicate label " ++ label)
  | .switchStatement _ _ cases default => do
      analyzeSwitchCases context.enterSwitch cases
      analyzeStatements context.enterSwitch default
  | .breakStatement pos label => analyzeBreakStatement context pos label
  | .continueStatement pos label => analyzeContinueStatement context pos label
  | .tryStatement _ tryBody _ catchBody finallyBody => do
      analyzeStatements context tryBody
      analyzeStatements context catchBody
      analyzeStatements context finallyBody
  | _ => .ok ()

def analyzeStatements (context : ControlContext) : List Statement → Except DiagnosticError Unit
  | [] => .ok ()
  | statement :: rest => do
      analyzeStatement context statement
      analyzeStatements context rest

def analyzeOptionalStatement (context : ControlContext) :
    Option Statement → Except DiagnosticError Unit
  | none => .ok ()
  | some statement => analyzeStatement context statement

/-- The loop of `analyzeSwitchStatement`. -/
def analyzeSwitchCases (context : ControlContext) : List SwitchCase → Except DiagnosticError Unit
  | [] => .ok ()
  | ⟨_, consequent⟩ :: rest => do
      analyzeStatements context consequent
      analyzeSwitchCases context rest

end

end Jayess.Semantic
