import Mathlib.Tactic.Simps.Basic
import Jayess.Backend.StatementSpec

/-!
# What a statement emits

`Emitted` is the derivation of a run of the statement emitter: which lines a part of the syntax tree
appends and how the emitter changes, one rule for each construct.
-/

namespace Jayess.Backend

/-! ## Changes of the emitter -/

namespace StatementEmitter

/-- The slots of the locals in scope. -/
def slots (emitter : StatementEmitter) : Set Name :=
  { name | ∃ binding slot, emitter.expressions.locals binding = some slot ∧
      name = .slot slot.index }

@[simps -fullyApplied]
def append (emitter : StatementEmitter) (lines : List Line) : StatementEmitter :=
  { emitter with expressions := { emitter.expressions with
      body := emitter.expressions.body ++ lines } }

@[simps -fullyApplied]
def takeLabels (emitter : StatementEmitter) (count : Nat) : StatementEmitter :=
  { emitter with expressions := { emitter.expressions with
      blockIndex := emitter.expressions.blockIndex + count } }

/-- A capture starts with cleared flags. -/
@[simps -fullyApplied]
def cleared (emitter : StatementEmitter) : StatementEmitter :=
  { emitter with returned := false, termination := .none, terminationLabel := "" }

/-- After a capture the body and the flags are those from before it. -/
@[simps -fullyApplied]
def resumed (emitter captured : StatementEmitter) : StatementEmitter :=
  { captured with
    expressions := { captured.expressions with body := emitter.expressions.body }
    returned := emitter.returned
    termination := emitter.termination
    terminationLabel := emitter.terminationLabel }

@[simps -fullyApplied]
def pushExit (emitter : StatementEmitter) (kind : StructuredExitKind) (breakLabel : BlockLabel)
    (continueLabel : Option BlockLabel) : StatementEmitter :=
  { emitter with
    exits := { kind, labels := emitter.pendingLabels, breakLabel, continueLabel,
               cleanupDepth := emitter.cleanupScopes.length } :: emitter.exits }

@[simps -fullyApplied]
def popExit (emitter : StatementEmitter) : StatementEmitter :=
  { emitter with exits := emitter.exits.tail }

@[simps -fullyApplied]
def pushLabel (emitter : StatementEmitter) (label : String) : StatementEmitter :=
  { emitter with pendingLabels := emitter.pendingLabels ++ [label] }

@[simps -fullyApplied]
def popLabel (emitter : StatementEmitter) : StatementEmitter :=
  { emitter with pendingLabels := emitter.pendingLabels.dropLast }

@[simps -fullyApplied]
def pushHandler (emitter : StatementEmitter) (handler : BlockLabel) : StatementEmitter :=
  { emitter with throwHandlers := handler :: emitter.throwHandlers }

@[simps -fullyApplied]
def popHandler (emitter : StatementEmitter) : StatementEmitter :=
  { emitter with throwHandlers := emitter.throwHandlers.tail }

@[simps -fullyApplied]
def entered (emitter : StatementEmitter) : StatementEmitter :=
  { emitter with
    expressions := { emitter.expressions with
      scopes := (fun _ => none) :: emitter.expressions.scopes }
    cleanupScopes := [] :: emitter.cleanupScopes }

@[simps -fullyApplied]
def terminated (emitter : StatementEmitter) (termination : StatementTermination)
    (label : String) : StatementEmitter :=
  { emitter with returned := true, termination, terminationLabel := label }

@[simps -fullyApplied]
def takeValue (emitter : StatementEmitter) : StatementEmitter :=
  { emitter with expressions := { emitter.expressions with
      valueIndex := emitter.expressions.valueIndex + 1 } }

/-- What was captured by a run that appended the lines. -/
def capture (captured : StatementEmitter) (lines : List Line) : CapturedStatements :=
  ⟨lines, captured.returned, captured.termination⟩

def blockLabel (emitter : StatementEmitter) (stem : String) (offset : Nat) : BlockLabel :=
  ⟨sanitizeBlockLabel (if stem = "" then "block" else stem),
    emitter.expressions.blockIndex + offset⟩

end StatementEmitter

open StatementEmitter

def addCleanups (names : List String) : List (List String) → List (List String)
  | scope :: outer => (names ++ scope) :: outer
  | [] => []

/-- The emitter appends a fragment and at most declares names with their cleanups. -/
structure Straight (declares : Bool) (available : Set Name) (emitter : StatementEmitter)
    (fragment : Fragment) (emitted : StatementEmitter) : Prop where
  emission : Emission declares available emitter.expressions fragment emitted.expressions
  state : emitted = { emitter with
    expressions := emitted.expressions, cleanupScopes := emitted.cleanupScopes }
  cleanups : ∃ names, emitted.cleanupScopes = addCleanups names emitter.cleanupScopes ∧
    (declares = false → names = [])

structure Piece {α : Type} (declares : Bool) (ready : α → Set Name → Prop) (available : Set Name)
    (shape : Shape) (action : StmtM α) (emitter : StatementEmitter) (fragment : Fragment)
    (value : α) (emitted : StatementEmitter) : Prop where
  run : action emitter = .ok (value, emitted)
  straight : Straight declares available emitter fragment emitted
  gives : Gives ready available shape value fragment

abbrev ValuePiece (shape : Shape) (action : ExprM Operand) (emitter : StatementEmitter)
    (fragment : Fragment) (value : Operand) (emitted : StatementEmitter) : Prop :=
  Piece false ValueIn emitter.slots shape (expr action) emitter fragment value emitted

abbrev LinesPiece (declares : Bool) (available : Set Name) (shape : Shape) (action : StmtM Unit)
    (emitter : StatementEmitter) (fragment : Fragment) (emitted : StatementEmitter) : Prop :=
  Piece declares (fun _ _ => True) available shape action emitter fragment () emitted

/-- The end of a scope: the normal cleanups if it is reachable, then the locals from before it. -/
structure Leaves (emitter : StatementEmitter) (fragment : Fragment) (emitted : StatementEmitter) :
    Prop where
  run : leaveLexicalScope emitter = .ok ((), emitted)
  body : emitted.expressions.body = emitter.expressions.body ++ fragment.lines
  numbered : Numbered emitter.expressions.counters fragment emitted.expressions.counters
  closed : fragment.Closed emitter.slots
  shape : fragment.shape = .straight
  skipped : emitter.returned = true → fragment = .nil
  locals : ∃ scope, emitter.expressions.scopes = scope :: emitted.expressions.scopes ∧
    emitted.expressions.locals = scope.restore emitter.expressions.locals
  state : emitted = { emitter with
    expressions := emitted.expressions, cleanupScopes := emitter.cleanupScopes.tail }

inductive EnsuresReturn : StatementEmitter → ReturnTarget → List Line → StatementEmitter → Prop
  | existing {emitter : StatementEmitter} {target : ReturnTarget}
      (htarget : emitter.returnTarget = some target) : EnsuresReturn emitter target [] emitter
  | fresh {emitter : StatementEmitter} (htarget : emitter.returnTarget = none) :
      EnsuresReturn emitter
        ⟨⟨emitter.expressions.slotIndex⟩, emitter.blockLabel "return" 0⟩
        [.alloca ⟨emitter.expressions.slotIndex⟩]
        ({ emitter with
          expressions := { emitter.expressions with
            slotIndex := emitter.expressions.slotIndex + 1
            blockIndex := emitter.expressions.blockIndex + 1 }
          returnTarget := some
            ⟨⟨emitter.expressions.slotIndex⟩, emitter.blockLabel "return" 0⟩ }.append
          [.alloca ⟨emitter.expressions.slotIndex⟩])

inductive EnsuresThrowSlot : StatementEmitter → LocalSlot → List Line → StatementEmitter → Prop
  | existing {emitter : StatementEmitter} {slot : LocalSlot}
      (hslot : emitter.throwSlot = some slot) : EnsuresThrowSlot emitter slot [] emitter
  | fresh {emitter : StatementEmitter} (hslot : emitter.throwSlot = none) :
      EnsuresThrowSlot emitter ⟨emitter.expressions.slotIndex⟩
        [.alloca ⟨emitter.expressions.slotIndex⟩]
        ({ emitter with
          expressions := { emitter.expressions with
            slotIndex := emitter.expressions.slotIndex + 1 }
          throwSlot := some ⟨emitter.expressions.slotIndex⟩ }.append
          [.alloca ⟨emitter.expressions.slotIndex⟩])

/-- Where a throw goes: the innermost handler, or the shared target. -/
inductive FindsThrowTarget : StatementEmitter → BlockLabel → StatementEmitter → Prop
  | handler {emitter : StatementEmitter} {handler : BlockLabel} {outer : List BlockLabel}
      (hhandlers : emitter.throwHandlers = handler :: outer) :
      FindsThrowTarget emitter handler emitter
  | existing {emitter : StatementEmitter} {label : BlockLabel}
      (hhandlers : emitter.throwHandlers = []) (hlabel : emitter.throwLabel = some label) :
      FindsThrowTarget emitter label emitter
  | fresh {emitter : StatementEmitter} (hhandlers : emitter.throwHandlers = [])
      (hlabel : emitter.throwLabel = none) :
      FindsThrowTarget emitter (emitter.blockLabel "throw" 0)
        { emitter.takeLabels 1 with throwLabel := some (emitter.blockLabel "throw" 0) }

/-! ## Constructs -/

structure LoopLabels where
  conditionLabel : BlockLabel
  bodyLabel : BlockLabel
  continueLabel : BlockLabel
  endLabel : BlockLabel

/-- A part of the syntax tree that the emitter walks over. -/
inductive Node where
  | statement (statement : Statement)
  | statements (statements : List Statement)
  | optional (statement : Option Statement)
  | scoped (node : Node)
  | loop (labels : LoopLabels) (condition : Option Expression) (update : Option Statement)
      (body : List Statement)
  | forLoop (init : Option Statement) (condition : Option Expression) (update : Option Statement)
      (body : List Statement)
  | forEach (pos : SourcePos) (stem iteratorSymbol : String) (pattern : Option BindingPattern)
      (target source : Expression) (body : List Statement)
  | cases (cases : List SwitchCase) (captured : List CapturedSwitchCase)
  | checks (discriminant : Operand) (defaultLabel : BlockLabel)
      (cases : List CapturedSwitchCase) (checkLabels caseLabels : List BlockLabel)
  | caught (pos : SourcePos) (slot : LocalSlot) (pattern : Option BindingPattern)
      (body : List Statement)
  | part (present : Bool) (node : Node)

def isStraight : Statement → Bool
  | .empty _ | .variableDecl .. | .functionDecl .. | .classDecl .. | .importDecl ..
  | .assignment .. | .expressionStatement .. => true
  | _ => false

def straightShape : Statement → Shape
  | .variableDecl _ _ _ pattern value => (optionShape value).append (patternShape pattern)
  | .classDecl _ _ superClass members => (optionShape superClass).append (membersShape members)
  | .assignment _ target _ value => target.shape.append value.shape
  | .expressionStatement _ expression => expression.shape
  | _ => .straight

def ifLines (condition : Operand) (thenLabel elseLabel endLabel : BlockLabel)
    (consequence alternative : CapturedStatements) : List Line :=
  [.brIf condition thenLabel elseLabel, .label thenLabel] ++ consequence.thenBranch endLabel ++
    [.label elseLabel] ++ alternative.thenBranch endLabel ++
    if consequence.returns && alternative.returns then [] else [.label endLabel]

/-- The lines of a loop after its condition. -/
def loopLines (labels : LoopLabels) (condition : Operand) (body update : CapturedStatements) :
    List Line :=
  [.brIf condition labels.bodyLabel labels.endLabel, .label labels.bodyLabel] ++
    body.thenBranch labels.continueLabel ++
    (if update.lines ≠ [] ∨ labels.continueLabel ≠ labels.conditionLabel then
      .label labels.continueLabel :: update.thenBranch labels.conditionLabel
    else []) ++ [.label labels.endLabel]

namespace StatementEmitter

def ifLabels (emitter : StatementEmitter) : BlockLabel × BlockLabel × BlockLabel :=
  (emitter.blockLabel "if.then" 0, emitter.blockLabel "if.else" 1, emitter.blockLabel "if.end" 2)

def whileLabels (emitter : StatementEmitter) (stem : String) : LoopLabels where
  conditionLabel := emitter.blockLabel (stem ++ ".cond") 0
  bodyLabel := emitter.blockLabel (stem ++ ".body") 1
  continueLabel := emitter.blockLabel (stem ++ ".cond") 0
  endLabel := emitter.blockLabel (stem ++ ".end") 2

def forLabels (emitter : StatementEmitter) : LoopLabels where
  conditionLabel := emitter.blockLabel "for.cond" 0
  bodyLabel := emitter.blockLabel "for.body" 1
  continueLabel := emitter.blockLabel "for.update" 2
  endLabel := emitter.blockLabel "for.end" 3

abbrev pushLoop (emitter : StatementEmitter) (labels : LoopLabels) : StatementEmitter :=
  emitter.pushExit .loop labels.endLabel (some labels.continueLabel)

@[simps -fullyApplied]
def joined (emitter : StatementEmitter) (returns : Bool) : StatementEmitter :=
  { emitter with returned := returns || emitter.returned }

@[simps -fullyApplied]
def reopened (emitter : StatementEmitter) : StatementEmitter :=
  { emitter with
    returned := false
    termination := if emitter.returned then .none else emitter.termination }

def breaksTo (emitter : StatementEmitter) (label : String) : Bool :=
  emitter.returned && emitter.termination = .break && emitter.terminationLabel = label

def labeledEnd (emitter : StatementEmitter) (label : String) (endLabel : BlockLabel) :
    List Line :=
  if emitter.breaksTo label || !emitter.returned then [.label endLabel] else []

def afterLabeled (emitter : StatementEmitter) (label : String) : StatementEmitter :=
  if emitter.breaksTo label then emitter.cleared else emitter

def tryEnd (returns : Bool) (endLabel : BlockLabel) : List Line :=
  if returns then [] else [.label endLabel]

def afterTry (emitter : StatementEmitter) (returns : Bool) : StatementEmitter :=
  if returns then { emitter with returned := true, termination := .return } else emitter

end StatementEmitter

structure SwitchLabels where
  endLabel : BlockLabel
  defaultLabel : BlockLabel
  checkLabels : List BlockLabel
  caseLabels : List BlockLabel

def StatementEmitter.blockLabels (emitter : StatementEmitter) (stem : String)
    (offset count : Nat) : List BlockLabel :=
  (List.range count).map fun index => emitter.blockLabel stem (offset + index)

def StatementEmitter.switchLabels (emitter : StatementEmitter) (count : Nat) : SwitchLabels where
  endLabel := emitter.blockLabel "switch.end" 0
  defaultLabel := emitter.blockLabel "switch.default" 1
  checkLabels := emitter.blockLabels "switch.check" 2 count
  caseLabels := emitter.blockLabels "switch.case" (2 + count) count

def caseLines (matched : Operand) (caseLabel nextCheck nextCase : BlockLabel)
    (body : CapturedStatements) : List Line :=
  [.brIf matched caseLabel nextCheck, .label caseLabel] ++ body.thenBranch nextCase

def defaultLines (labels : SwitchLabels) (body : CapturedStatements) : List Line :=
  .label labels.defaultLabel :: body.thenBranch labels.endLabel ++ [.label labels.endLabel]

structure TryLabels where
  catchLabel : Option BlockLabel
  finallyLabel : Option BlockLabel
  endLabel : BlockLabel

def StatementEmitter.tryLabels (emitter : StatementEmitter) (hasCatch hasFinally : Bool) :
    TryLabels where
  catchLabel := if hasCatch then some (emitter.blockLabel "try.catch" 0) else none
  finallyLabel :=
    if hasFinally then some (emitter.blockLabel "try.finally" hasCatch.toNat) else none
  endLabel := emitter.blockLabel "try.end" (hasCatch.toNat + hasFinally.toNat)

/-- The names a for-each target reads. -/
def ForEachTarget.names : ForEachTarget → List Name
  | .assignment (.runtimeSet _ _ _ object key) => object.names ++ key.names
  | _ => []

def ForEachTarget.Ready (pattern : Option BindingPattern) (target : ForEachTarget)
    (available : Set Name) : Prop :=
  (match target with
    | .pattern declared => pattern = some declared
    | .assignment _ => pattern = none) ∧
    ∀ name ∈ target.names, name ∈ available

def PairIn (pair : Operand × Operand) (available : Set Name) : Prop :=
  pair.1.In available ∧ pair.2.In available

def StatementEmitter.slotsAnd (emitter : StatementEmitter) (names : List Name) : Set Name :=
  emitter.slots ∪ { name | name ∈ names }

def prepareShape (pattern : Option BindingPattern) (target : Expression) : Shape :=
  if pattern.isSome then .straight else target.shape

/-- What a part of the syntax tree emits: the lines it appends, and the emitter after it. A
derivation is data, so that one can read off it where the emitter was at each part. -/
inductive Emitted : Node → StatementEmitter → List Line → StatementEmitter → Type
  | straight {statement : Statement} {emitter emitted : StatementEmitter} {fragment : Fragment}
      (hstraight : isStraight statement = true)
      (hpiece : LinesPiece true emitter.slots (straightShape statement) (emitStatement statement)
        emitter fragment emitted) :
      Emitted (.statement statement) emitter fragment.lines emitted
  | exportDecl {pos : SourcePos} {declaration : Option Statement} {value : Option Expression}
      {specifiers : List ExportSpecifier} {source : String} {isDefault all : Bool}
      {namespaceName : String} {emitter declared emitted : StatementEmitter} {lines : List Line}
      {fragment : Fragment} (hdeclaration : Emitted (.optional declaration) emitter lines declared)
      (hexports : LinesPiece false declared.slots (optionShape value)
        (expr (emitExports declaration value specifiers source isDefault all namespaceName))
        declared fragment emitted) :
      Emitted (.statement (.exportDecl pos declaration value specifiers source isDefault all
        namespaceName)) emitter (lines ++ fragment.lines) emitted
  | block {pos : SourcePos} {statements : List Statement} {emitter emitted : StatementEmitter}
      {lines : List Line}
      (hscoped : Emitted (.scoped (.statements statements)) emitter lines emitted) :
      Emitted (.statement (.block pos statements)) emitter lines emitted
  | ifStatement {pos : SourcePos} {condition : Expression}
      {consequence alternative : List Statement}
      {emitter tested afterThen afterElse : StatementEmitter} {fragment : Fragment}
      {value : Operand} {thenLines elseLines : List Line}
      (hcondition : ValuePiece condition.shape (emitCondition condition) emitter fragment value
        tested)
      (hthen : Emitted (.scoped (.statements consequence)) (tested.takeLabels 3).cleared thenLines
        afterThen)
      (helse : Emitted (.scoped (.statements alternative))
        ((tested.takeLabels 3).resumed afterThen).cleared elseLines afterElse) :
      Emitted (.statement (.ifStatement pos condition consequence alternative)) emitter
        (fragment.lines ++ ifLines value tested.ifLabels.1 tested.ifLabels.2.1
          tested.ifLabels.2.2 (afterThen.capture thenLines) (afterElse.capture elseLines))
        (((((tested.takeLabels 3).resumed afterThen).resumed afterElse).append
          (ifLines value tested.ifLabels.1 tested.ifLabels.2.1 tested.ifLabels.2.2
            (afterThen.capture thenLines) (afterElse.capture elseLines))).joined
          (afterThen.returned && afterElse.returned))
  | loop {labels : LoopLabels} {condition : Option Expression} {update : Option Statement}
      {body : List Statement} {emitter afterBody afterUpdate tested : StatementEmitter}
      {bodyLines updateLines : List Line} {fragment : Fragment} {value : Operand}
      (hbody : Emitted (.scoped (.statements body)) (emitter.pushLoop labels).cleared bodyLines
        afterBody)
      (hupdate : Emitted (.optional update)
        ((emitter.pushLoop labels).resumed afterBody).popExit.cleared updateLines afterUpdate)
      (hcondition : ValuePiece (optionShape condition) (emitLoopCondition condition)
        ((((emitter.pushLoop labels).resumed afterBody).popExit.resumed afterUpdate).append
          [.br labels.conditionLabel, .label labels.conditionLabel]) fragment value tested) :
      Emitted (.loop labels condition update body) emitter
        ([.br labels.conditionLabel, .label labels.conditionLabel] ++ fragment.lines ++
          loopLines labels value (afterBody.capture bodyLines) (afterUpdate.capture updateLines))
        (tested.append
          (loopLines labels value (afterBody.capture bodyLines) (afterUpdate.capture updateLines)))
  | whileStatement {pos : SourcePos} {condition : Expression} {body : List Statement}
      {emitter emitted : StatementEmitter} {lines : List Line}
      (hloop : Emitted (.loop (emitter.whileLabels "while") (some condition) none body)
        (emitter.takeLabels 3) lines emitted) :
      Emitted (.statement (.whileStatement pos condition body)) emitter lines emitted
  | doWhileReturns {pos : SourcePos} {condition : Expression} {body : List Statement}
      {emitter afterFirst : StatementEmitter} {lines : List Line}
      (hfirst : Emitted (.scoped (.statements body))
        ((emitter.takeLabels 3).pushLoop (emitter.whileLabels "do.while")) lines afterFirst)
      (hreturns : afterFirst.returned = true ∧ afterFirst.termination = .return) :
      Emitted (.statement (.doWhileStatement pos body condition)) emitter lines afterFirst.popExit
  | doWhile {pos : SourcePos} {condition : Expression} {body : List Statement}
      {emitter afterFirst emitted : StatementEmitter} {firstLines lines : List Line}
      (hfirst : Emitted (.scoped (.statements body))
        ((emitter.takeLabels 3).pushLoop (emitter.whileLabels "do.while")) firstLines afterFirst)
      (hreturns : ¬(afterFirst.returned = true ∧ afterFirst.termination = .return))
      (hloop : Emitted (.loop (emitter.whileLabels "do.while") (some condition) none body)
        afterFirst.popExit.reopened lines emitted) :
      Emitted (.statement (.doWhileStatement pos body condition)) emitter (firstLines ++ lines)
        emitted
  | forStatement {pos : SourcePos} {init : Option Statement} {condition : Option Expression}
      {update : Option Statement} {body : List Statement} {emitter emitted : StatementEmitter}
      {lines : List Line}
      (hscoped : Emitted (.scoped (.forLoop init condition update body)) emitter lines emitted) :
      Emitted (.statement (.forStatement pos init condition update body)) emitter lines emitted
  | forLoop {init : Option Statement} {condition : Option Expression}
      {update : Option Statement} {body : List Statement}
      {emitter afterInit emitted : StatementEmitter} {initLines lines : List Line}
      (hinit : Emitted (.optional init) emitter initLines afterInit)
      (hloop : Emitted (.loop afterInit.forLabels condition update body) (afterInit.takeLabels 4)
        lines emitted) :
      Emitted (.forLoop init condition update body) emitter (initLines ++ lines) emitted
  | forEach {pos : SourcePos} {stem iteratorSymbol : String} {pattern : Option BindingPattern}
      {target source : Expression} {body : List Statement}
      {emitter sourced prepared iterated afterBody stepped assigned : StatementEmitter}
      {sourceCode prepareCode iteratorCode stepCode assignCode : Fragment}
      {sourceValue iterator next done : Operand} {assignment : ForEachTarget}
      {bodyLines : List Line}
      (hsource : ValuePiece source.shape (emitExpression source) emitter sourceCode sourceValue
        sourced)
      (hprepare : Piece true (ForEachTarget.Ready pattern)
        (sourced.slotsAnd sourceValue.names) (prepareShape pattern target)
        (prepareForEachTarget pos pattern target) sourced prepareCode assignment prepared)
      (hiterator : Piece false ValueIn (prepared.slotsAnd (sourceValue.names ++ assignment.names))
        .straight (expr (emitRuntimeUnaryValue iteratorSymbol sourceValue)) prepared iteratorCode
        iterator iterated)
      (hbody : Emitted (.scoped (.statements body))
        ((iterated.takeLabels 3).pushLoop (iterated.whileLabels stem)).cleared bodyLines afterBody)
      (hstep : Piece false PairIn (iterated.slotsAnd (iterator.names ++ assignment.names)) .straight
        (expr (emitIteratorStep iterator))
        (((((iterated.takeLabels 3).pushLoop (iterated.whileLabels stem)).resumed
          afterBody).popExit).append [.br (iterated.whileLabels stem).conditionLabel,
            .label (iterated.whileLabels stem).conditionLabel]) stepCode (next, done) stepped)
      (hassign : LinesPiece false (stepped.slotsAnd (next.names ++ assignment.names))
        (patternShape pattern) (expr (emitIteratorAssign next assignment))
        (stepped.append [.brIf done (iterated.whileLabels stem).endLabel
            (iterated.whileLabels stem).bodyLabel,
          .label (iterated.whileLabels stem).bodyLabel]) assignCode assigned) :
      Emitted (.forEach pos stem iteratorSymbol pattern target source body) emitter
        (sourceCode.lines ++ prepareCode.lines ++ iteratorCode.lines ++
          [.br (iterated.whileLabels stem).conditionLabel,
            .label (iterated.whileLabels stem).conditionLabel] ++ stepCode.lines ++
          [.brIf done (iterated.whileLabels stem).endLabel (iterated.whileLabels stem).bodyLabel,
            .label (iterated.whileLabels stem).bodyLabel] ++ assignCode.lines ++
          (afterBody.capture bodyLines).thenBranch (iterated.whileLabels stem).conditionLabel ++
          [.label (iterated.whileLabels stem).endLabel])
        (assigned.append ((afterBody.capture bodyLines).thenBranch
          (iterated.whileLabels stem).conditionLabel ++
            [.label (iterated.whileLabels stem).endLabel]))
  | forInStatement {pos : SourcePos} {kind : DeclarationKind} {pattern : Option BindingPattern}
      {target object : Expression} {body : List Statement} {emitter emitted : StatementEmitter}
      {lines : List Line}
      (hloop : Emitted (.forEach pos "for.in" "jayess_for_in_iterator" pattern target object body)
        emitter lines emitted) :
      Emitted (.statement (.forInStatement pos kind pattern target object body)) emitter lines
        emitted
  | forOfStatement {pos : SourcePos} {kind : DeclarationKind} {pattern : Option BindingPattern}
      {target iterable : Expression} {body : List Statement} {emitter emitted : StatementEmitter}
      {lines : List Line}
      (hloop : Emitted (.forEach pos "for.of" "jayess_for_of_iterator" pattern target iterable
        body) emitter lines emitted) :
      Emitted (.statement (.forOfStatement pos kind pattern target iterable body false)) emitter
        lines emitted
  | switchStatement {pos : SourcePos} {discriminant : Expression} {cases : List SwitchCase}
      {default : List Statement} {captured : List CapturedSwitchCase}
      {emitter tested afterCases afterDefault checked : StatementEmitter} {fragment : Fragment}
      {value : Operand} {defaultCode checkCode : List Line}
      (hdiscriminant : ValuePiece discriminant.shape (emitExpression discriminant) emitter
        fragment value tested)
      (hcases : Emitted (.cases cases captured)
        ((tested.takeLabels (2 + 2 * cases.length)).pushExit .switch
          (tested.switchLabels cases.length).endLabel none) [] afterCases)
      (hdefault : Emitted (.scoped (.statements default)) afterCases.cleared defaultCode
        afterDefault)
      (hchecks : Emitted (.checks value (tested.switchLabels cases.length).defaultLabel captured
          (tested.switchLabels cases.length).checkLabels
          (tested.switchLabels cases.length).caseLabels)
        ((afterCases.resumed afterDefault).popExit.append
          [.br ((tested.switchLabels cases.length).checkLabels.headD
            (tested.switchLabels cases.length).defaultLabel)]) checkCode checked) :
      Emitted (.statement (.switchStatement pos discriminant cases default)) emitter
        (fragment.lines ++ [.br ((tested.switchLabels cases.length).checkLabels.headD
            (tested.switchLabels cases.length).defaultLabel)] ++ checkCode ++
          defaultLines (tested.switchLabels cases.length) (afterDefault.capture defaultCode))
        (checked.append (defaultLines (tested.switchLabels cases.length)
          (afterDefault.capture defaultCode)))
  | casesNil {emitter : StatementEmitter} : Emitted (.cases [] []) emitter [] emitter
  | casesCons {test : Expression} {consequent : List Statement} {rest : List SwitchCase}
      {captured : List CapturedSwitchCase} {emitter afterBody emitted : StatementEmitter}
      {lines : List Line}
      (hbody : Emitted (.scoped (.statements consequent)) emitter.cleared lines afterBody)
      (hrest : Emitted (.cases rest captured) (emitter.resumed afterBody) [] emitted) :
      Emitted (.cases (⟨test, consequent⟩ :: rest) (⟨test, afterBody.capture lines⟩ :: captured))
        emitter [] emitted
  | checksNil {discriminant : Operand} {defaultLabel : BlockLabel} {emitter : StatementEmitter} :
      Emitted (.checks discriminant defaultLabel [] [] []) emitter [] emitter
  | checksCons {discriminant matched : Operand} {defaultLabel checkLabel caseLabel : BlockLabel}
      {switchCase : CapturedSwitchCase} {cases : List CapturedSwitchCase}
      {checkLabels caseLabels : List BlockLabel} {emitter tested emitted : StatementEmitter}
      {fragment : Fragment} {lines : List Line}
      (htest : Piece false ValueIn (emitter.slotsAnd discriminant.names) switchCase.test.shape
        (expr (emitCaseTest discriminant switchCase.test)) (emitter.append [.label checkLabel])
        fragment matched tested)
      (hrest : Emitted (.checks discriminant defaultLabel cases checkLabels caseLabels)
        (tested.append (caseLines matched caseLabel (checkLabels.headD defaultLabel)
          (caseLabels.headD defaultLabel) switchCase.body)) lines emitted) :
      Emitted (.checks discriminant defaultLabel (switchCase :: cases) (checkLabel :: checkLabels)
        (caseLabel :: caseLabels)) emitter
        (.label checkLabel :: fragment.lines ++ caseLines matched caseLabel
          (checkLabels.headD defaultLabel) (caseLabels.headD defaultLabel) switchCase.body ++ lines)
        emitted
  | unlabeled {pos : SourcePos} {statement : Statement} {emitter emitted : StatementEmitter}
      {lines : List Line} (hstatement : Emitted (.statement statement) emitter lines emitted) :
      Emitted (.statement (.labeledStatement pos "" statement)) emitter lines emitted
  | labeledStatement {pos : SourcePos} {label : String} {statement : Statement}
      {emitter emitted : StatementEmitter} {lines : List Line} (hlabel : label ≠ "")
      (hblock : ∀ blockPos statements, statement ≠ .block blockPos statements)
      (hstatement : Emitted (.statement statement) (emitter.pushLabel label) lines emitted) :
      Emitted (.statement (.labeledStatement pos label statement)) emitter lines emitted.popLabel
  | labeledBlock {pos blockPos : SourcePos} {label : String} {statements : List Statement}
      {emitter emitted : StatementEmitter} {lines : List Line} (hlabel : label ≠ "")
      (hblock : Emitted (.scoped (.statements statements))
        (((emitter.takeLabels 1).pushLabel label).pushExit .block
          (emitter.blockLabel ("label." ++ label ++ ".end") 0) none) lines emitted) :
      Emitted (.statement (.labeledStatement pos label (.block blockPos statements))) emitter
        (lines ++ emitted.labeledEnd label (emitter.blockLabel ("label." ++ label ++ ".end") 0))
        ((emitted.popExit.popLabel.afterLabeled label).append
          (emitted.labeledEnd label (emitter.blockLabel ("label." ++ label ++ ".end") 0)))
  | breakStatement {pos : SourcePos} {label : String} {exit : StructuredExit}
      {emitter cleaned : StatementEmitter} {fragment : Fragment}
      (hexit : emitter.exits.find? (·.breaks label) = some exit)
      (hcleanups : LinesPiece false emitter.slots .straight (emitCleanupsUntil exit.cleanupDepth)
        emitter fragment cleaned) :
      Emitted (.statement (.breakStatement pos label)) emitter
        (fragment.lines ++ [.br exit.breakLabel])
        ((cleaned.append [.br exit.breakLabel]).terminated .break label)
  | continueStatement {pos : SourcePos} {label : String} {exit : StructuredExit}
      {target : BlockLabel} {emitter cleaned : StatementEmitter} {fragment : Fragment}
      (hexit : emitter.exits.find? (·.continues label) = some exit)
      (htarget : exit.continueLabel = some target)
      (hcleanups : LinesPiece false emitter.slots .straight (emitCleanupsUntil exit.cleanupDepth)
        emitter fragment cleaned) :
      Emitted (.statement (.continueStatement pos label)) emitter
        (fragment.lines ++ [.br target])
        ((cleaned.append [.br target]).terminated .continue label)
  | returnStatement {pos : SourcePos} {value : Option Expression} {result : Operand}
      {target : ReturnTarget} {emitter valued targeted cleaned : StatementEmitter}
      {fragment cleanups : Fragment} {allocation : List Line}
      (hvalue : ValuePiece (optionShape value) (emitOptionalValue value) emitter fragment result
        valued)
      (htarget : EnsuresReturn valued target allocation targeted)
      (hcleanups : LinesPiece false targeted.slots .straight emitActiveCleanups targeted cleanups
        cleaned) :
      Emitted (.statement (.returnStatement pos value)) emitter
        (fragment.lines ++ allocation ++ cleanups.lines ++
          [.store result target.slot, .br target.label, .legacyRet result])
        ((cleaned.append
          [.store result target.slot, .br target.label, .legacyRet result]).terminated .return "")
  | throwStatement {pos : SourcePos} {value : Expression} {thrown : Operand} {slot : LocalSlot}
      {target : BlockLabel} {emitter valued slotted targeted cleaned : StatementEmitter}
      {fragment cleanups : Fragment} {allocation : List Line}
      (hvalue : ValuePiece value.shape (emitExpression value) emitter fragment thrown valued)
      (hslot : EnsuresThrowSlot valued slot allocation slotted)
      (htarget : FindsThrowTarget slotted target targeted)
      (hcleanups : LinesPiece false targeted.slots .straight emitActiveCleanups targeted cleanups
        cleaned) :
      Emitted (.statement (.throwStatement pos value)) emitter
        (fragment.lines ++ allocation ++ cleanups.lines ++ [.store thrown slot, .br target])
        ((cleaned.append [.store thrown slot, .br target]).terminated .throw "")
  | tryStatement {pos : SourcePos} {tryBody catchBody finallyBody : List Statement}
      {catchPattern : Option BindingPattern} {labels : TryLabels} {throwTarget : BlockLabel}
      {slot : LocalSlot} {emitter slotted afterTry afterCatch afterFinally : StatementEmitter}
      {allocation tryCode catchCode finallyCode : List Line}
      (hlabels : emitter.tryLabels (!catchBody.isEmpty) (!finallyBody.isEmpty) = labels)
      (hthrowTarget : labels.catchLabel.or labels.finallyLabel = some throwTarget)
      (hslot : EnsuresThrowSlot
        (emitter.takeLabels ((!catchBody.isEmpty).toNat + (!finallyBody.isEmpty).toNat + 1))
        slot allocation slotted)
      (htry : Emitted (.scoped (.statements tryBody)) (slotted.pushHandler throwTarget).cleared
        tryCode afterTry)
      (hcatch : Emitted
        (.part (!catchBody.isEmpty) (.scoped (.caught pos slot catchPattern catchBody)))
        ((slotted.pushHandler throwTarget).resumed afterTry).popHandler.cleared catchCode
        afterCatch)
      (hfinally : Emitted (.part (!finallyBody.isEmpty) (.scoped (.statements finallyBody)))
        (((slotted.pushHandler throwTarget).resumed afterTry).popHandler.resumed
          afterCatch).cleared finallyCode afterFinally) :
      Emitted (.statement (.tryStatement pos tryBody catchPattern catchBody finallyBody)) emitter
        (allocation ++ tryLines labels.catchLabel labels.finallyLabel labels.endLabel
          (afterTry.capture tryCode) (afterCatch.capture catchCode)
          (afterFinally.capture finallyCode) ++
          tryEnd (tryReturns labels.catchLabel labels.finallyLabel (afterTry.capture tryCode)
            (afterCatch.capture catchCode) (afterFinally.capture finallyCode)) labels.endLabel)
        (((((((slotted.pushHandler throwTarget).resumed afterTry).popHandler.resumed
          afterCatch).resumed afterFinally).append
            (tryLines labels.catchLabel labels.finallyLabel labels.endLabel
              (afterTry.capture tryCode) (afterCatch.capture catchCode)
              (afterFinally.capture finallyCode))).afterTry
            (tryReturns labels.catchLabel labels.finallyLabel (afterTry.capture tryCode)
              (afterCatch.capture catchCode) (afterFinally.capture finallyCode))).append
          (tryEnd (tryReturns labels.catchLabel labels.finallyLabel (afterTry.capture tryCode)
            (afterCatch.capture catchCode) (afterFinally.capture finallyCode)) labels.endLabel))
  | uncaught {pos : SourcePos} {slot : LocalSlot} {body : List Statement}
      {emitter emitted : StatementEmitter} {lines : List Line}
      (hbody : Emitted (.statements body) emitter lines emitted) :
      Emitted (.caught pos slot none body) emitter lines emitted
  | caught {pos : SourcePos} {slot : LocalSlot} {pattern : BindingPattern}
      {body : List Statement} {emitter declared bound emitted : StatementEmitter}
      {declareCode bindCode : Fragment} {lines : List Line}
      (hdeclare : LinesPiece true emitter.slots .straight
        (expr (declareBindingTargets (some pattern) .undef)) emitter declareCode declared)
      (hbind : LinesPiece true (declared.slotsAnd [.value declared.expressions.valueIndex])
        pattern.shape (bindCaught pos pattern (.named declared.expressions.valueIndex))
        (declared.takeValue.append [.load declared.expressions.valueIndex slot]) bindCode bound)
      (hbody : Emitted (.statements body) bound lines emitted) :
      Emitted (.caught pos slot (some pattern) body) emitter
        (declareCode.lines ++ [.load declared.expressions.valueIndex slot] ++ bindCode.lines ++
          lines) emitted
  | absent {node : Node} {emitter : StatementEmitter} :
      Emitted (.part false node) emitter [] emitter
  | present {node : Node} {emitter emitted : StatementEmitter} {lines : List Line}
      (hnode : Emitted node emitter lines emitted) :
      Emitted (.part true node) emitter lines emitted
  | inScope {node : Node} {emitter inner emitted : StatementEmitter} {lines : List Line}
      {fragment : Fragment} (hnode : Emitted node emitter.entered lines inner)
      (hleaves : Leaves inner fragment emitted) :
      Emitted (.scoped node) emitter (lines ++ fragment.lines) emitted
  | optionalNone {emitter : StatementEmitter} : Emitted (.optional none) emitter [] emitter
  | optionalSome {statement : Statement} {emitter emitted : StatementEmitter}
      {lines : List Line} (hstatement : Emitted (.statement statement) emitter lines emitted) :
      Emitted (.optional (some statement)) emitter lines emitted
  | statementsNil {emitter : StatementEmitter} : Emitted (.statements []) emitter [] emitter
  | statementsCons {statement : Statement} {rest : List Statement}
      {emitter middle emitted : StatementEmitter} {lines restLines : List Line}
      (hopen : emitter.returned = false)
      (hstatement : Emitted (.statement statement) emitter lines middle)
      (hrest : Emitted (.statements rest) middle restLines emitted) :
      Emitted (.statements (statement :: rest)) emitter (lines ++ restLines) emitted

end Jayess.Backend
