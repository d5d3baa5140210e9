import Jayess.Lowering.ControlFlowCleanup

/-!
# The exits of a program

Every exit of a program in the scopes around it: the ends of scopes and of for statements, and the
return, break, continue and throw statements, also those in functions that the lowering does not
enter.
-/

namespace Jayess.Lowering

open Lifetime (Cleanup)

inductive Completion where
  | normal | return | throw
  | break (label : String)
  | continue (label : String)
deriving DecidableEq, Repr

def hasCatchClause (catchPattern : Option BindingPattern) (catchBody : List Statement) : Bool :=
  catchPattern.isSome || !catchBody.isEmpty

def testsLast : Statement → Bool
  | .doWhileStatement .. => true
  | .labeledStatement _ _ statement => testsLast statement
  | _ => false

def loopCompletes (ends : Bool) (body : Completion → Bool) : Completion → Bool
  | .normal => ends || body (.break "")
  | .break label => label ≠ "" && body (.break label)
  | .continue label => label ≠ "" && body (.continue label)
  | other => body other

mutual

/-- The statement may end in this way, for all that conditions and calls do. -/
def completes : Statement → Completion → Bool
  | .returnStatement .., completion => completion = .return
  | .throwStatement .., completion => completion = .throw
  | .breakStatement _ label, completion => completion = .break label
  | .continueStatement _ label, completion => completion = .continue label
  | .block _ statements, completion => allComplete statements completion
  | .ifStatement _ _ consequence alternative, completion =>
      allComplete consequence completion || allComplete alternative completion
  | .whileStatement _ _ body, completion | .forInStatement _ _ _ _ _ body, completion
  | .forOfStatement _ _ _ _ _ body _, completion => loopCompletes true (allComplete body) completion
  | .doWhileStatement _ body _, completion =>
      loopCompletes (allComplete body .normal || allComplete body (.continue "")) (allComplete body)
        completion
  | .forStatement _ _ condition _ body, completion =>
      loopCompletes condition.isSome (allComplete body) completion
  | .labeledStatement _ label statement, completion =>
      if completion = .normal then
        completes statement .normal || completes statement (.break label) ||
          (testsLast statement && completes statement (.continue label))
      else completion ≠ .break label && completion ≠ .continue label && completes statement completion
  | .switchStatement _ _ cases default, completion =>
      if completion = .normal then
        default.isEmpty || allComplete default .normal || allComplete default (.break "") ||
          casesComplete cases (.break "")
      else completion ≠ .break "" && (casesComplete cases completion || allComplete default completion)
  | .tryStatement _ tryBody catchPattern catchBody finallyBody, completion =>
      allComplete finallyBody .normal &&
          ((allComplete tryBody completion &&
              !(completion = .throw && hasCatchClause catchPattern catchBody)) ||
            (hasCatchClause catchPattern catchBody && allComplete catchBody completion)) ||
        completion ≠ .normal && allComplete finallyBody completion
  | _, completion => completion = .normal

def allComplete : List Statement → Completion → Bool
  | [], completion => completion = .normal
  | statement :: rest, completion =>
      completion ≠ .normal && completes statement completion ||
        completes statement .normal && allComplete rest completion

def casesComplete : List SwitchCase → Completion → Bool
  | [], _ => false
  | ⟨_, consequent⟩ :: rest, completion =>
      allComplete consequent completion || casesComplete rest completion

end

/-! ## Scopes -/

/-- The cleanup of a planned declaration. The lowering does not list those of exported declarations, and
lists one too much where its declaration is listed already or is that of a for statement which has ended. -/
structure Entry where
  op : CleanupOp
  surplus : Bool
  listed : Bool
deriving DecidableEq, Repr

inductive FrameKind where
  | scope | switch
  /-- The body of a loop; the bindings of the head are those of one iteration, or of all. -/
  | loop (perIteration : Bool)
  | label (name : String)
  /-- The body of a try statement with a catch clause. -/
  | guarded
deriving DecidableEq, Repr

/-- A scope or a part of the control flow around an exit, with what the head declares and what was declared
in it before the exit. -/
structure CleanupFrame where
  kind : FrameKind
  head : List Entry
  entries : List Entry
deriving DecidableEq, Repr

namespace CleanupFrame

def isLoop (frame : CleanupFrame) : Bool :=
  match frame.kind with
  | .loop _ => true
  | _ => false

def isBreakable (frame : CleanupFrame) : Bool :=
  match frame.kind with
  | .loop _ | .switch => true
  | _ => false

def staying (frame : CleanupFrame) : Nat :=
  match frame.kind with
  | .loop false => frame.head.length
  | _ => 0

/-- All declarations of the frames, the outermost first. -/
def declared : List CleanupFrame → List Entry
  | [] => []
  | frame :: outer => declared outer ++ (frame.head ++ frame.entries)

def boundary (isKind : CleanupFrame → Bool) (outside : Option Nat) : List CleanupFrame → Option Nat
  | [] => outside
  | frame :: outer =>
      if isKind frame then some ((declared outer ++ frame.head).countP Entry.listed)
      else boundary isKind outside outer

def findFrame (isKind : CleanupFrame → Bool) :
    List CleanupFrame → Option (CleanupFrame × List CleanupFrame)
  | [] => none
  | frame :: outer => if isKind frame then some (frame, outer) else findFrame isKind outer

/-- The loop that stands right under a label, and the frames around the loop. -/
def findLabelledLoop (label : String) (loop : Option (CleanupFrame × List CleanupFrame)) :
    List CleanupFrame → Option (CleanupFrame × List CleanupFrame)
  | [] => none
  | frame :: outer =>
      if frame.isLoop then findLabelledLoop label (some (frame, outer)) outer
      else
        match frame.kind with
        | .label name => if name = label then loop else findLabelledLoop label loop outer
        | _ => findLabelledLoop label none outer

end CleanupFrame

open CleanupFrame (declared findFrame findLabelledLoop)

/-- Where an exit stands: the innermost frame and those around it in the function, the boundaries of the
lowering around the function, whether the lowering comes there, and whether a run may. -/
structure ExitContext where
  frame : CleanupFrame
  outer : List CleanupFrame
  breakOutside : Option Nat
  continueOutside : Option Nat
  visited : Bool
  reached : Bool
deriving DecidableEq, Repr

namespace ExitContext

def unvisitedFunction : ExitContext := ⟨⟨.scope, [], []⟩, [], none, none, false, true⟩

variable (context : ExitContext)

def frames : List CleanupFrame := context.frame :: context.outer

def push (kind : FrameKind) (head : List Entry) : ExitContext :=
  { context with frame := ⟨kind, head, []⟩, outer := context.frames }

def unvisited : ExitContext := { context with visited := false }

def breakBoundary : Option Nat :=
  CleanupFrame.boundary CleanupFrame.isBreakable context.breakOutside context.frames

def continueBoundary : Option Nat :=
  CleanupFrame.boundary CleanupFrame.isLoop context.continueOutside context.frames

def enterFunction : ExitContext :=
  ⟨⟨.scope, [], []⟩, [], context.breakBoundary, context.continueBoundary, context.visited, true⟩

def scopeStart : Nat := (declared context.outer ++ context.frame.head).countP Entry.listed

def scopeLeaving : Nat := (declared context.outer).length + context.frame.staying

def throwLeaving : Nat :=
  match findFrame (fun frame => frame.kind = .guarded) context.frames with
  | none => 0
  | some (_, outer) => (declared outer).length

def breakLeaving (label : String) : Option Nat :=
  (findFrame (fun frame => if label = "" then frame.isBreakable else frame.kind = .label label)
    context.frames).map fun found => (declared found.2).length

def continueLeaving (label : String) : Option Nat :=
  (if label = "" then findFrame CleanupFrame.isLoop context.frames
    else findLabelledLoop label none context.frames).map
      fun found => (declared found.2).length + found.1.staying

end ExitContext

/-! ## Exits -/

/-- An exit with all that is declared at it, from where on in its list the lowering emits, and from which
declaration on the scopes begin that are left. -/
structure Exit where
  path : CleanupPath
  pos : SourcePos
  declared : List Entry
  boundary : Option Nat
  leaving : Option Nat
deriving DecidableEq, Repr

def entriesAfter (entries : List Entry) : Option Nat → List Entry
  | none => []
  | some start => entries.drop start

namespace Exit

def listed (exit : Exit) : List Entry := exit.declared.filter Entry.listed

/-- The declarations whose cleanups the lowering emits at the exit. -/
def lowered (exit : Exit) : List Entry := entriesAfter exit.listed exit.boundary

def emitted (exit : Exit) : List ControlFlowCleanupOp :=
  exitOps exit.path exit.pos (exit.lowered.map Entry.op)

/-- The declarations that are active in the scopes which the exit leaves. -/
def left (exit : Exit) : List Entry :=
  (entriesAfter exit.declared exit.leaving).filter fun entry => !entry.surplus

def required (exit : Exit) : List ControlFlowCleanupOp :=
  exitOps exit.path exit.pos (exit.left.map Entry.op)

def loweredStart (exit : Exit) : Nat := exit.boundary.getD exit.listed.length

def leftStart (exit : Exit) : Nat :=
  match exit.leaving with
  | none => exit.listed.length
  | some start => (exit.declared.take start).countP Entry.listed

/-- Between the two places nothing is listed that counts. -/
structure Covered (exit : Exit) : Prop where
  listed : ∀ entry ∈ exit.left, entry.listed = true
  /-- Nothing is listed too much where the lowering emits. -/
  fresh : ∀ entry ∈ exit.listed.drop exit.loweredStart, entry.surplus = false
  /-- Nothing outside the scopes that are left is emitted. -/
  outside : (exit.listed.take exit.leftStart).drop exit.loweredStart = []
  /-- Nothing in these scopes is missed. -/
  missed : ∀ entry ∈ (exit.listed.take exit.loweredStart).drop exit.leftStart, entry.surplus = true

instance (exit : Exit) : Decidable exit.Covered :=
  decidable_of_iff
    ((∀ entry ∈ exit.left, entry.listed = true) ∧
      (∀ entry ∈ exit.listed.drop exit.loweredStart, entry.surplus = false) ∧
      (exit.listed.take exit.leftStart).drop exit.loweredStart = [] ∧
      ∀ entry ∈ (exit.listed.take exit.loweredStart).drop exit.leftStart, entry.surplus = true)
    ⟨fun ⟨listed, fresh, outside, missed⟩ => ⟨listed, fresh, outside, missed⟩,
      fun covered => ⟨covered.listed, covered.fresh, covered.outside, covered.missed⟩⟩

end Exit

namespace ExitContext

/-- An exit of the context. -/
def exit (context : ExitContext) (path : CleanupPath) (pos : SourcePos)
    (boundary leaving : Option Nat) : Exit :=
  ⟨path, pos, declared context.frames, if context.visited then boundary else none, leaving⟩

end ExitContext

section Walk

variable (cleanups : List Cleanup)

def entriesFrom (pos : SourcePos) (seen : List String) : List String → List Entry
  | [] => []
  | name :: rest =>
      ((cleanupOpFor cleanups pos name).map fun op => ⟨op, decide (name ∈ seen), true⟩).toList ++
        entriesFrom pos (name :: seen) rest

def declaredEntries (pos : SourcePos) (pattern : Option BindingPattern) : List Entry :=
  entriesFrom cleanups pos [] (cleanupBindingNames pattern)

mutual

/-- What a statement of a scope declares there, and what the lowering lists for it. -/
def scopeEntries : Statement → List Entry
  | .variableDecl pos _ _ pattern _ => declaredEntries cleanups pos pattern
  | .exportDecl _ declaration .. =>
      (optionEntries declaration).map fun entry => { entry with listed := false }
  | .forStatement _ init _ _ _ =>
      (optionEntries init).map fun entry => { entry with surplus := true }
  | .labeledStatement _ _ statement => scopeEntries statement
  | _ => []

def optionEntries : Option Statement → List Entry
  | none => []
  | some statement => scopeEntries statement

end

mutual

def fallsThrough : Statement → Bool
  | .returnStatement .. | .breakStatement .. | .continueStatement .. | .throwStatement .. => false
  | .forStatement _ init _ _ _ => optionFallsThrough init
  | .labeledStatement _ _ statement => fallsThrough statement
  | _ => true

def optionFallsThrough : Option Statement → Bool
  | none => true
  | some statement => fallsThrough statement

end

def optionCompletes : Option Statement → Bool
  | none => true
  | some statement => completes statement .normal

namespace ExitContext

/-- The context after a statement of the innermost scope. -/
def after (context : ExitContext) (statement : Statement) : ExitContext :=
  { context with
    frame :=
      { context.frame with
        entries := context.frame.entries ++ scopeEntries cleanups statement }
    visited := context.visited && fallsThrough statement
    reached := context.reached && completes statement .normal }

def enterFor (context : ExitContext) (init : Option Statement) : ExitContext :=
  { context.push (.loop false) (optionEntries cleanups init) with
    visited := context.visited && optionFallsThrough init
    reached := context.reached && optionCompletes init }

def scopeEnd (context : ExitContext) : Exit :=
  context.exit .normal ⟨0, 0⟩ (some context.scopeStart)
    (if context.reached then some context.scopeLeaving else none)

/-- The end of a for statement whose condition fails, in the context of its body: the bindings of the head
end. -/
def forEnd (context : ExitContext) (ends : Bool) : Exit :=
  context.exit .normal ⟨0, 0⟩ none
    (if context.reached && ends then some (declared context.outer).length else none)

end ExitContext

mutual

def expressionExits : Expression → List Exit
  | .functionExpression _ _ params body expressionBody =>
      parametersExits params ++ statementsExits .unvisitedFunction body ++
        optionExpressionExits expressionBody
  | .templateLiteral _ _ expressions => expressionsExits expressions
  | .newExpression _ callee arguments | .invoke _ callee arguments _ =>
      expressionExits callee ++ expressionsExits arguments
  | .binary _ _ left right | .comparison _ _ left right | .logical _ _ left right
  | .nullishCoalesce _ left right | .comma _ left right | .instanceof _ left right =>
      expressionExits left ++ expressionExits right
  | .conditional _ condition consequent alternative =>
      expressionExits condition ++ expressionExits consequent ++ expressionExits alternative
  | .unary _ _ value | .update _ _ value _ | .typeof _ value | .await _ value | .member _ value _ _ _
  | .spread _ value => expressionExits value
  | .yield _ value _ => optionExpressionExits value
  | .call _ _ arguments => expressionsExits arguments
  | .index _ target index _ => expressionExits target ++ expressionExits index
  | .objectLiteral _ properties => propertiesExits properties
  | .arrayLiteral _ elements => elementsExits elements
  | .identifier .. | .thisExpression _ | .superExpression _ | .numberLiteral .. | .bigIntLiteral ..
  | .stringLiteral .. | .booleanLiteral .. | .nullLiteral _ | .undefinedLiteral _ | .importMeta _
  | .newTarget _ => []

def expressionsExits : List Expression → List Exit
  | [] => []
  | expression :: rest => expressionExits expression ++ expressionsExits rest

def optionExpressionExits : Option Expression → List Exit
  | none => []
  | some expression => expressionExits expression

def elementsExits : List (Option Expression) → List Exit
  | [] => []
  | element :: rest => optionExpressionExits element ++ elementsExits rest

def propertiesExits : List ObjectProperty → List Exit
  | [] => []
  | ⟨_, keyExpr, value, _, _⟩ :: rest =>
      optionExpressionExits keyExpr ++ expressionExits value ++ propertiesExits rest

def patternExits : BindingPattern → List Exit
  | .name _ => []
  | .default pattern value => optionPatternExits pattern ++ expressionExits value
  | .rest pattern => optionPatternExits pattern
  | .array elements => patternsExits elements
  | .object properties => bindingsExits properties

def optionPatternExits : Option BindingPattern → List Exit
  | none => []
  | some pattern => patternExits pattern

def patternsExits : List (Option BindingPattern) → List Exit
  | [] => []
  | pattern :: rest => optionPatternExits pattern ++ patternsExits rest

def bindingsExits : List ObjectBindingProperty → List Exit
  | [] => []
  | ⟨_, keyExpr, pattern, _, _⟩ :: rest =>
      optionExpressionExits keyExpr ++ optionPatternExits pattern ++ bindingsExits rest

def parametersExits : List Parameter → List Exit
  | [] => []
  | ⟨_, pattern, _, default⟩ :: rest =>
      optionPatternExits pattern ++ optionExpressionExits default ++ parametersExits rest

def membersExits : List ClassMember → List Exit
  | [] => []
  | ⟨_, keyExpr, params, body, value, _, _, _, _, _, _, _, _⟩ :: rest =>
      optionExpressionExits keyExpr ++ parametersExits params ++
        statementsExits .unvisitedFunction body ++ optionExpressionExits value ++ membersExits rest

def statementsExits (context : ExitContext) : List Statement → List Exit
  | [] => [context.scopeEnd]
  | statement :: rest =>
      statementExits context statement ++ statementsExits (context.after cleanups statement) rest

def statementExits (context : ExitContext) : Statement → List Exit
  | .variableDecl _ _ _ pattern value => optionPatternExits pattern ++ optionExpressionExits value
  | .functionDecl _ _ params body =>
      parametersExits params ++ statementsExits context.enterFunction body
  | .classDecl _ _ superClass members => optionExpressionExits superClass ++ membersExits members
  | .exportDecl _ declaration value _ _ _ _ _ =>
      optionExits context.unvisited declaration ++ optionExpressionExits value
  | .assignment _ target _ value => expressionExits target ++ expressionExits value
  | .block _ statements => statementsExits (context.push .scope []) statements
  | .ifStatement _ condition consequence alternative =>
      expressionExits condition ++ statementsExits (context.push .scope []) consequence ++
        statementsExits (context.push .scope []) alternative
  | .whileStatement _ condition body | .doWhileStatement _ body condition =>
      expressionExits condition ++ statementsExits (context.push (.loop true) []) body
  | .forStatement _ init condition update body =>
      optionExits context init ++ optionExpressionExits condition ++
        optionExits (context.enterFor cleanups init).unvisited update ++
        statementsExits (context.enterFor cleanups init) body ++
        [(context.enterFor cleanups init).forEnd condition.isSome]
  | .forInStatement pos _ pattern target value body
  | .forOfStatement pos _ pattern target value body _ =>
      optionPatternExits pattern ++ expressionExits target ++ expressionExits value ++
        statementsExits (context.push (.loop true) (declaredEntries cleanups pos pattern)) body
  | .switchStatement _ discriminant cases default =>
      expressionExits discriminant ++ casesExits (context.push .switch []) cases ++
        statementsExits ((context.push .switch []).push .scope []) default
  | .labeledStatement _ label statement => statementExits (context.push (.label label) []) statement
  | .expressionStatement _ value => expressionExits value
  | .tryStatement pos tryBody catchPattern catchBody finallyBody =>
      statementsExits
          (context.push (if hasCatchClause catchPattern catchBody then .guarded else .scope) [])
          tryBody ++
        optionPatternExits catchPattern ++
        statementsExits (context.push .scope (declaredEntries cleanups pos catchPattern)) catchBody ++
        statementsExits (context.push .scope []) finallyBody
  | .returnStatement pos value =>
      optionExpressionExits value ++ [context.exit .return pos (some 0) (some 0)]
  | .throwStatement pos value =>
      expressionExits value ++ [context.exit .throw pos (some 0) (some context.throwLeaving)]
  | .breakStatement pos label =>
      [context.exit .break pos context.breakBoundary (context.breakLeaving label)]
  | .continueStatement pos label =>
      [context.exit .continue pos context.continueBoundary (context.continueLeaving label)]
  | .empty _ | .importDecl .. | .debugger _ => []

def casesExits (context : ExitContext) : List SwitchCase → List Exit
  | [] => []
  | ⟨test, consequent⟩ :: rest =>
      expressionExits test ++ statementsExits (context.push .scope []) consequent ++
        casesExits context rest

def optionExits (context : ExitContext) : Option Statement → List Exit
  | none => []
  | some statement => statementExits context statement

end

/-- All exits of a program. -/
def programExits (statements : List Statement) : List Exit :=
  statementsExits cleanups ⟨⟨.scope, [], []⟩, [], none, none, true, true⟩ statements

end Walk

end Jayess.Lowering
