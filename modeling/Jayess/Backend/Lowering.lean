import Jayess.Backend.Declares
import Jayess.Backend.Sites

/-!
# What sites are lowered to
-/

namespace Jayess.Backend

open StatementEmitter Walk
open HasExpressions (expressions)

/-- A site with the emitter at it. -/
structure Visit where
  emitter : ExpressionEmitter
  site : Site

/-- What the site is lowered to. -/
def Visit.symbol (visit : Visit) : Option String := visit.site.symbol visit.emitter

def visiting (sites : List Site) (emitter : StatementEmitter) : List Visit :=
  sites.map (⟨emitter.expressions, ·⟩)

/-- The sites of a statement without blocks of its own. Those of a pattern and of class members come
after the names of the statement are declared, and nothing is declared after them. -/
def straightVisits (emitter emitted : StatementEmitter) : Statement → List Visit
  | .variableDecl _ _ _ pattern value =>
      visiting (optionSites value) emitter ++ visiting (patternSites pattern) emitted
  | .classDecl _ _ superClass members =>
      visiting (optionSites superClass) emitter ++
        visiting (members.flatMap ClassMember.sites) emitted
  | .assignment _ target _ value => visiting (target.targetSites ++ value.sites) emitter
  | .expressionStatement _ expression => visiting expression.sites emitter
  | _ => []

def resolvedSites (pattern : Option BindingPattern) (target : Expression) : List Site :=
  if pattern.isSome then [] else target.targetSites

/-- The sites in the order in which they are emitted, with the emitter at each one. -/
def Emitted.visits {node : Node} {emitter emitted : StatementEmitter} {lines : List Line} :
    Emitted node emitter lines emitted → List Visit
  | @Emitted.straight statement start final _ _ _ => straightVisits start final statement
  | @Emitted.exportDecl _ _ value _ _ _ _ _ _ declared _ _ _ hdeclaration _ =>
      hdeclaration.visits ++ visiting (optionSites value) declared
  | .block hscoped => hscoped.visits
  | @Emitted.ifStatement _ condition _ _ start _ _ _ _ _ _ _ _ hthen helse =>
      visiting condition.sites start ++ (hthen.visits ++ helse.visits)
  | @Emitted.loop labels condition _ _ start afterBody afterUpdate _ _ _ _ _ hbody hupdate _ =>
      hbody.visits ++ (hupdate.visits ++ visiting (optionSites condition)
        (((start.pushLoop labels).resumed afterBody).popExit.resumed afterUpdate))
  | .whileStatement hloop => hloop.visits
  | .doWhileReturns hfirst _ => hfirst.visits
  | .doWhile hfirst _ hloop => hfirst.visits ++ hloop.visits
  | .forStatement hscoped => hscoped.visits
  | .forLoop hinit hloop => hinit.visits ++ hloop.visits
  | @Emitted.forEach _ _ _ pattern target source _ start sourced _ _ _ stepped _ _ _ _ _ _ _ _ _ _ _ _
      _ _ _ hbody _ _ =>
      visiting source.sites start ++ (visiting (resolvedSites pattern target) sourced ++
        hbody.visits ++ visiting (patternSites pattern) stepped)
  | .forInStatement hloop => hloop.visits
  | .forOfStatement hloop => hloop.visits
  | @Emitted.switchStatement _ discriminant _ _ _ start _ _ _ _ _ _ _ _ _ hcases hdefault hchecks =>
      visiting discriminant.sites start ++ (hcases.visits ++ (hdefault.visits ++ hchecks.visits))
  | .casesNil => []
  | .casesCons hbody hrest => hbody.visits ++ hrest.visits
  | .checksNil => []
  | @Emitted.checksCons _ _ _ _ _ switchCase _ _ _ start _ _ _ _ _ hrest =>
      visiting switchCase.test.sites start ++ hrest.visits
  | .unlabeled hstatement => hstatement.visits
  | .labeledStatement _ _ hstatement => hstatement.visits
  | .labeledBlock _ hblock => hblock.visits
  | .breakStatement .. => []
  | .continueStatement .. => []
  | @Emitted.returnStatement _ value _ _ start _ _ _ _ _ _ _ _ _ =>
      visiting (optionSites value) start
  | @Emitted.throwStatement _ value _ _ _ start _ _ _ _ _ _ _ _ _ _ _ => visiting value.sites start
  | .tryStatement _ _ _ htry hcatch hfinally => htry.visits ++ (hcatch.visits ++ hfinally.visits)
  | .uncaught hbody => hbody.visits
  | @Emitted.caught _ _ pattern _ _ declared _ _ _ _ _ _ _ hbody =>
      visiting pattern.sites declared ++ hbody.visits
  | .absent => []
  | .present hnode => hnode.visits
  | .inScope hnode _ => hnode.visits
  | .optionalNone => []
  | .optionalSome hstatement => hstatement.visits
  | .statementsNil => []
  | .statementsCons _ hstatement hrest => hstatement.visits ++ hrest.visits

def loopWalk (condition : Option Expression) (update : Option Statement) (body : List Statement) :
    Walk :=
  (enclosed (allWalk .cleared body)).andThen
    ((optionWalk .cleared update).andThen (meets (optionSites condition)))

def capturedSites (cases : List CapturedSwitchCase) : List Site :=
  cases.flatMap fun switchCase => switchCase.test.sites

def Node.walk (start : Ending) : Node → Walk
  | .statement single => single.walk start
  | .statements list => allWalk start list
  | .optional option => optionWalk start option
  | .scoped node => enclosed (node.walk start)
  | .loop _ condition update body => loopWalk condition update body
  | .forLoop init condition update body =>
      (optionWalk start init).andThen (loopWalk condition update body)
  | .forEach _ _ _ pattern target source body =>
      (meets source.sites).andThen (enclosed (((prepareWalk pattern target).andThen
        (enclosed (allWalk .cleared body))).andThen (meets (patternSites pattern))))
  | .cases list _ => casesWalk list
  | .checks _ _ captured _ _ => meets (capturedSites captured)
  | .caught _ _ pattern body =>
      (declares (patternNames pattern)).andThen
        ((meets (patternSites pattern)).andThen (allWalk start body))
  | .part present node => if present then node.walk start else nothing

structure Agrees (scoping : Scoping) (emitter : ExpressionEmitter) : Prop where
  tables : emitter.stdlibTables = scoping.imports
  slots : ∀ name, scoping.meaning name ≠ .undeclared → (emitter.locals name).isSome = true

structure Visit.Of (visit : Visit) (occurrence : Occurrence) : Prop where
  site : visit.site = occurrence.site
  agrees : Agrees occurrence.scoping visit.emitter

structure Follows (visits : List Visit) (result : List Occurrence × Scoping)
    (emitted : StatementEmitter) : Prop where
  visits : List.Forall₂ Visit.Of visits result.1
  agrees : Agrees result.2 emitted.expressions

section Agreement

variable {scoping : Scoping} {names : List String}

section Actions

variable {σ α : Type} [HasExpressions σ] {action : StateT σ (Except EmitError) α}
  {emitter emitted : σ} {value : α}

theorem Agrees.of_eq {start final : ExpressionEmitter} (hagrees : Agrees scoping start)
    (htables : final.stdlibTables = start.stdlibTables) (hlocals : final.locals = start.locals) :
    Agrees scoping final :=
  ⟨htables.trans hagrees.tables, fun name hname => hlocals ▸ hagrees.slots name hname⟩

theorem Agrees.of_quiet (hagrees : Agrees scoping (expressions emitter)) (hquiet : Quiet action)
    (hrun : action emitter = .ok (value, emitted)) : Agrees scoping (expressions emitted) :=
  have hsame := hquiet _ _ _ hrun
  hagrees.of_eq hsame.1 hsame.2

theorem Agrees.of_declares (hagrees : Agrees scoping (expressions emitter))
    (hdeclares : Declares names action) (hrun : action emitter = .ok (value, emitted)) :
    Agrees (scoping.declare names) (expressions emitted) := by
  obtain ⟨htables, hslots⟩ := hdeclares _ _ _ hrun
  refine ⟨htables.trans hagrees.tables, fun name hname => (hslots name).mpr ?_⟩
  by_cases hmem : name ∈ names
  · exact Or.inr hmem
  · refine Or.inl (hagrees.slots name ?_)
    simpa [Scoping.declare, hmem] using hname

end Actions

variable {source : String}

theorem registerStdlibImport_agrees {specifier : ImportSpecifier}
    {emitter emitted : ExpressionEmitter} {value : Unit} (hagrees : Agrees scoping emitter)
    (hrun : registerStdlibImport source specifier emitter = .ok (value, emitted)) :
    Agrees { scoping with imports := scoping.imports.record source specifier } emitted := by
  obtain ⟨htables, hslots⟩ := hagrees
  unfold registerStdlibImport at hrun
  rw [StdlibTables.record, ← htables]
  cases hbinding : stdlibBindingForImport source specifier with
  | none =>
    rw [hbinding] at hrun
    simp only [pure_eq_ok, Prod.mk.injEq] at hrun
    obtain ⟨-, rfl⟩ := hrun
    exact ⟨rfl, hslots⟩
  | some binding =>
    rw [hbinding] at hrun
    dsimp only at hrun ⊢
    by_cases hnamespace : specifier.isNamespace = true
    · rw [if_pos hnamespace, registerStdlibNamespace, modify_eq_ok, Prod.mk.injEq] at hrun
      obtain ⟨-, rfl⟩ := hrun
      rw [if_pos hnamespace]
      split <;> exact ⟨rfl, hslots⟩
    · rw [if_neg hnamespace, registerStdlibBinding, modify_eq_ok, Prod.mk.injEq] at hrun
      obtain ⟨-, rfl⟩ := hrun
      rw [if_neg hnamespace]
      split <;> exact ⟨rfl, hslots⟩

theorem emitImportSpecifier_agrees {specifier : ImportSpecifier}
    {emitter emitted : ExpressionEmitter} {value : Unit} (hagrees : Agrees scoping emitter)
    (hrun : emitImportSpecifier source specifier emitter = .ok (value, emitted)) :
    Agrees (scoping.importing source specifier) emitted := by
  obtain ⟨_, registered, hregister, hrun⟩ := bind_eq_ok.mp hrun
  obtain ⟨imported, bound, hbinding, hrun⟩ := bind_eq_ok.mp hrun
  have hregistered := registerStdlibImport_agrees hagrees hregister
  have hquiet : Quiet (emitImportedBinding source specifier) := emitRuntimeStringValueCall_quiet
  have hbound := @Agrees.of_quiet _ ExpressionEmitter _ _ _ _ _ _ hregistered hquiet hbinding
  by_cases hname : importedLocalName specifier = ""
  · simp only [ne_eq, hname, not_true_eq_false, if_false, pure_eq_ok, Prod.mk.injEq] at hrun
    rw [Scoping.importing, if_pos hname, ← hrun.2]
    exact hbound
  · rw [if_pos hname] at hrun
    have hdeclared := @Agrees.of_declares _ _ ExpressionEmitter _ _ _ _ _ _ hbound
      declareLocal_declares hrun
    refine ⟨hdeclared.tables, fun name hmeaning => hdeclared.slots name ?_⟩
    rw [Scoping.importing, if_neg hname] at hmeaning
    by_cases heq : name = importedLocalName specifier
    · simp [Scoping.declare, heq]
    · simpa [Scoping.declare, heq, Function.update_of_ne heq] using hmeaning

theorem emitImports_agrees {source : String} : ∀ (specifiers : List ImportSpecifier)
    {scoping : Scoping} {emitter emitted : ExpressionEmitter} {value : Unit},
    Agrees scoping emitter →
    specifiers.forM (emitImportSpecifier source) emitter = .ok (value, emitted) →
    Agrees (imports source specifiers scoping).2 emitted
  | [], _, _, _, _, hagrees, hrun => by
      obtain ⟨-, rfl⟩ := Prod.mk.inj (pure_eq_ok.mp hrun)
      exact hagrees
  | specifier :: rest, _, _, _, _, hagrees, hrun => by
      obtain ⟨_, _, hfirst, hrest⟩ := bind_eq_ok.mp hrun
      exact emitImports_agrees rest (emitImportSpecifier_agrees hagrees hfirst) hrest

theorem imports_meets (source : String) : ∀ (specifiers : List ImportSpecifier)
    (scoping : Scoping), (imports source specifiers scoping).1 = []
  | [], _ => rfl
  | _ :: rest, _ => imports_meets source rest _

variable {emitter emitted : StatementEmitter}

theorem visiting_of {sites : List Site} (hagrees : Agrees scoping emitter.expressions) :
    List.Forall₂ Visit.Of (visiting sites emitter) (meets sites scoping).1 := by
  induction sites with
  | nil => exact .nil
  | cons site rest ih => exact .cons ⟨rfl, hagrees⟩ ih

theorem Follows.meets {sites : List Site} (hagrees : Agrees scoping emitter.expressions)
    (hagain : Agrees scoping emitted.expressions) :
    Follows (visiting sites emitter) (meets sites scoping) emitted :=
  ⟨visiting_of hagrees, hagain⟩

theorem Follows.nothing (hagrees : Agrees scoping emitted.expressions) :
    Follows [] (nothing scoping) emitted :=
  ⟨.nil, hagrees⟩

theorem Follows.andThen {first second : Walk} {visits more : List Visit}
    {middle : StatementEmitter} (hfirst : Follows visits (first scoping) middle)
    (hsecond : ∀ after, Agrees after middle.expressions → Follows more (second after) emitted) :
    Follows (visits ++ more) (first.andThen second scoping) emitted :=
  have hafter := hsecond _ hfirst.agrees
  ⟨List.rel_append hfirst.visits hafter.visits, hafter.agrees⟩

theorem Piece.agrees {α : Type} {declares : Bool} {ready : α → Set Name → Prop}
    {available : Set Name} {shape : Shape} {action : StmtM α} {fragment : Fragment} {value : α}
    (hpiece : Piece declares ready available shape action emitter fragment value emitted)
    (hquiet : Quiet action) (hagrees : Agrees scoping emitter.expressions) :
    Agrees scoping emitted.expressions :=
  hagrees.of_quiet hquiet hpiece.run

theorem Follows.declared {sites more : List Site} (hagrees : Agrees scoping emitter.expressions)
    (hdeclared : Agrees (scoping.declare names) emitted.expressions) :
    Follows (visiting sites emitter ++ visiting more emitted)
      ((Walk.meets sites).andThen ((declares names).andThen (Walk.meets more)) scoping) emitted :=
  ⟨List.rel_append (visiting_of hagrees) (visiting_of hdeclared), hdeclared⟩

theorem emitImportDeclaration_follows {specifiers : List ImportSpecifier} {sideEffect : Bool}
    (hagrees : Agrees scoping emitter.expressions)
    (hrun : expr (emitImportDeclaration source specifiers sideEffect) emitter =
      .ok ((), emitted)) :
    Follows [] ((if sideEffect then Walk.nothing else imports source specifiers) scoping)
      emitted := by
  obtain ⟨expressions, himport, rfl⟩ := expr_eq_ok.mp hrun
  obtain ⟨_, initialized, hinitialize, hbind⟩ := bind_eq_ok.mp himport
  have hquiet : Quiet (emitModuleInitialize source) := emitRuntimeStringVoidCall_quiet
  have hinitialized := @Agrees.of_quiet _ ExpressionEmitter _ _ _ _ _ _ hagrees hquiet hinitialize
  cases sideEffect with
  | true =>
      obtain ⟨-, rfl⟩ := Prod.mk.inj (pure_eq_ok.mp hbind)
      exact .nothing hinitialized
  | false =>
      refine ⟨?_, emitImports_agrees specifiers hinitialized hbind⟩
      rw [if_neg Bool.false_ne_true, imports_meets]
      exact .nil

theorem straight_follows {statement : Statement} (hstraight : isStraight statement = true)
    (hagrees : Agrees scoping emitter.expressions)
    (hrun : emitStatement statement emitter = .ok ((), emitted)) (start : Ending) :
    Follows (straightVisits emitter emitted statement) (statement.walk start scoping) emitted := by
  cases statement with
  | empty =>
      obtain ⟨-, rfl⟩ := Prod.mk.inj (pure_eq_ok.mp hrun)
      exact .nothing hagrees
  | variableDecl =>
      have hrun := withDiagnostic_eq_ok.mp hrun
      exact .declared hagrees (hagrees.of_declares emitVariableDeclaration_declares hrun)
  | functionDecl =>
      have hrun := withDiagnostic_eq_ok.mp hrun
      exact ⟨.nil, hagrees.of_declares (.expr emitFunctionDeclaration_declares) hrun⟩
  | classDecl =>
      have hrun := withDiagnostic_eq_ok.mp hrun
      exact .declared hagrees (hagrees.of_declares (.expr emitClassDeclaration_declares) hrun)
  | importDecl => exact emitImportDeclaration_follows hagrees (withDiagnostic_eq_ok.mp hrun)
  | assignment =>
      have hrun := withDiagnostic_eq_ok.mp hrun
      exact .meets hagrees (hagrees.of_quiet (.expr emitAssignmentStatement_quiet) hrun)
  | expressionStatement =>
      have hrun := withDiagnostic_eq_ok.mp hrun
      obtain ⟨_, _, hvalue, hdone⟩ := bind_eq_ok.mp hrun
      obtain ⟨-, rfl⟩ := Prod.mk.inj (pure_eq_ok.mp hdone)
      exact .meets hagrees (hagrees.of_quiet (.expr (emitExpression_quiet _)) hvalue)
  | _ => cases hstraight

theorem prepare_follows {pos : SourcePos} {pattern : Option BindingPattern} {target : Expression}
    {assignment : ForEachTarget} (hagrees : Agrees scoping emitter.expressions)
    (hrun : prepareForEachTarget pos pattern target emitter = .ok (assignment, emitted)) :
    Follows (visiting (resolvedSites pattern target) emitter)
      (prepareWalk pattern target scoping) emitted := by
  cases pattern with
  | none =>
      have hquiet : Quiet (prepareForEachTarget pos none target) :=
        (Quiet.expr (resolveAssignmentTarget_quiet target)).bind fun _ => .pure
      exact .meets hagrees (hagrees.of_quiet hquiet hrun)
  | some pattern => exact ⟨.nil, hagrees.of_declares prepareForEachTarget_declares hrun⟩

theorem prepareWalk_meaning {pattern : Option BindingPattern} {target : Expression} {name : String}
    (hname : scoping.meaning name ≠ .undeclared) :
    (prepareWalk pattern target scoping).2.meaning name ≠ .undeclared := by
  cases pattern with
  | none => exact hname
  | some pattern =>
      change (if name ∈ patternNames (some pattern) then Meaning.own else scoping.meaning name) ≠ _
      split
      · exact Meaning.noConfusion
      · exact hname

theorem meets_append (sites more : List Site) :
    meets (sites ++ more) = (meets sites).andThen (meets more) := by
  funext scoping
  simp [meets, andThen]

theorem EnsuresReturn.agrees {target : ReturnTarget} {lines : List Line}
    (hensures : EnsuresReturn emitter target lines emitted)
    (hagrees : Agrees scoping emitter.expressions) : Agrees scoping emitted.expressions := by
  cases hensures <;> exact hagrees.of_eq rfl rfl

theorem EnsuresThrowSlot.agrees {slot : LocalSlot} {lines : List Line}
    (hensures : EnsuresThrowSlot emitter slot lines emitted)
    (hagrees : Agrees scoping emitter.expressions) : Agrees scoping emitted.expressions := by
  cases hensures <;> exact hagrees.of_eq rfl rfl

theorem FindsThrowTarget.agrees {target : BlockLabel}
    (hfinds : FindsThrowTarget emitter target emitted)
    (hagrees : Agrees scoping emitter.expressions) : Agrees scoping emitted.expressions := by
  cases hfinds <;> exact hagrees.of_eq rfl rfl

theorem popScope_tables {start final : ExpressionEmitter}
    (hrun : popScope start = .ok ((), final)) : final.stdlibTables = start.stdlibTables := by
  unfold popScope at hrun
  split at hrun
  · cases hrun
  · obtain ⟨-, rfl⟩ := by simpa using hrun
    rfl

theorem leaveLexicalScope_tables (hrun : leaveLexicalScope emitter = .ok ((), emitted)) :
    emitted.expressions.stdlibTables = emitter.expressions.stdlibTables := by
  have hleave : ∀ start final : StatementEmitter, (do
      modify fun emitter : StatementEmitter =>
        { emitter with cleanupScopes := emitter.cleanupScopes.tail }
      expr popScope : StmtM Unit) start = .ok ((), final) →
      final.expressions.stdlibTables = start.expressions.stdlibTables := by
    intro start final hrun
    obtain ⟨_, _, hmodify, hpop⟩ := bind_eq_ok.mp hrun
    simp only [modify_eq_ok, Prod.mk.injEq] at hmodify
    obtain ⟨-, rfl⟩ := hmodify
    obtain ⟨_, hpopped, rfl⟩ := expr_eq_ok.mp hpop
    exact popScope_tables hpopped
  obtain ⟨start, _, hget, hrun⟩ := bind_eq_ok.mp hrun
  obtain ⟨rfl, rfl⟩ := by simpa only [get_eq_ok, Prod.mk.injEq] using hget
  dsimp only at hrun
  split at hrun
  · exact hleave _ _ hrun
  · obtain ⟨_, _, hcleanups, hrun⟩ := bind_eq_ok.mp hrun
    exact (hleave _ _ hrun).trans (emitCleanupList_quiet _ _ _ hcleanups).1

theorem Follows.change {visits : List Visit} {result : List Occurrence × Scoping}
    (hfollows : Follows visits result emitter)
    (htables : emitted.expressions.stdlibTables = emitter.expressions.stdlibTables)
    (hlocals : emitted.expressions.locals = emitter.expressions.locals) :
    Follows visits result emitted :=
  ⟨hfollows.visits, hfollows.agrees.of_eq htables hlocals⟩

end Agreement

variable {lines : List Line}

theorem Emitted.tests_eq {node : Node} {emitter emitted : StatementEmitter}
    (hemitted : Emitted node emitter lines emitted) :
    ∀ {cases : List SwitchCase} {captured : List CapturedSwitchCase},
      node = .cases cases captured → capturedSites captured = testsSites cases := by
  induction hemitted with
  | casesNil =>
      rintro _ _ heq
      cases heq
      rfl
  | casesCons _ _ _ ih =>
      rintro _ _ heq
      cases heq
      rw [capturedSites, List.flatMap_cons, testsSites]
      exact congrArg _ (ih rfl)
  | _ => rintro _ _ heq; cases heq

theorem Emitted.follows {node : Node} {emitter emitted : StatementEmitter}
    (hemitted : Emitted node emitter lines emitted) {scoping : Scoping}
    (hagrees : Agrees scoping emitter.expressions) :
    Follows hemitted.visits (node.walk emitter.ending scoping) emitted := by
  induction hemitted generalizing scoping with
  | straight hstraight hpiece => exact straight_follows hstraight hagrees hpiece.run _
  | exportDecl _ hexports ih =>
      exact (ih hagrees).andThen fun _ hafter =>
        .meets hafter (hafter.of_quiet (.expr emitExports_quiet) hexports.run)
  | block _ ih => exact ih hagrees
  | ifStatement hcondition _ _ ihthen ihelse =>
      have htested := hcondition.agrees (.expr (emitCondition_quiet _)) hagrees
      exact .andThen (.meets hagrees htested) fun _ htested =>
        (ihthen (htested.of_eq rfl rfl)).andThen fun _ hthen =>
          (ihelse (hthen.of_eq rfl rfl)).change rfl rfl
  | loop _ _ hcondition ihbody ihupdate =>
      refine (ihbody (hagrees.of_eq rfl rfl)).andThen fun _ hbody =>
        (ihupdate (hbody.of_eq rfl rfl)).andThen fun _ hupdate => ?_
      have htested := hcondition.agrees (.expr (emitLoopCondition_quiet _))
        (hupdate.of_eq rfl rfl)
      exact .meets (hupdate.of_eq rfl rfl) (htested.of_eq rfl rfl)
  | whileStatement _ ih =>
      have hloop := @ih scoping (hagrees.of_eq rfl rfl)
      exact hloop
  | @doWhileReturns _ _ body start afterFirst _ hfirst hreturns ih =>
      have hending : afterFirst.ending = allEnding start.ending body := hfirst.ending
      have hreturnsHere : (allEnding start.ending body).returnsHere = true := by
        rw [← hending, Ending.returnsHere, Bool.and_eq_true, decide_eq_true_eq]
        exact hreturns
      have hbody := (@ih scoping (hagrees.of_eq rfl rfl)).andThen fun _ hafter => .nothing hafter
      rw [Node.walk, Statement.walk, if_pos hreturnsHere]
      rw [List.append_nil] at hbody
      exact hbody.change rfl rfl
  | @doWhile _ _ body start afterFirst _ _ _ hfirst hreturns _ ihfirst ihloop =>
      have hending : afterFirst.ending = allEnding start.ending body := hfirst.ending
      have hreopens : ¬(allEnding start.ending body).returnsHere = true := by
        rw [← hending, Ending.returnsHere, Bool.and_eq_true, decide_eq_true_eq]
        exact hreturns
      rw [Node.walk, Statement.walk, if_neg hreopens]
      exact (@ihfirst scoping (hagrees.of_eq rfl rfl)).andThen fun _ hafter =>
        ihloop (hafter.of_eq rfl rfl)
  | forStatement _ ih => exact ih hagrees
  | forLoop _ _ ihinit ihloop =>
      exact (ihinit hagrees).andThen fun _ hinit => ihloop (hinit.of_eq rfl rfl)
  | @forEach _ _ _ pattern _ _ _ _ _ _ _ _ _ _ _ _ _ _ _ _ _ _ _ _ _ hsource hprepare hiterator _
      hstep hassign ih =>
      have hsourced := hsource.agrees (.expr (emitExpression_quiet _)) hagrees
      refine .andThen (.meets hagrees hsourced) fun scoping hsourced => ?_
      have hloop := (prepare_follows hsourced hprepare.run).andThen fun _ hprepared =>
        have hiterated := hiterator.agrees (.expr emitRuntimeCall_quiet) hprepared
        ih (hiterated.of_eq rfl rfl)
      have hall := hloop.andThen fun _ hbody =>
        have hstepped := hstep.agrees (.expr emitIteratorStep_quiet) (hbody.of_eq rfl rfl)
        have hassigned := hassign.agrees (.expr emitIteratorAssign_quiet)
          (hstepped.of_eq rfl rfl)
        @Follows.meets _ _ _ (patternSites pattern) hstepped (hassigned.of_eq rfl rfl)
      refine ⟨hall.visits, hall.agrees.tables, fun name hname => hall.agrees.slots name ?_⟩
      exact prepareWalk_meaning hname
  | forInStatement _ ih | forOfStatement _ ih => exact ih hagrees
  | switchStatement hdiscriminant hcases _ _ ihcases ihdefault ihchecks =>
      have htested := hdiscriminant.agrees (.expr (emitExpression_quiet _)) hagrees
      refine .andThen (.meets hagrees htested) fun _ htested =>
        (ihcases (htested.of_eq rfl rfl)).andThen fun _ hafter =>
          (ihdefault (hafter.of_eq rfl rfl)).andThen fun _ hdefault => ?_
      rw [← hcases.tests_eq rfl]
      exact (ihchecks (hdefault.of_eq rfl rfl)).change rfl rfl
  | casesNil => exact .nothing hagrees
  | casesCons _ _ ihbody ihrest =>
      exact (ihbody (hagrees.of_eq rfl rfl)).andThen fun _ hbody => ihrest (hbody.of_eq rfl rfl)
  | checksNil => exact .nothing hagrees
  | checksCons htest _ ihrest =>
      have htested := htest.agrees (.expr emitCaseTest_quiet) (hagrees.of_eq rfl rfl)
      rw [Node.walk, capturedSites, List.flatMap_cons, meets_append]
      exact (Follows.meets hagrees htested).andThen fun _ hafter => ihrest (hafter.of_eq rfl rfl)
  | unlabeled _ ih => exact ih hagrees
  | labeledStatement _ _ _ ih => exact (ih (hagrees.of_eq rfl rfl)).change rfl rfl
  | @labeledBlock _ _ label _ _ inner _ _ _ ih =>
      refine (@ih scoping (hagrees.of_eq rfl rfl)).change ?_ ?_ <;>
        rw [StatementEmitter.afterLabeled] <;> split <;> rfl
  | breakStatement _ hcleanups | continueStatement _ _ hcleanups =>
      exact .nothing ((hcleanups.agrees emitCleanupsUntil_quiet hagrees).of_eq rfl rfl)
  | returnStatement hvalue htarget hcleanups =>
      have hvalued := hvalue.agrees (.expr (emitOptionalValue_quiet _)) hagrees
      have htargeted := htarget.agrees hvalued
      have hcleaned := hcleanups.agrees emitCleanupsUntil_quiet htargeted
      exact .meets hagrees (hcleaned.of_eq rfl rfl)
  | throwStatement hvalue hslot htarget hcleanups =>
      have hvalued := hvalue.agrees (.expr (emitExpression_quiet _)) hagrees
      have hslotted := hslot.agrees hvalued
      have htargeted := htarget.agrees hslotted
      have hcleaned := hcleanups.agrees emitCleanupsUntil_quiet htargeted
      exact .meets hagrees (hcleaned.of_eq rfl rfl)
  | @tryStatement pos _ catchBody finallyBody pattern _ _ slot _ _ _ _ _ _ _ _ _ _ _ hslot _ _ _
      ihtry ihcatch ihfinally =>
      have hcatch : Node.walk .cleared
          (.part (!catchBody.isEmpty) (.scoped (.caught pos slot pattern catchBody))) =
          if catchBody.isEmpty then nothing
          else enclosed ((declares (patternNames pattern)).andThen
            ((meets (patternSites pattern)).andThen (allWalk .cleared catchBody))) := by
        cases catchBody <;> rfl
      have hfinally : Node.walk .cleared
          (.part (!finallyBody.isEmpty) (.scoped (.statements finallyBody))) =
          enclosed (allWalk .cleared finallyBody) := by
        cases finallyBody <;> rfl
      have hslotted := hslot.agrees (hagrees.of_eq rfl rfl)
      rw [Node.walk, Statement.walk, ← hfinally, ← hcatch]
      refine (ihtry (hslotted.of_eq rfl rfl)).andThen fun _ htried => ?_
      have hboth := (ihcatch (htried.of_eq rfl rfl)).andThen fun _ hcaught =>
        ihfinally (hcaught.of_eq rfl rfl)
      refine hboth.change ?_ ?_ <;> dsimp only [StatementEmitter.afterTry] <;> split <;> rfl
  | uncaught _ ih => exact ih hagrees
  | @caught _ _ _ _ start _ bound _ _ _ _ hdeclare hbind _ ih =>
      have hdeclared := hagrees.of_declares (.expr (declareBindingTargets_declares _ _))
        hdeclare.run
      have hbound := hbind.agrees bindCaught_quiet (hdeclared.of_eq rfl rfl)
      have hbody := ih hbound
      rw [show bound.ending = start.ending from hbind.ending.trans hdeclare.ending] at hbody
      exact ⟨List.rel_append (visiting_of hdeclared) hbody.visits, hbody.agrees⟩
  | absent => exact .nothing hagrees
  | present _ ih => exact ih hagrees
  | inScope hnode hleaves ih =>
      have hinner := @ih scoping (hagrees.of_eq rfl rfl)
      have hkeeps : Keeps false _ _ := (Emitted.inScope hnode hleaves).keeps
      refine ⟨hinner.visits, ?_, fun name hname => ?_⟩
      · exact (leaveLexicalScope_tables hleaves.run).trans hinner.agrees.tables
      · rw [hkeeps.1]
        exact hagrees.slots name hname
  | optionalNone => exact .nothing hagrees
  | optionalSome _ ih => exact ih hagrees
  | statementsNil => exact .nothing hagrees
  | statementsCons _ hstatement _ ihstatement ihrest =>
      refine (ihstatement hagrees).andThen fun _ hmiddle => ?_
      have hrest := ihrest hmiddle
      rwa [hstatement.ending] at hrest

/-- The site is lowered to nothing but what its innermost declaration offers, and a declaration of
its root has a slot to go through. -/
structure Visit.Respects (visit : Visit) (occurrence : Occurrence) : Prop where
  site : visit.site = occurrence.site
  offered : ∀ symbol, visit.symbol = some symbol →
    occurrence.meaning.offers occurrence.site = some symbol
  slot : occurrence.meaning ≠ .undeclared →
    (visit.emitter.locals occurrence.site.root).isSome = true

theorem Visit.Of.symbol_eq {visit : Visit} {occurrence : Occurrence}
    (hof : visit.Of occurrence) : visit.symbol = occurrence.standard := by
  calc visit.symbol = visit.site.lookup visit.emitter.stdlibTables :=
        visit.site.symbol_eq_lookup visit.emitter
    _ = occurrence.standard := by rw [hof.site, hof.agrees.tables, Occurrence.standard]

theorem Visit.Of.respects_iff {visit : Visit} {occurrence : Occurrence}
    (hof : visit.Of occurrence) : visit.Respects occurrence ↔ ¬occurrence.Shadowed := by
  constructor
  · rintro hrespects ⟨hstandard, hother⟩
    obtain ⟨symbol, hsymbol⟩ := Option.ne_none_iff_exists'.mp hstandard
    have hoffered := hrespects.offered symbol (hof.symbol_eq.trans hsymbol)
    exact hother (hoffered.trans hsymbol.symm)
  · intro hclear
    refine ⟨hof.site, fun symbol hsymbol => ?_, hof.agrees.slots _⟩
    have hstandard : occurrence.standard = some symbol := hof.symbol_eq.symm.trans hsymbol
    by_contra hother
    exact hclear ⟨by simp [hstandard], fun hsame => hother (hsame.trans hstandard)⟩

theorem forall₂_respects_iff {visits : List Visit} {occurrences : List Occurrence}
    (hof : List.Forall₂ Visit.Of visits occurrences) :
    List.Forall₂ Visit.Respects visits occurrences ↔
      ∀ occurrence ∈ occurrences, ¬occurrence.Shadowed := by
  induction hof with
  | nil => simp
  | cons hfirst _ ih => rw [List.forall₂_cons, hfirst.respects_iff, ih, List.forall_mem_cons]

theorem Emitted.lowering_iff {statements : List Statement} {emitter emitted : StatementEmitter}
    (hemitted : Emitted (.statements statements) emitter lines emitted)
    (htables : emitter.expressions.stdlibTables = .empty) (hending : emitter.ending = .cleared) :
    List.Forall₂ Visit.Respects hemitted.visits (occurrences statements) ↔
      ∀ occurrence ∈ occurrences statements, ¬occurrence.Shadowed := by
  have hagrees : Agrees .outermost emitter.expressions := ⟨htables, fun _ hname => absurd rfl hname⟩
  have hfollows := hemitted.follows hagrees
  rw [hending] at hfollows
  exact forall₂_respects_iff hfollows.visits

/-- `import * as link from "url"; var parts = link.parse("/"); parts.format();` -/
def importedModule : List Statement :=
  [.importDecl ⟨1, 1⟩ "url" [⟨"", "link", false, true⟩] false,
   .variableDecl ⟨1, 29⟩ .var "parts" (some (.name "parts"))
     (some (.invoke ⟨1, 41⟩ (.member ⟨1, 41⟩ (.identifier ⟨1, 41⟩ "link") "parse" false false)
       [.stringLiteral ⟨1, 52⟩ "/"] false)),
   .expressionStatement ⟨1, 58⟩
     (.invoke ⟨1, 58⟩ (.member ⟨1, 58⟩ (.identifier ⟨1, 58⟩ "parts") "format" false false) [] false)]

/-- `{ var url = "/"; url.parse(); }`: the call goes to the module although `url` is a variable. -/
def shadowedModule : List Statement :=
  [.block ⟨1, 1⟩
    [.variableDecl ⟨1, 3⟩ .var "url" (some (.name "url")) (some (.stringLiteral ⟨1, 13⟩ "/")),
     .expressionStatement ⟨1, 18⟩
       (.invoke ⟨1, 18⟩ (.member ⟨1, 18⟩ (.identifier ⟨1, 18⟩ "url") "parse" false false) []
         false)]]

end Jayess.Backend
