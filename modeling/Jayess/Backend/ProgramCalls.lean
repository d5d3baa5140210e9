import Jayess.Backend.CallWalk
import Jayess.Backend.Lowering

/-!
# What a statement list declares

By induction on derivations: the declarations after a statement list are those of its direct calls
and fixed signatures, and every call in its lines is declared.
-/

namespace Jayess.Backend

open StatementEmitter CallWalk
open HasExpressions (expressions)

def loopCallWalk (condition : Option Expression) (update : Option Statement)
    (body : List Statement) : CallWalk :=
  (allCallWalk .cleared body).andThen
    ((optionCallWalk .cleared update).andThen (makes (optionDirectCalls condition)))

def capturedDirectCalls (cases : List CapturedSwitchCase) (tables : StdlibTables) :
    List DirectCall :=
  cases.flatMap fun switchCase => switchCase.test.directCalls tables

def capturedLines (cases : List CapturedSwitchCase) : List Line :=
  cases.flatMap fun switchCase => switchCase.body.lines

def Node.callWalk (start : Ending) : Node → CallWalk
  | .statement single => single.callWalk start
  | .statements list => allCallWalk start list
  | .optional option => optionCallWalk start option
  | .scoped node => node.callWalk start
  | .loop _ condition update body => loopCallWalk condition update body
  | .forLoop init condition update body =>
      (optionCallWalk start init).andThen (loopCallWalk condition update body)
  | .forEach _ _ _ pattern target source body =>
      (makes source.directCalls).andThen ((prepareCalls pattern target).andThen
        ((allCallWalk .cleared body).andThen (makes (patternDirectCalls · pattern))))
  | .cases list _ => casesCallWalk list
  | .checks _ _ captured _ _ => makes (capturedDirectCalls captured)
  | .caught _ _ pattern body =>
      (makes (patternDirectCalls · pattern)).andThen (allCallWalk start body)
  | .part present node => if present then node.callWalk start else nothing

def Node.Fixed : Node → Prop
  | .scoped node | .part _ node => node.Fixed
  | .forEach _ _ iteratorSymbol _ _ _ _ => iteratorSymbol ∈ unarySymbols
  | _ => True

def Node.needs : Node → List Line
  | .scoped node | .part _ node => node.needs
  | .checks _ _ captured _ _ => capturedLines captured
  | _ => []

/-- The lines that the part captures. -/
def Node.captures : Node → List Line
  | .cases _ captured => capturedLines captured
  | _ => []

structure Meets (result : List DirectCall × StdlibTables) (before after : List Declaration)
    (tables : StdlibTables) : Prop where
  tables_eq : tables = result.2
  adds : Adds result.1 before after

namespace Meets

variable {first second : CallWalk} {tables tables' tables'' : StdlibTables}
  {before middle after : List Declaration}

theorem andThen (hfirst : Meets (first tables) before middle tables')
    (hsecond : Meets (second tables') middle after tables'') :
    Meets (first.andThen second tables) before after tables'' := by
  obtain ⟨rfl, hadds⟩ := hfirst
  exact ⟨hsecond.tables_eq, hadds.trans hsecond.adds⟩

theorem nothing (hsigned : Signed before) : Meets (CallWalk.nothing tables) before before tables :=
  ⟨rfl, .refl hsigned⟩

theorem fixed {result : List DirectCall × StdlibTables} (hfirst : Meets result before middle tables)
    (hsecond : Meets ([], tables) middle after tables') : Meets result before after tables' := by
  refine ⟨hsecond.tables_eq.trans hfirst.tables_eq, ?_⟩
  have hboth := hfirst.adds.trans hsecond.adds
  rwa [List.append_nil] at hboth

theorem preceded (hfirst : Meets ([], tables) before middle tables')
    (hsecond : Meets (second tables') middle after tables'') :
    Meets (second tables) before after tables'' := by
  obtain ⟨rfl, hadds⟩ := hfirst
  exact ⟨hsecond.tables_eq, hadds.trans hsecond.adds⟩

end Meets

variable {emitter emitted : StatementEmitter}

structure PieceMeets {α : Type} (post : α → Prop) (calls : List DirectCall) (fragment : Fragment)
    (value : α) (emitter emitted : ExpressionEmitter) : Prop where
  post : post value
  meets : Meets (calls, emitter.stdlibTables) emitter.declarations emitted.declarations
    emitted.stdlibTables
  covers : Covers fragment.lines emitted.declarations

theorem Piece.calls {α : Type} {declares : Bool} {ready : α → Set Name → Prop}
    {available : Set Name} {shape : Shape} {action : StmtM α} {fragment : Fragment} {value : α}
    {post : α → Prop} {calls : List DirectCall}
    (hpiece : Piece declares ready available shape action emitter fragment value emitted)
    (hmakes : Signs emitter.expressions.stdlibTables emitter.expressions.stdlibTables action post
      calls) (hsigned : Signed emitter.expressions.declarations) :
    PieceMeets post calls fragment value emitter.expressions emitted.expressions := by
  obtain ⟨htables, hpost, hgains⟩ := hmakes _ _ _ rfl hsigned hpiece.run
  obtain ⟨lines, hbody, hcovers⟩ := hgains.lines
  have hlines : fragment.lines = lines :=
    List.append_cancel_left (hpiece.straight.emission.body.symm.trans hbody)
  exact ⟨hpost, ⟨htables, hgains.adds⟩, hlines ▸ hcovers⟩

section Lines

variable {declarations : List Declaration} {lines : List Line}

theorem covers_label {label : BlockLabel} (hcovers : Covers lines declarations) :
    Covers (.label label :: lines) declarations := by
  have hlabel : Covers [.label label] declarations :=
    covers_of_none (by simp [Line.declaration?])
  exact covers_append.mpr ⟨hlabel, hcovers⟩

theorem covers_thenBranch {captured : CapturedStatements} {target : BlockLabel}
    (hcovers : Covers captured.lines declarations) :
    Covers (captured.thenBranch target) declarations := by
  unfold CapturedStatements.thenBranch
  split
  · exact hcovers
  · exact covers_append.mpr ⟨hcovers, covers_of_none (by simp [Line.declaration?])⟩

theorem covers_ifLines {condition : Operand} {thenLabel elseLabel endLabel : BlockLabel}
    {consequence alternative : CapturedStatements}
    (hthen : Covers consequence.lines declarations)
    (helse : Covers alternative.lines declarations) :
    Covers (ifLines condition thenLabel elseLabel endLabel consequence alternative)
      declarations := by
  simp only [ifLines, covers_append]
  refine ⟨⟨⟨⟨?_, covers_thenBranch hthen⟩, ?_⟩, covers_thenBranch helse⟩, ?_⟩
  · exact covers_of_none (by simp [Line.declaration?])
  · exact covers_of_none (by simp [Line.declaration?])
  · split <;> exact covers_of_none (by simp [Line.declaration?])

theorem covers_loopLines {labels : LoopLabels} {condition : Operand}
    {body update : CapturedStatements} (hbody : Covers body.lines declarations)
    (hupdate : Covers update.lines declarations) :
    Covers (loopLines labels condition body update) declarations := by
  simp only [loopLines, covers_append]
  refine ⟨⟨⟨?_, covers_thenBranch hbody⟩, ?_⟩, ?_⟩
  · exact covers_of_none (by simp [Line.declaration?])
  · split
    · exact covers_label (covers_thenBranch hupdate)
    · exact covers_nil
  · exact covers_of_none (by simp [Line.declaration?])

theorem covers_caseLines {matched : Operand} {caseLabel nextCheck nextCase : BlockLabel}
    {body : CapturedStatements} (hbody : Covers body.lines declarations) :
    Covers (caseLines matched caseLabel nextCheck nextCase body) declarations :=
  covers_append.mpr ⟨covers_of_none (by simp [Line.declaration?]), covers_thenBranch hbody⟩

theorem covers_defaultLines {labels : SwitchLabels} {body : CapturedStatements}
    (hbody : Covers body.lines declarations) :
    Covers (defaultLines labels body) declarations := by
  simp only [defaultLines, covers_append]
  exact ⟨covers_label (covers_thenBranch hbody), covers_of_none (by simp [Line.declaration?])⟩

theorem covers_tryLines {catchLabel finallyLabel : Option BlockLabel} {endLabel : BlockLabel}
    {tryBody catchBody finallyBody : CapturedStatements}
    (htry : Covers tryBody.lines declarations) (hcatch : Covers catchBody.lines declarations)
    (hfinally : Covers finallyBody.lines declarations) :
    Covers (tryLines catchLabel finallyLabel endLabel tryBody catchBody finallyBody)
      declarations := by
  simp only [tryLines, covers_append]
  refine ⟨⟨covers_thenBranch htry, ?_⟩, ?_⟩
  · cases catchLabel with
    | none => exact covers_nil
    | some label => exact covers_label (covers_thenBranch hcatch)
  · cases finallyLabel with
    | none => exact covers_nil
    | some label => exact covers_label (covers_thenBranch hfinally)

end Lines

theorem run_calls {tables' : StdlibTables} {action : StmtM Unit} {calls : List DirectCall}
    {lines : List Line}
    (hmakes : Signs emitter.expressions.stdlibTables tables' action (fun _ => True) calls)
    (hsigned : Signed emitter.expressions.declarations) (hrun : action emitter = .ok ((), emitted))
    (hbody : emitted.expressions.body = emitter.expressions.body ++ lines) :
    Meets (calls, tables') emitter.expressions.declarations emitted.expressions.declarations
      emitted.expressions.stdlibTables ∧ Covers lines emitted.expressions.declarations := by
  obtain ⟨htables, -, hgains⟩ := hmakes _ _ _ rfl hsigned hrun
  obtain ⟨lines', hbody', hcovers⟩ := hgains.lines
  have hlines : lines = lines' := List.append_cancel_left (hbody.symm.trans hbody')
  exact ⟨⟨htables, hgains.adds⟩, hlines ▸ hcovers⟩

theorem imports_calls (source : String) : ∀ (specifiers : List ImportSpecifier)
    (tables : StdlibTables), (CallWalk.imports source specifiers tables).1 = []
  | [], _ => rfl
  | _ :: rest, _ => imports_calls source rest _

theorem straight_makes {statement : Statement} (hstraight : isStraight statement = true)
    (start : Ending) (tables : StdlibTables) :
    Signs tables (statement.callWalk start tables).2 (emitStatement statement) (fun _ => True)
      (statement.callWalk start tables).1 := by
  cases statement with
  | empty => exact .done trivial
  | variableDecl => exact .withDiagnostic emitVariableDeclaration_makes
  | functionDecl => exact .withDiagnostic (.expr emitFunctionDeclaration_makes)
  | classDecl => exact .withDiagnostic (.expr emitClassDeclaration_makes)
  | importDecl pos source specifiers sideEffect =>
      cases sideEffect with
      | true =>
          exact .withDiagnostic (.expr (emitModuleInitialize_makes.fixed fun _ _ => .done trivial))
      | false =>
          have hsame : Statement.callWalk start (.importDecl pos source specifiers false) =
            CallWalk.imports source specifiers := rfl
          rw [hsame, imports_calls]
          exact .withDiagnostic (.expr emitImportDeclaration_signs)
  | assignment => exact .withDiagnostic (.expr emitAssignmentStatement_makes)
  | expressionStatement pos expression =>
      exact .withDiagnostic (Signs.fixed (.expr (emitExpression_makes _ expression)) fun _ _ =>
        .done trivial)
  | _ => cases hstraight

structure Prepares (emitter : StatementEmitter) (lines : List Line) (emitted : StatementEmitter) :
    Prop where
  meets : Meets ([], emitter.expressions.stdlibTables) emitter.expressions.declarations
    emitted.expressions.declarations emitted.expressions.stdlibTables
  covers : ∀ declarations, Covers lines declarations

theorem EnsuresReturn.calls {target : ReturnTarget} {lines : List Line}
    (hensures : EnsuresReturn emitter target lines emitted)
    (hsigned : Signed emitter.expressions.declarations) : Prepares emitter lines emitted := by
  cases hensures with
  | existing => exact ⟨⟨rfl, .refl hsigned⟩, fun _ => covers_nil⟩
  | fresh => exact ⟨⟨rfl, .refl hsigned⟩, fun _ => covers_of_none (by simp [Line.declaration?])⟩

theorem EnsuresThrowSlot.calls {slot : LocalSlot} {lines : List Line}
    (hensures : EnsuresThrowSlot emitter slot lines emitted)
    (hsigned : Signed emitter.expressions.declarations) : Prepares emitter lines emitted := by
  cases hensures with
  | existing => exact ⟨⟨rfl, .refl hsigned⟩, fun _ => covers_nil⟩
  | fresh => exact ⟨⟨rfl, .refl hsigned⟩, fun _ => covers_of_none (by simp [Line.declaration?])⟩

theorem FindsThrowTarget.calls {target : BlockLabel}
    (hfinds : FindsThrowTarget emitter target emitted)
    (hsigned : Signed emitter.expressions.declarations) :
    Meets ([], emitter.expressions.stdlibTables) emitter.expressions.declarations
      emitted.expressions.declarations emitted.expressions.stdlibTables := by
  cases hfinds <;> exact ⟨rfl, .refl hsigned⟩

theorem popScope_makes {tables : StdlibTables} : Makes tables popScope [] := by
  intro emitter value emitted htables hsigned hrun
  unfold popScope at hrun
  split at hrun
  · cases hrun
  · obtain ⟨-, rfl⟩ := by simpa using hrun
    exact ⟨htables, trivial, .of_eq hsigned rfl rfl⟩

theorem leaveLexicalScope_makes {tables : StdlibTables} : Makes tables leaveLexicalScope [] := by
  refine .get fun emitter _ => ?_
  have hleave : Makes tables (do
      modify fun emitter : StatementEmitter =>
        { emitter with cleanupScopes := emitter.cleanupScopes.tail }
      expr popScope : StmtM Unit) [] :=
    Signs.fixed (.changes (fun _ => rfl) (fun _ => rfl) fun _ => rfl) fun _ _ =>
      .expr popScope_makes
  dsimp only
  split
  · exact hleave
  · exact emitCleanupList_makes.fixed fun _ _ => hleave

/-- What a part of the syntax tree declares: the direct calls of its walk, and whatever is called in
the lines that it appends or captures. -/
structure Calls (node : Node) (emitter : StatementEmitter) (lines : List Line)
    (emitted : StatementEmitter) : Prop where
  meets : Meets (node.callWalk emitter.ending emitter.expressions.stdlibTables)
    emitter.expressions.declarations emitted.expressions.declarations
    emitted.expressions.stdlibTables
  covers : Covers lines emitted.expressions.declarations
  captures : Covers node.captures emitted.expressions.declarations

theorem Emitted.tests_directCalls {node : Node} {lines : List Line}
    (hemitted : Emitted node emitter lines emitted) (tables : StdlibTables) :
    ∀ {cases : List SwitchCase} {captured : List CapturedSwitchCase},
      node = .cases cases captured →
        capturedDirectCalls captured tables = testsDirectCalls tables cases := by
  induction hemitted with
  | casesNil =>
      rintro _ _ heq
      cases heq
      rfl
  | casesCons _ _ _ ih =>
      rintro _ _ heq
      cases heq
      rw [capturedDirectCalls, List.flatMap_cons, testsDirectCalls]
      exact congrArg _ (ih rfl)
  | _ => rintro _ _ heq; cases heq

theorem finished_tables (start : StatementEmitter) (lines more : List Line) (returns : Bool) :
    (((start.append lines).afterTry returns).append more).expressions.stdlibTables =
        start.expressions.stdlibTables ∧
      (((start.append lines).afterTry returns).append more).expressions.declarations =
        start.expressions.declarations := by
  cases returns <;> exact ⟨rfl, rfl⟩

theorem Emitted.calls {node : Node} {lines : List Line}
    (hemitted : Emitted node emitter lines emitted) (hfixed : node.Fixed)
    (hsigned : Signed emitter.expressions.declarations)
    (hneeds : Covers node.needs emitter.expressions.declarations) :
    Calls node emitter lines emitted := by
  induction hemitted with
  | @straight _ start _ _ hstraight hpiece =>
      have hcalls := run_calls (straight_makes hstraight start.ending _) hsigned hpiece.run
        hpiece.straight.emission.body
      exact ⟨hcalls.1, hcalls.2, covers_nil⟩
  | exportDecl _ hexports ih =>
      have hdeclaration := ih trivial hsigned covers_nil
      have hcalls := hexports.calls (.expr emitExports_makes) hdeclaration.meets.adds.signed
      refine ⟨hdeclaration.meets.andThen hcalls.meets, covers_append.mpr ⟨?_, hcalls.covers⟩,
        covers_nil⟩
      exact hdeclaration.covers.mono hcalls.meets.adds.kept
  | block _ ih =>
      have hblock := ih trivial hsigned covers_nil
      exact ⟨hblock.meets, hblock.covers, covers_nil⟩
  | ifStatement hcondition _ _ ihthen ihelse =>
      have htested := hcondition.calls (.expr (emitCondition_makes _)) hsigned
      have hthen := ihthen trivial htested.meets.adds.signed covers_nil
      have helse := ihelse trivial hthen.meets.adds.signed covers_nil
      have hkept := helse.meets.adds.kept
      refine ⟨htested.meets.andThen (hthen.meets.andThen helse.meets), ?_, covers_nil⟩
      refine covers_append.mpr ⟨(htested.covers.mono hthen.meets.adds.kept).mono hkept, ?_⟩
      exact covers_ifLines (hthen.covers.mono hkept) helse.covers
  | loop _ _ hcondition ihbody ihupdate =>
      have hbody := ihbody trivial hsigned covers_nil
      have hupdate := ihupdate trivial hbody.meets.adds.signed covers_nil
      have hcalls := hcondition.calls (.expr (emitLoopCondition_makes _)) hupdate.meets.adds.signed
      have hkept := hcalls.meets.adds.kept
      refine ⟨hbody.meets.andThen (hupdate.meets.andThen hcalls.meets), ?_, covers_nil⟩
      refine covers_append.mpr ⟨covers_append.mpr ⟨covers_of_none (by simp [Line.declaration?]),
        hcalls.covers⟩, covers_loopLines ?_ (hupdate.covers.mono hkept)⟩
      exact (hbody.covers.mono hupdate.meets.adds.kept).mono hkept
  | whileStatement _ ih =>
      have hloop := ih trivial hsigned covers_nil
      exact ⟨hloop.meets, hloop.covers, covers_nil⟩
  | @doWhileReturns _ _ body start afterFirst _ hfirst hreturns ih =>
      have hending : afterFirst.ending = allEnding start.ending body := hfirst.ending
      have hreturnsHere : (allEnding start.ending body).returnsHere = true := by
        rw [← hending, Ending.returnsHere, Bool.and_eq_true, decide_eq_true_eq]
        exact hreturns
      have hbody := ih trivial hsigned covers_nil
      have hmeets := hbody.meets.andThen (.nothing hbody.meets.adds.signed)
      refine ⟨?_, hbody.covers, covers_nil⟩
      rw [Node.callWalk, Statement.callWalk, if_pos hreturnsHere]
      exact hmeets
  | @doWhile _ _ body start afterFirst _ _ _ hfirst hreturns _ ihfirst ihloop =>
      have hending : afterFirst.ending = allEnding start.ending body := hfirst.ending
      have hreopens : ¬(allEnding start.ending body).returnsHere = true := by
        rw [← hending, Ending.returnsHere, Bool.and_eq_true, decide_eq_true_eq]
        exact hreturns
      have hbody := ihfirst trivial hsigned covers_nil
      have hloop := ihloop trivial hbody.meets.adds.signed covers_nil
      refine ⟨?_, covers_append.mpr ⟨?_, hloop.covers⟩, covers_nil⟩
      · rw [Node.callWalk, Statement.callWalk, if_neg hreopens]
        exact hbody.meets.andThen hloop.meets
      · exact hbody.covers.mono hloop.meets.adds.kept
  | forStatement _ ih =>
      have hloop := ih trivial hsigned covers_nil
      exact ⟨hloop.meets, hloop.covers, covers_nil⟩
  | forLoop _ _ ihinit ihloop =>
      have hinit := ihinit trivial hsigned covers_nil
      have hloop := ihloop trivial hinit.meets.adds.signed covers_nil
      refine ⟨hinit.meets.andThen hloop.meets, covers_append.mpr ⟨?_, hloop.covers⟩, covers_nil⟩
      exact hinit.covers.mono hloop.meets.adds.kept
  | @forEach _ _ _ pattern target _ _ _ sourced _ iterated _ _ _ _ _ _ _ _ _ _ _ _ _ _ hsource
      hprepare hiterator _ hstep hassign ih =>
      have hsourced := hsource.calls (.expr (emitExpression_makes _ _)) hsigned
      have hprepared := hprepare.calls prepareForEachTarget_signs hsourced.meets.adds.signed
      have hiterated := hiterator.calls (.expr (emitUnary_makes hfixed))
        hprepared.meets.adds.signed
      have hbody := ih trivial hiterated.meets.adds.signed covers_nil
      have hstepped := hstep.calls (.expr emitIteratorStep_makes) hbody.meets.adds.signed
      have hassigned := hassign.calls (.expr (emitIteratorAssign_makes hprepared.post))
        hstepped.meets.adds.signed
      have hkept := hassigned.meets.adds.kept
      have hkept' := List.Subset.trans hstepped.meets.adds.kept hkept
      have hbodyKept := List.Subset.trans hbody.meets.adds.kept hkept'
      have hhead : Meets (prepareCalls pattern target sourced.expressions.stdlibTables)
          sourced.expressions.declarations iterated.expressions.declarations
          iterated.expressions.stdlibTables := by
        cases pattern <;> exact hprepared.meets.fixed hiterated.meets
      refine ⟨hsourced.meets.andThen (hhead.andThen ((hbody.meets.fixed hstepped.meets).andThen
        hassigned.meets)), ?_, covers_nil⟩
      simp only [covers_append]
      refine ⟨⟨⟨⟨⟨⟨⟨⟨?_, ?_⟩, ?_⟩, ?_⟩, ?_⟩, ?_⟩, hassigned.covers⟩, ?_⟩, ?_⟩
      · exact hsourced.covers.mono (List.Subset.trans hhead.adds.kept hbodyKept)
      · exact (hprepared.covers.mono hiterated.meets.adds.kept).mono hbodyKept
      · exact hiterated.covers.mono hbodyKept
      · exact covers_of_none (by simp [Line.declaration?])
      · exact hstepped.covers.mono hkept
      · exact covers_of_none (by simp [Line.declaration?])
      · exact covers_thenBranch (hbody.covers.mono hkept')
      · exact covers_of_none (by simp [Line.declaration?])
  | forInStatement _ ih | forOfStatement _ ih =>
      have hloop := ih (by simp [Node.Fixed, unarySymbols]) hsigned covers_nil
      exact ⟨hloop.meets, hloop.covers, covers_nil⟩
  | @switchStatement _ _ cases _ captured _ _ _ _ _ _ _ _ _ hdiscriminant hcases _ _ ihcases ihdefault
      ihchecks =>
      have htested := hdiscriminant.calls (.expr (emitExpression_makes _ _)) hsigned
      have hcaptured := ihcases trivial htested.meets.adds.signed covers_nil
      have hdefault := ihdefault trivial hcaptured.meets.adds.signed covers_nil
      have hchecks := ihchecks trivial hdefault.meets.adds.signed
        (hcaptured.captures.mono hdefault.meets.adds.kept)
      have hkept := hchecks.meets.adds.kept
      refine ⟨?_, ?_, covers_nil⟩
      · refine htested.meets.andThen (hcaptured.meets.andThen (hdefault.meets.andThen ?_))
        have htests : makes (testsDirectCalls · cases) = makes (capturedDirectCalls captured) :=
          congrArg makes (funext fun tables => (hcases.tests_directCalls tables rfl).symm)
        rw [htests]
        exact hchecks.meets
      · simp only [covers_append]
        refine ⟨⟨⟨?_, ?_⟩, hchecks.covers⟩, covers_defaultLines (hdefault.covers.mono hkept)⟩
        · exact htested.covers.mono (List.Subset.trans hcaptured.meets.adds.kept
            (List.Subset.trans hdefault.meets.adds.kept hkept))
        · exact covers_of_none (by simp [Line.declaration?])
  | casesNil => exact ⟨.nothing hsigned, covers_nil, covers_nil⟩
  | casesCons _ _ ihbody ihrest =>
      have hbody := ihbody trivial hsigned covers_nil
      have hrest := ihrest trivial hbody.meets.adds.signed covers_nil
      refine ⟨hbody.meets.andThen hrest.meets, covers_nil, ?_⟩
      exact covers_append.mpr ⟨hbody.covers.mono hrest.meets.adds.kept, hrest.captures⟩
  | checksNil => exact ⟨.nothing hsigned, covers_nil, covers_nil⟩
  | @checksCons _ _ _ _ _ switchCase rest _ _ start _ final _ _ htest _ ihrest =>
      obtain ⟨hbody, hrestNeeds⟩ := covers_append.mp hneeds
      have htested := htest.calls (.expr emitCaseTest_makes) hsigned
      have hrest := ihrest trivial htested.meets.adds.signed
        (hrestNeeds.mono htested.meets.adds.kept)
      have hkept := hrest.meets.adds.kept
      have hall := List.Subset.trans htested.meets.adds.kept hkept
      refine ⟨?_, ?_, covers_nil⟩
      · have hboth : Meets ((makes switchCase.test.directCalls).andThen (makes (capturedDirectCalls rest))
            start.expressions.stdlibTables) start.expressions.declarations
            final.expressions.declarations final.expressions.stdlibTables :=
          Meets.andThen htested.meets hrest.meets
        exact hboth
      · simp only [covers_append]
        refine ⟨⟨covers_label (htested.covers.mono hkept), ?_⟩, hrest.covers⟩
        exact covers_caseLines (hbody.mono hall)
  | unlabeled _ ih =>
      have hstatement := ih trivial hsigned covers_nil
      exact ⟨hstatement.meets, hstatement.covers, covers_nil⟩
  | labeledStatement _ _ _ ih =>
      have hstatement := ih trivial hsigned covers_nil
      exact ⟨hstatement.meets, hstatement.covers, covers_nil⟩
  | @labeledBlock _ _ label _ _ inner _ _ _ ih =>
      have hblock := ih trivial hsigned covers_nil
      have hsame : (inner.popExit.popLabel.afterLabeled label).expressions = inner.expressions := by
        rw [StatementEmitter.afterLabeled]
        split <;> rfl
      refine ⟨?_, ?_, covers_nil⟩
      · change Meets _ _ (inner.popExit.popLabel.afterLabeled label).expressions.declarations
          (inner.popExit.popLabel.afterLabeled label).expressions.stdlibTables
        rw [hsame]
        exact hblock.meets
      · change Covers _ (inner.popExit.popLabel.afterLabeled label).expressions.declarations
        rw [hsame]
        refine covers_append.mpr ⟨hblock.covers, ?_⟩
        rw [StatementEmitter.labeledEnd]
        split <;> exact covers_of_none (by simp [Line.declaration?])
  | breakStatement _ hcleanups | continueStatement _ _ hcleanups =>
      have hcleaned := hcleanups.calls emitCleanupsUntil_makes hsigned
      refine ⟨hcleaned.meets, covers_append.mpr ⟨hcleaned.covers, ?_⟩, covers_nil⟩
      exact covers_of_none (by simp [Line.declaration?])
  | returnStatement hvalue htarget hcleanups =>
      have hvalued := hvalue.calls (.expr (emitOptionalValue_makes _)) hsigned
      have htargeted := htarget.calls hvalued.meets.adds.signed
      have hcleaned := hcleanups.calls emitCleanupsUntil_makes htargeted.meets.adds.signed
      refine ⟨(hvalued.meets.fixed htargeted.meets).fixed hcleaned.meets, ?_, covers_nil⟩
      simp only [covers_append]
      refine ⟨⟨⟨?_, htargeted.covers _⟩, hcleaned.covers⟩, ?_⟩
      · exact (hvalued.covers.mono htargeted.meets.adds.kept).mono hcleaned.meets.adds.kept
      · exact covers_of_none (by simp [Line.declaration?])
  | throwStatement hvalue hslot htarget hcleanups =>
      have hvalued := hvalue.calls (.expr (emitExpression_makes _ _)) hsigned
      have hslotted := hslot.calls hvalued.meets.adds.signed
      have htargeted := htarget.calls hslotted.meets.adds.signed
      have hcleaned := hcleanups.calls emitCleanupsUntil_makes htargeted.adds.signed
      refine ⟨((hvalued.meets.fixed hslotted.meets).fixed htargeted).fixed hcleaned.meets, ?_,
        covers_nil⟩
      simp only [covers_append]
      refine ⟨⟨⟨?_, hslotted.covers _⟩, hcleaned.covers⟩, ?_⟩
      · exact ((hvalued.covers.mono hslotted.meets.adds.kept).mono htargeted.adds.kept).mono
          hcleaned.meets.adds.kept
      · exact covers_of_none (by simp [Line.declaration?])
  | @tryStatement pos _ catchBody finallyBody catchPattern _ _ slot _ _ _ _ _ _ _ _ _ _ _ hslot _ _ _
      ihtry ihcatch ihfinally =>
      have hslotted := hslot.calls hsigned
      have htry := ihtry trivial hslotted.meets.adds.signed covers_nil
      have hcatch := ihcatch trivial htry.meets.adds.signed covers_nil
      have hfinally := ihfinally trivial hcatch.meets.adds.signed covers_nil
      have hkept := hfinally.meets.adds.kept
      have hkept' := List.Subset.trans hcatch.meets.adds.kept hkept
      have hcatchWalk : Node.callWalk .cleared
          (.part (!catchBody.isEmpty) (.scoped (.caught pos slot catchPattern catchBody))) =
          if catchBody.isEmpty then nothing
          else (makes (patternDirectCalls · catchPattern)).andThen
            (allCallWalk .cleared catchBody) := by
        cases catchBody <;> rfl
      have hfinallyWalk : Node.callWalk .cleared
          (.part (!finallyBody.isEmpty) (.scoped (.statements finallyBody))) =
          allCallWalk .cleared finallyBody := by
        cases finallyBody <;> rfl
      have hall := Meets.preceded hslotted.meets (htry.meets.andThen
        (hcatch.meets.andThen hfinally.meets))
      refine ⟨?_, ?_, covers_nil⟩
      · rw [(finished_tables _ _ _ _).1, (finished_tables _ _ _ _).2]
        rw [Node.callWalk, Statement.callWalk, ← hcatchWalk, ← hfinallyWalk]
        exact hall
      · rw [(finished_tables _ _ _ _).2]
        refine covers_append.mpr ⟨covers_append.mpr ⟨hslotted.covers _, ?_⟩, ?_⟩
        · exact covers_tryLines (htry.covers.mono hkept') (hcatch.covers.mono hkept)
            hfinally.covers
        · rw [tryEnd]
          split <;> exact covers_of_none (by simp [Line.declaration?])
  | uncaught _ ih =>
      have hbody := ih trivial hsigned covers_nil
      exact ⟨hbody.meets, hbody.covers, covers_nil⟩
  | @caught _ _ _ _ start _ bound _ _ _ _ hdeclare hbind _ ih =>
      have hdeclared := hdeclare.calls (.expr (declareBindingTargets_makes _ _)) hsigned
      have hbound := hbind.calls bindCaught_makes hdeclared.meets.adds.signed
      have hbody := ih trivial hbound.meets.adds.signed covers_nil
      have hending : bound.ending = start.ending := hbind.ending.trans hdeclare.ending
      have hkept := hbody.meets.adds.kept
      have hmeets := hbody.meets
      rw [hending] at hmeets
      refine ⟨Meets.preceded hdeclared.meets (Meets.andThen hbound.meets hmeets), ?_, covers_nil⟩
      simp only [covers_append]
      refine ⟨⟨⟨?_, ?_⟩, hbound.covers.mono hkept⟩, hbody.covers⟩
      · exact (hdeclared.covers.mono hbound.meets.adds.kept).mono hkept
      · exact covers_of_none (by simp [Line.declaration?])
  | absent => exact ⟨.nothing hsigned, covers_nil, covers_nil⟩
  | present _ ih =>
      have hnode := ih hfixed hsigned hneeds
      exact ⟨hnode.meets, hnode.covers, covers_nil⟩
  | inScope _ hleaves ih =>
      have hnode := ih hfixed hsigned hneeds
      have hleft := run_calls leaveLexicalScope_makes hnode.meets.adds.signed hleaves.run
        hleaves.body
      refine ⟨hnode.meets.fixed hleft.1, covers_append.mpr ⟨?_, hleft.2⟩, covers_nil⟩
      exact hnode.covers.mono hleft.1.adds.kept
  | optionalNone => exact ⟨.nothing hsigned, covers_nil, covers_nil⟩
  | optionalSome _ ih =>
      have hstatement := ih trivial hsigned covers_nil
      exact ⟨hstatement.meets, hstatement.covers, covers_nil⟩
  | statementsNil => exact ⟨.nothing hsigned, covers_nil, covers_nil⟩
  | statementsCons _ hstatement _ ihstatement ihrest =>
      have hfirst := ihstatement trivial hsigned covers_nil
      have hrest := ihrest trivial hfirst.meets.adds.signed covers_nil
      have hmeets := hrest.meets
      rw [hstatement.ending] at hmeets
      refine ⟨hfirst.meets.andThen hmeets, covers_append.mpr ⟨?_, hrest.covers⟩, covers_nil⟩
      exact hfirst.covers.mono hrest.meets.adds.kept

end Jayess.Backend
