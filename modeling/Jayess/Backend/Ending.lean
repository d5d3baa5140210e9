import Jayess.Backend.EmitStatementSpec

/-!
# How statements end

The flags of the emitter say whether the end of the code so far is reachable and what ended it.
-/

namespace Jayess.Backend

open StatementEmitter

structure Ending where
  returned : Bool
  termination : StatementTermination
  label : String
deriving DecidableEq, Repr

namespace Ending

/-- The end is reachable and nothing has ended yet. -/
def cleared : Ending := ⟨false, .none, ""⟩

def terminated (termination : StatementTermination) (label : String) : Ending :=
  ⟨true, termination, label⟩

def joined (returns : Bool) (ending : Ending) : Ending :=
  { ending with returned := returns || ending.returned }

def returnsHere (ending : Ending) : Bool := ending.returned && ending.termination = .return

def reopened (ending : Ending) : Ending :=
  { ending with
    returned := false
    termination := if ending.returned then .none else ending.termination }

def afterLabeled (label : String) (ending : Ending) : Ending :=
  if ending.returned && ending.termination = .break && ending.label = label then cleared
  else ending

def afterTry (returns : Bool) (ending : Ending) : Ending :=
  if returns then ⟨true, .return, ending.label⟩ else ending

end Ending

def StatementEmitter.ending (emitter : StatementEmitter) : Ending :=
  ⟨emitter.returned, emitter.termination, emitter.terminationLabel⟩

def Ending.returnsUnless (absent : Bool) (ending : Ending) : Bool :=
  ending.termination = .return || absent

end Jayess.Backend

namespace Jayess

open Backend

mutual

/-- How the code ends after a statement. -/
def Statement.ending (start : Ending) : Statement → Ending
  | .exportDecl _ declaration _ _ _ _ _ _ => optionEnding start declaration
  | .block _ statements => allEnding start statements
  | .ifStatement _ _ consequence alternative =>
      start.joined ((allEnding .cleared consequence).returned &&
        (allEnding .cleared alternative).returned)
  | .doWhileStatement _ body _ =>
      if (allEnding start body).returnsHere then allEnding start body
      else (allEnding start body).reopened
  | .forStatement _ init _ _ _ => optionEnding start init
  | .labeledStatement _ label statement =>
      match statement with
      | .block _ statements =>
          if label = "" then allEnding start statements
          else (allEnding start statements).afterLabeled label
      | statement => Statement.ending start statement
  | .breakStatement _ label => .terminated .break label
  | .continueStatement _ label => .terminated .continue label
  | .returnStatement .. => .terminated .return ""
  | .throwStatement .. => .terminated .throw ""
  | .tryStatement _ tryBody _ catchBody finallyBody =>
      start.afterTry ((allEnding .cleared tryBody).termination = .return &&
        (allEnding .cleared catchBody).returnsUnless catchBody.isEmpty &&
        (allEnding .cleared finallyBody).returnsUnless finallyBody.isEmpty)
  | _ => start

def allEnding (start : Ending) : List Statement → Ending
  | [] => start
  | statement :: rest => allEnding (statement.ending start) rest

def optionEnding (start : Ending) : Option Statement → Ending
  | none => start
  | some statement => statement.ending start

end

end Jayess

namespace Jayess.Backend

open StatementEmitter

def Node.ending (start : Ending) : Node → Ending
  | .statement single => single.ending start
  | .statements list => allEnding start list
  | .optional option => optionEnding start option
  | .scoped node => node.ending start
  | .forLoop init _ _ _ => optionEnding start init
  | .caught _ _ _ body => allEnding start body
  | .part present node => if present then node.ending start else start
  | .loop .. | .forEach .. | .cases .. | .checks .. => start

section Emitted

variable {emitter emitted : StatementEmitter}

theorem Piece.ending {α : Type} {declares : Bool} {ready : α → Set Name → Prop}
    {available : Set Name} {shape : Shape} {action : StmtM α} {fragment : Fragment} {value : α}
    (hpiece : Piece declares ready available shape action emitter fragment value emitted) :
    emitted.ending = emitter.ending := by
  rw [hpiece.straight.state]
  rfl

theorem Leaves.ending {fragment : Fragment} (hleaves : Leaves emitter fragment emitted) :
    emitted.ending = emitter.ending := by
  rw [hleaves.state]
  rfl

theorem EnsuresThrowSlot.ending {slot : LocalSlot} {lines : List Line}
    (hensures : EnsuresThrowSlot emitter slot lines emitted) :
    emitted.ending = emitter.ending := by
  cases hensures <;> rfl

theorem isStraight_ending {statement : Statement} (hstraight : isStraight statement = true)
    (start : Ending) : statement.ending start = start := by
  cases statement <;> simp_all [isStraight, Statement.ending]

end Emitted

theorem Emitted.ending {node : Node} {emitter emitted : StatementEmitter} {lines : List Line}
    (hemitted : Emitted node emitter lines emitted) :
    emitted.ending = node.ending emitter.ending := by
  induction hemitted with
  | straight hstraight hpiece =>
      rw [hpiece.ending, Node.ending, isStraight_ending hstraight]
  | exportDecl _ hexports ih => rw [hexports.ending, ih]; rfl
  | block _ ih => exact ih
  | @ifStatement _ _ consequence alternative _ _ afterThen afterElse _ _ _ _ hcondition _ _ ihthen
      ihelse =>
      have hthen : afterThen.returned = (allEnding .cleared consequence).returned :=
        congrArg Ending.returned ihthen
      have helse : afterElse.returned = (allEnding .cleared alternative).returned :=
        congrArg Ending.returned ihelse
      rw [Node.ending, Statement.ending, ← hcondition.ending, ← hthen, ← helse]
      rfl
  | loop _ _ hcondition _ _ => exact hcondition.ending
  | whileStatement _ ih => exact ih
  | @doWhileReturns _ _ body start afterFirst _ _ hreturns ih =>
      have hfirst : afterFirst.ending = allEnding start.ending body := ih
      rw [Node.ending, Statement.ending, ← hfirst, if_pos]
      · rfl
      · simp [Ending.returnsHere, StatementEmitter.ending, hreturns]
  | @doWhile _ _ body start afterFirst _ _ _ _ hreturns _ ihfirst ihloop =>
      have hfirst : afterFirst.ending = allEnding start.ending body := ihfirst
      rw [Node.ending, Statement.ending, ← hfirst, if_neg]
      · exact ihloop
      · rw [Ending.returnsHere, Bool.and_eq_true, decide_eq_true_eq]
        exact hreturns
  | forStatement _ ih => exact ih
  | forLoop _ _ ihinit ihloop => exact ihloop.trans ihinit
  | forEach hsource hprepare hiterator _ hstep hassign _ => 
      exact hassign.ending.trans (hstep.ending.trans (hiterator.ending.trans
        (hprepare.ending.trans hsource.ending)))
  | forInStatement _ ih | forOfStatement _ ih => exact ih
  | switchStatement hdiscriminant _ _ _ ihcases _ ihchecks =>
      exact ihchecks.trans (ihcases.trans hdiscriminant.ending)
  | casesNil => rfl
  | casesCons _ _ _ ihrest => exact ihrest
  | checksNil => rfl
  | checksCons htest _ ihrest => exact ihrest.trans htest.ending
  | @unlabeled _ statement _ _ _ _ ih =>
      cases statement <;> simpa [Node.ending, Statement.ending] using ih
  | @labeledStatement _ _ statement _ _ _ _ hblock _ ih =>
      cases statement with
      | block => exact absurd rfl (hblock _ _)
      | _ => exact ih
  | @labeledBlock _ _ label statements start inner _ hlabel _ ih =>
      have hblock : inner.ending = allEnding start.ending statements := ih
      rw [Node.ending, Statement.ending, if_neg hlabel, ← hblock]
      by_cases hbreaks : inner.popExit.popLabel.breaksTo label = true
      · have hcleared : inner.ending.afterLabeled label = .cleared := if_pos hbreaks
        rw [hcleared, StatementEmitter.afterLabeled, if_pos hbreaks]
        rfl
      · have hkept : inner.ending.afterLabeled label = inner.ending := if_neg hbreaks
        rw [hkept, StatementEmitter.afterLabeled, if_neg hbreaks]
        rfl
  | breakStatement | continueStatement | returnStatement | throwStatement => rfl
  | @tryStatement _ tryBody catchBody finallyBody _ _ _ _ start _ afterTry afterCatch afterFinally
      _ tryCode catchCode finallyCode hlabels _ hslot _ _ _ ihtry ihcatch ihfinally =>
      subst hlabels
      have htry : afterTry.ending = allEnding .cleared tryBody := ihtry
      have hcatch : afterCatch.ending = allEnding .cleared catchBody := by
        cases catchBody <;> exact ihcatch
      have hfinally : afterFinally.ending = allEnding .cleared finallyBody := by
        cases finallyBody <;> exact ihfinally
      have hreturns :
          tryReturns (start.tryLabels (!catchBody.isEmpty) (!finallyBody.isEmpty)).catchLabel
            (start.tryLabels (!catchBody.isEmpty) (!finallyBody.isEmpty)).finallyLabel
            (afterTry.capture tryCode) (afterCatch.capture catchCode)
            (afterFinally.capture finallyCode) =
          (afterTry.ending.termination = .return &&
            afterCatch.ending.returnsUnless catchBody.isEmpty &&
            afterFinally.ending.returnsUnless finallyBody.isEmpty) := by
        cases catchBody <;> cases finallyBody <;> rfl
      rw [Node.ending, Statement.ending, ← htry, ← hcatch, ← hfinally, hreturns]
      generalize (decide (afterTry.ending.termination = .return) &&
        afterCatch.ending.returnsUnless catchBody.isEmpty &&
        afterFinally.ending.returnsUnless finallyBody.isEmpty) = returns
      cases returns with
      | false => exact hslot.ending
      | true => exact congrArg (Ending.afterTry true) hslot.ending
  | uncaught _ ih => exact ih
  | caught hdeclare hbind _ ih => exact ih.trans (congrArg (allEnding · _) (hbind.ending.trans hdeclare.ending))
  | absent => rfl
  | present _ ih => exact ih
  | inScope _ hleaves ih => exact hleaves.ending.trans ih
  | optionalNone => rfl
  | optionalSome _ ih => exact ih
  | statementsNil => rfl
  | statementsCons _ _ _ ihstatement ihrest => exact ihrest.trans (congrArg (allEnding · _) ihstatement)

end Jayess.Backend
