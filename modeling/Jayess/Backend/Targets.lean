import Jayess.Backend.Definitions
import Jayess.Backend.Ending

/-!
# Where the branches of a function go
-/

namespace Jayess.Backend

open Flow (labels targetsOf Instruction)
open StatementEmitter

/-- Whether a statement around the code may be left or continued at the label, or handles a throw there. -/
@[simp] def StatementEmitter.surrounds (emitter : StatementEmitter) (target : BlockLabel) : Prop :=
  (∃ exit ∈ emitter.exits, exit.breakLabel = target ∨ exit.continueLabel = some target) ∨
    target ∈ emitter.throwHandlers

attribute [simp] StatementEmitter.promises

section Parts

variable {emitter emitted : StatementEmitter} {lines : List Line} {fragment : Fragment}

/-- The branches of a part without statements go to its own labels. -/
structure Stays (emitter : StatementEmitter) (fragment : Fragment) (emitted : StatementEmitter) : Prop where
  targets : ∀ target ∈ targetsOf fragment.lines, target ∈ labels fragment.lines
  exits : emitted.exits = emitter.exits
  throwHandlers : emitted.throwHandlers = emitter.throwHandlers
  returnTarget : emitted.returnTarget = emitter.returnTarget
  throwLabel : emitted.throwLabel = emitter.throwLabel
  throwSlot : emitted.throwSlot = emitter.throwSlot

theorem Piece.stays {α : Type} {declares : Bool} {ready : α → Set Name → Prop} {available : Set Name} {shape : Shape}
    {action : StmtM α} {value : α} (hpiece : Piece declares ready available shape action emitter fragment value emitted) :
    Stays emitter fragment emitted := by
  have htargets := hpiece.straight.emission.numbered.targets_subset
  rw [hpiece.straight.state]
  exact ⟨htargets, rfl, rfl, rfl, rfl, rfl⟩

theorem Leaves.stays (hleaves : Leaves emitter fragment emitted) : Stays emitter fragment emitted := by
  have htargets := hleaves.numbered.targets_subset
  rw [hleaves.state]
  exact ⟨htargets, rfl, rfl, rfl, rfl, rfl⟩

theorem Stays.promises (hstays : Stays emitter fragment emitted) {target : BlockLabel}
    (hpromised : emitter.promises target) : emitted.promises target := by
  simpa [hstays.returnTarget, hstays.throwLabel, hstays.throwSlot] using hpromised

theorem EnsuresReturn.promises {shared : ReturnTarget} (hensures : EnsuresReturn emitter shared lines emitted)
    (target : BlockLabel) :
    (emitter.promises target → emitted.promises target) ∧ emitted.promises shared.label ∧ targetsOf lines = [] := by
  cases hensures with
  | existing htarget => simp [htarget]
  | fresh htarget =>
      simp [htarget, targetsOf, Instruction.targets, Line.targets]
      grind

theorem EnsuresThrowSlot.promises {slot : LocalSlot} (hensures : EnsuresThrowSlot emitter slot lines emitted)
    (target : BlockLabel) : (emitter.promises target → emitted.promises target) ∧ emitted.throwSlot.isSome ∧
      targetsOf lines = [] ∧ emitted.exits = emitter.exits ∧ emitted.throwHandlers = emitter.throwHandlers := by
  cases hensures with
  | existing hslot => simp [hslot]
  | fresh hslot =>
      simp [hslot, targetsOf, Instruction.targets, Line.targets]
      grind

theorem FindsThrowTarget.promises {thrown : BlockLabel} (hfinds : FindsThrowTarget emitter thrown emitted)
    (hslot : emitter.throwSlot.isSome) (target : BlockLabel) :
    (emitter.promises target → emitted.promises target) ∧ (emitter.surrounds thrown ∨ emitted.promises thrown) := by
  cases hfinds with
  | handler hhandlers => simp [hhandlers]
  | existing _ hlabel => simp [hlabel, hslot]
  | fresh _ hlabel =>
      simp [hlabel, hslot]
      grind

end Parts

end Jayess.Backend

namespace Jayess

open Backend

mutual

/-- Whether the end of every do-while and of every labelled block in the statement is reachable. -/
def Statement.closes (start : Ending) : Statement → Bool
  | .exportDecl _ declaration _ _ _ _ _ _ => optionCloses start declaration
  | .block _ statements => allClose start statements
  | .ifStatement _ _ consequence alternative => allClose .cleared consequence && allClose .cleared alternative
  | .whileStatement _ _ body => allClose .cleared body
  | .doWhileStatement _ body _ => !(allEnding start body).returnsHere && allClose start body && allClose .cleared body
  | .forStatement _ init _ update body =>
      optionCloses start init && optionCloses .cleared update && allClose .cleared body
  | .forInStatement _ _ _ _ _ body => allClose .cleared body
  | .forOfStatement _ _ _ _ _ body _ => allClose .cleared body
  | .switchStatement _ _ cases default => casesClose cases && allClose .cleared default
  | .labeledStatement _ label statement =>
      match statement with
      | .block _ statements => (label = "" || !((allEnding start statements).afterLabeled label).returned) &&
          allClose start statements
      | statement => statement.closes start
  | .tryStatement _ tryBody _ catchBody finallyBody =>
      allClose .cleared tryBody && allClose .cleared catchBody && allClose .cleared finallyBody
  | _ => true

def allClose (start : Ending) : List Statement → Bool
  | [] => true
  | statement :: rest => statement.closes start && allClose (statement.ending start) rest

def optionCloses (start : Ending) : Option Statement → Bool
  | none => true
  | some statement => statement.closes start

def casesClose : List SwitchCase → Bool
  | [] => true
  | ⟨_, consequent⟩ :: rest => allClose .cleared consequent && casesClose rest

end

end Jayess

namespace Jayess.Backend

open Flow (labels targetsOf Instruction)
open StatementEmitter

def Node.closes (start : Ending) : Node → Bool
  | .statement single => single.closes start
  | .statements list => allClose start list
  | .optional option => optionCloses start option
  | .scoped node => node.closes start
  | .loop _ _ update body => optionCloses .cleared update && allClose .cleared body
  | .forLoop init _ update body => optionCloses start init && optionCloses .cleared update && allClose .cleared body
  | .forEach _ _ _ _ _ _ body => allClose .cleared body
  | .cases list _ => casesClose list
  | .checks .. => true
  | .caught _ _ _ body => allClose start body
  | .part present node => !present || node.closes start

/-- Where the checks of a switch go beside their own labels. -/
@[simp] def Node.outer (target : BlockLabel) : Node → Prop
  | .checks _ defaultLabel captured _ _ => target = defaultLabel ∨ ∃ switchCase ∈ captured,
      target ∈ targetsOf switchCase.body.lines ∧ target ∉ labels switchCase.body.lines
  | .scoped node | .part _ node => node.outer target
  | _ => False

/-- What a statement needs of its parts. -/
@[simp] def Node.Provides (target : BlockLabel) (lines : List Line) (emitted : StatementEmitter) : Node → Prop
  | .loop loopLabels _ _ _ => target = loopLabels.conditionLabel ∨ target = loopLabels.endLabel → target ∈ labels lines
  | .cases _ captured => ∀ switchCase ∈ captured, target ∈ targetsOf switchCase.body.lines →
      target ∈ labels switchCase.body.lines ∨ emitted.surrounds target ∨ emitted.promises target
  | .checks _ _ _ checkLabels caseLabels => target ∈ checkLabels ∨ target ∈ caseLabels → target ∈ labels lines
  | _ => True

theorem Emitted.stacks {node : Node} {emitter emitted : StatementEmitter} {lines : List Line}
    (hemitted : Emitted node emitter lines emitted) :
    emitted.exits = emitter.exits ∧ emitted.throwHandlers = emitter.throwHandlers :=
  ⟨hemitted.balanced.exits, hemitted.balanced.throwHandlers⟩

theorem Emitted.promises {node : Node} {emitter emitted : StatementEmitter} {lines : List Line}
    (hemitted : Emitted node emitter lines emitted) (target : BlockLabel) (hpromised : emitter.promises target) :
    emitted.promises target := by
  induction hemitted with
  | straight _ hpiece => exact hpiece.stays.promises hpromised
  | exportDecl _ hexports ih => exact hexports.stays.promises (ih hpromised)
  | ifStatement hcondition _ _ ihthen ihelse => exact ihelse (ihthen (hcondition.stays.promises hpromised))
  | loop _ _ hcondition ihbody ihupdate => exact hcondition.stays.promises (ihupdate (ihbody hpromised))
  | doWhile _ _ _ ihfirst ihloop => exact ihloop (ihfirst hpromised)
  | forLoop _ _ ihinit ihloop => exact ihloop (ihinit hpromised)
  | forEach hsource hprepare hiterator _ hstep hassign ihbody =>
      have hstart := hiterator.stays.promises (hprepare.stays.promises (hsource.stays.promises hpromised))
      exact hassign.stays.promises (hstep.stays.promises (ihbody hstart))
  | switchStatement hdiscriminant _ _ _ ihcases ihdefault ihchecks =>
      exact ihchecks (ihdefault (ihcases (hdiscriminant.stays.promises hpromised)))
  | casesCons _ _ ihbody ihrest => exact ihrest (ihbody hpromised)
  | checksCons htest _ ih => exact ih (htest.stays.promises hpromised)
  | labeledBlock _ _ ih =>
      have hblock := ih hpromised
      unfold afterLabeled
      split <;> exact hblock
  | breakStatement _ hcleanups | continueStatement _ _ hcleanups => exact hcleanups.stays.promises hpromised
  | returnStatement hvalue htarget hcleanups =>
      exact hcleanups.stays.promises ((htarget.promises target).1 (hvalue.stays.promises hpromised))
  | throwStatement hvalue hslot htarget hcleanups =>
      obtain ⟨hslotted, hthrown, -⟩ := hslot.promises target
      exact hcleanups.stays.promises ((htarget.promises hthrown target).1 (hslotted (hvalue.stays.promises hpromised)))
  | tryStatement _ _ hslot _ _ _ ihtry ihcatch ihfinally =>
      have hparts := ihfinally (ihcatch (ihtry ((hslot.promises target).1 hpromised)))
      unfold StatementEmitter.afterTry
      split <;> exact hparts
  | caught hdeclare hbind _ ih => exact ih (hbind.stays.promises (hdeclare.stays.promises hpromised))
  | inScope _ hleaves ih => exact hleaves.stays.promises (ih hpromised)
  | statementsCons _ _ _ ihfirst ihrest => exact ihrest (ihfirst hpromised)
  | casesNil | checksNil | optionalNone | statementsNil | absent => exact hpromised
  | whileStatement _ ih | doWhileReturns _ _ ih | labeledStatement _ _ _ ih | unlabeled _ ih | block _ ih
  | forStatement _ ih | forInStatement _ ih | forOfStatement _ ih | uncaught _ ih | optionalSome _ ih | present _ ih =>
      exact ih hpromised

/-- What ended in a return does not go on. -/
def Ending.Right (ending : Ending) : Prop := ending.termination = .return → ending.returned = true

mutual

theorem ending_right {start : Ending} (hstart : start.Right) :
    (statement : Statement) → (statement.ending start).Right
  | .exportDecl _ declaration _ _ _ _ _ _ => optionEnding_right hstart declaration
  | .block _ statements => allEnding_right hstart statements
  | .ifStatement .. => fun hreturn => by simp [Statement.ending, Ending.joined, hstart hreturn]
  | .doWhileStatement _ body _ => by
      have hbody := allEnding_right hstart body
      simp only [Statement.ending]
      split
      · exact hbody
      · grind [Ending.Right, Ending.reopened]
  | .forStatement _ init _ _ _ => optionEnding_right hstart init
  | .labeledStatement _ label statement => by
      have hinner := ending_right hstart statement
      unfold Statement.ending
      split
      · simp only [Statement.ending] at hinner
        grind [Ending.Right, Ending.afterLabeled, Ending.cleared]
      · exact hinner
  | .breakStatement .. | .continueStatement .. | .returnStatement .. | .throwStatement .. => fun _ => rfl
  | .tryStatement .. => by
      simp only [Statement.ending]
      grind [Ending.Right, Ending.afterTry]
  | .empty .. | .debugger .. | .variableDecl .. | .expressionStatement .. | .assignment .. | .functionDecl ..
  | .classDecl .. | .importDecl .. | .whileStatement .. | .forInStatement .. | .forOfStatement .. | .switchStatement .. =>
      hstart

theorem allEnding_right {start : Ending} (hstart : start.Right) :
    (statements : List Statement) → (allEnding start statements).Right
  | [] => hstart
  | statement :: rest => allEnding_right (ending_right hstart statement) rest

theorem optionEnding_right {start : Ending} (hstart : start.Right) :
    (option : Option Statement) → (optionEnding start option).Right
  | none => hstart
  | some statement => ending_right hstart statement

end

theorem Node.ending_right {start : Ending} (hstart : start.Right) : (node : Node) → (node.ending start).Right
  | .statement single => Jayess.Backend.ending_right hstart single
  | .statements list | .caught _ _ _ list => allEnding_right hstart list
  | .optional option | .forLoop option .. => optionEnding_right hstart option
  | .scoped node => node.ending_right hstart
  | .part present node => by
      cases present
      · exact hstart
      · exact node.ending_right hstart
  | .loop .. | .forEach .. | .cases .. | .checks .. => hstart

theorem Emitted.right {node : Node} {emitter emitted : StatementEmitter} {lines : List Line}
    (hemitted : Emitted node emitter lines emitted) (hstart : emitter.ending.Right) : emitted.ending.Right := by
  rw [hemitted.ending]
  exact node.ending_right hstart

/-- The branches of a part go to its own labels, to those of the statements around it or to a shared exit. -/
structure Leads (target : BlockLabel) (node : Node) (emitter : StatementEmitter) (lines : List Line)
    (emitted : StatementEmitter) : Prop where
  targets : target ∈ targetsOf lines →
    target ∈ labels lines ∨ emitter.surrounds target ∨ emitted.promises target ∨ node.outer target
  provides : node.Provides target lines emitted

@[simp] theorem targets_line (line : Line) : Instruction.targets line = line.targets := rfl

@[simp] theorem label?_line (line : Line) : Instruction.label? line = line.label? := rfl

attribute [simp] Line.targets Line.label? Flow.labels_cons capture

section Branches

variable {target label : BlockLabel} {body : CapturedStatements}

@[simp] theorem mem_targetsOf_thenBranch : target ∈ targetsOf (body.thenBranch label) ↔
    target ∈ targetsOf body.lines ∨ body.returns = false ∧ target = label := by
  unfold CapturedStatements.thenBranch
  split <;> simp [*, Instruction.targets, Line.targets]

@[simp] theorem labels_thenBranch : labels (body.thenBranch label) = labels body.lines := by
  unfold CapturedStatements.thenBranch
  split <;> simp [Flow.labels_cons, Instruction.label?, Line.label?]

@[simp] theorem targetsOf_unless {absent : Prop} [Decidable absent] :
    targetsOf (if absent then [] else [Line.label label]) = [] := by
  split <;> rfl

@[simp] theorem mem_labels_unless {absent : Prop} [Decidable absent] :
    target ∈ labels (if absent then [] else [Line.label label]) ↔ ¬absent ∧ target = label := by
  split <;> simp [*, Flow.labels_cons, Instruction.label?, Line.label?]

theorem head_or_mem (first : BlockLabel) (rest : List BlockLabel) :
    rest.head?.getD first = first ∨ rest.head?.getD first ∈ rest := by
  cases rest <;> simp

end Branches

section Try

variable {target endLabel : BlockLabel} {catchLabel finallyLabel : Option BlockLabel} {tried caught finished : StatementEmitter}
  {tryCode catchCode finallyCode : List Line}

/-- The end is left out only if every part returns, and then no part jumps there. -/
theorem targets_tryLines (htry : tried.ending.Right) (hcatch : caught.ending.Right) (hfinally : finished.ending.Right)
    (htarget : target ∈ targetsOf (tryLines catchLabel finallyLabel endLabel (tried.capture tryCode)
      (caught.capture catchCode) (finished.capture finallyCode))) :
    target ∈ labels (tryLines catchLabel finallyLabel endLabel (tried.capture tryCode) (caught.capture catchCode)
        (finished.capture finallyCode) ++ tryEnd (tryReturns catchLabel finallyLabel (tried.capture tryCode)
        (caught.capture catchCode) (finished.capture finallyCode)) endLabel) ∨ target ∈ targetsOf tryCode ∨
      catchLabel.isSome ∧ target ∈ targetsOf catchCode ∨ finallyLabel.isSome ∧ target ∈ targetsOf finallyCode := by
  unfold Ending.Right StatementEmitter.ending at htry hcatch hfinally
  cases catchLabel <;> cases finallyLabel <;> simp [tryLines, tryEnd, tryReturns] at htarget ⊢ <;> grind

theorem labels_tryLines (hlabel : catchLabel.or finallyLabel = some target ∨ target ∈ labels tryCode ∨
      catchLabel.isSome ∧ target ∈ labels catchCode ∨ finallyLabel.isSome ∧ target ∈ labels finallyCode) :
    target ∈ labels (tryLines catchLabel finallyLabel endLabel (tried.capture tryCode) (caught.capture catchCode)
      (finished.capture finallyCode)) := by
  cases catchLabel <;> cases finallyLabel <;> simp [tryLines] at hlabel ⊢ <;> grind

theorem afterTry_promises {emitter : StatementEmitter} {returns : Bool} :
    (emitter.afterTry returns).promises target ↔ emitter.promises target := by
  unfold StatementEmitter.afterTry
  split <;> rfl

end Try

theorem Emitted.leads {node : Node} {emitter emitted : StatementEmitter} {lines : List Line}
    (hemitted : Emitted node emitter lines emitted) (hcloses : node.closes emitter.ending = true) (target : BlockLabel) :
    Leads target node emitter lines emitted := by
  induction hemitted with
  | straight _ hpiece =>
      obtain ⟨htargets, hexits⟩ := hpiece.stays
      exact ⟨fun htarget => .inl (htargets target htarget), trivial⟩
  | exportDecl _ hexports ih =>
      obtain ⟨hexports, hexits⟩ := hexports.stays
      obtain ⟨htargets, -⟩ := ih hcloses
      refine ⟨?_, trivial⟩
      simp [*] at *
      grind -linarith
  | ifStatement hcondition hthen helse ihthen ihelse =>
      obtain ⟨hcondition, hexits⟩ := hcondition.stays
      obtain ⟨htargets, -⟩ := ihthen (Bool.and_eq_true_iff.mp hcloses).1
      obtain ⟨htargets', -⟩ := ihelse (Bool.and_eq_true_iff.mp hcloses).2
      have hpromises := helse.promises target
      refine ⟨?_, trivial⟩
      simp [*, hthen.stacks, ifLines] at *
      grind -linarith
  | loop hbody hupdate hcondition ihbody ihupdate =>
      obtain ⟨hcondition, hexits⟩ := hcondition.stays
      obtain ⟨htargets, -⟩ := ihbody (Bool.and_eq_true_iff.mp hcloses).2
      obtain ⟨htargets', -⟩ := ihupdate (Bool.and_eq_true_iff.mp hcloses).1
      have hpromises := hupdate.promises target
      have hnil := hupdate.lines_eq_nil
      constructor
      · unfold loopLines
        split <;> simp [*, hbody.stacks] at * <;> grind -linarith
      · rintro (rfl | rfl) <;> simp [loopLines]
  | whileStatement _ ih =>
      obtain ⟨htargets, -⟩ := ih hcloses
      exact ⟨htargets, trivial⟩
  | @doWhileReturns _ _ body start afterFirst _ hfirst hreturns _ =>
      have hbody : afterFirst.ending = allEnding start.ending body := hfirst.ending
      rw [Node.closes, Statement.closes, ← hbody] at hcloses
      simp [Ending.returnsHere, StatementEmitter.ending, hreturns] at hcloses
  | doWhile hfirst _ hloop ihfirst ihloop =>
      obtain ⟨hcloses, hbody⟩ := Bool.and_eq_true_iff.mp hcloses
      obtain ⟨htargets, -⟩ := ihfirst (Bool.and_eq_true_iff.mp hcloses).2
      obtain ⟨htargets', hprovides⟩ := ihloop hbody
      have hpromises := hloop.promises target
      refine ⟨?_, trivial⟩
      -- the first body jumps to the labels of the loop behind it
      simp [*, hfirst.stacks, whileLabels] at *
      grind -linarith
  | forLoop hinit hloop ihinit ihloop =>
      obtain ⟨hcloses, hbody⟩ := Bool.and_eq_true_iff.mp hcloses
      obtain ⟨hinit', hupdate⟩ := Bool.and_eq_true_iff.mp hcloses
      obtain ⟨htargets, -⟩ := ihinit hinit'
      obtain ⟨htargets', -⟩ := ihloop (Bool.and_eq_true_iff.mpr ⟨hupdate, hbody⟩)
      have hpromises := hloop.promises target
      refine ⟨?_, trivial⟩
      simp [*, hinit.stacks] at *
      grind -linarith
  | forEach hsource hprepare hiterator hbody hstep hassign ihbody =>
      obtain ⟨hsource, hexits⟩ := hsource.stays
      obtain ⟨hprepare, hexits'⟩ := hprepare.stays
      obtain ⟨hiterator, hexits''⟩ := hiterator.stays
      obtain ⟨hstep, hexits₁⟩ := hstep.stays
      obtain ⟨hassign, hexits₂⟩ := hassign.stays
      obtain ⟨htargets, -⟩ := ihbody hcloses
      refine ⟨?_, trivial⟩
      simp [*, hbody.stacks, whileLabels] at *
      grind -linarith
  | switchStatement hdiscriminant hcases hdefault hchecks ihcases ihdefault ihchecks =>
      obtain ⟨hdiscriminant, hexits⟩ := hdiscriminant.stays
      obtain ⟨-, hprovides⟩ := ihcases (Bool.and_eq_true_iff.mp hcloses).1
      obtain ⟨htargets', -⟩ := ihdefault (Bool.and_eq_true_iff.mp hcloses).2
      obtain ⟨htargets₁, hprovides₁⟩ := ihchecks rfl
      have hpromises := hdefault.promises target
      have hpromises₁ := hchecks.promises target
      have hstacks := hcases.stacks
      have hstacks' := hdefault.stacks
      refine ⟨?_, trivial⟩
      simp [*, defaultLines] at *
      grind -linarith [head_or_mem]
  | casesCons hbody hrest ihbody ihrest =>
      obtain ⟨htargets, -⟩ := ihbody (Bool.and_eq_true_iff.mp hcloses).1
      obtain ⟨-, hprovides⟩ := ihrest (Bool.and_eq_true_iff.mp hcloses).2
      have hpromises := hrest.promises target
      have hstacks := hbody.stacks
      have hstacks' := hrest.stacks
      constructor <;> simp [*] at * <;> grind -linarith
  | checksCons htest hrest ih =>
      obtain ⟨htest, hexits⟩ := htest.stays
      obtain ⟨htargets, hprovides⟩ := ih rfl
      constructor <;> simp [*, caseLines] at * <;> grind -linarith [head_or_mem]
  | @labeledStatement _ _ statement start _ _ _ hblock _ ih =>
      have hinner : statement.closes start.ending = true := by
        cases statement with
        | block => exact absurd rfl (hblock _ _)
        | _ => exact hcloses
      obtain ⟨htargets, -⟩ := ih hinner
      exact ⟨htargets, trivial⟩
  | @labeledBlock _ _ label statements start inner _ hlabel hblock ih =>
      have hbody : inner.ending = allEnding start.ending statements := hblock.ending
      simp only [Node.closes, Statement.closes, Bool.and_eq_true, ← hbody] at hcloses
      obtain ⟨htargets, -⟩ := ih hcloses.2
      have hend : inner.labeledEnd label (start.blockLabel ("label." ++ label ++ ".end") 0) =
          [.label (start.blockLabel ("label." ++ label ++ ".end") 0)] := by
        simp [hlabel, Ending.afterLabeled, StatementEmitter.ending] at hcloses
        simp [labeledEnd, breaksTo]
        grind -linarith
      rw [hend]
      unfold afterLabeled
      refine ⟨?_, trivial⟩
      split <;> simp [*] at * <;> grind -linarith
  | breakStatement hexit hcleanups =>
      obtain ⟨hcleanups, hexits⟩ := hcleanups.stays
      have hmem := List.mem_of_find?_eq_some hexit
      refine ⟨?_, trivial⟩
      simp [*]
      grind -linarith
  | continueStatement hexit htarget hcleanups =>
      obtain ⟨hcleanups, hexits⟩ := hcleanups.stays
      have hmem := List.mem_of_find?_eq_some hexit
      refine ⟨?_, trivial⟩
      simp [*]
      grind -linarith
  | returnStatement hvalue htarget hcleanups =>
      obtain ⟨hvalue, hexits⟩ := hvalue.stays
      obtain ⟨hpromises, hshared, hlines⟩ := htarget.promises target
      obtain ⟨hcleanups, hexits'⟩ := hcleanups.stays
      refine ⟨?_, trivial⟩
      simp [*] at *
      grind -linarith
  | throwStatement hvalue hslot htarget hcleanups =>
      obtain ⟨hvalue, hexits⟩ := hvalue.stays
      obtain ⟨hpromises, hthrown, hlines, hstacks⟩ := hslot.promises target
      obtain ⟨hpromises', htarget'⟩ := htarget.promises hthrown target
      obtain ⟨hcleanups, hexits'⟩ := hcleanups.stays
      refine ⟨?_, trivial⟩
      simp [*] at *
      grind -linarith
  | @tryStatement _ tryBody catchBody finallyBody _ _ throwTarget _ _ slotted afterTry afterCatch afterFinally _ _ _ _ hlabels hthrow
      hslot htry hcatch hfinally ihtry ihcatch ihfinally =>
      obtain ⟨-, -, hlines, hexits, hhandlers⟩ := hslot.promises target
      obtain ⟨hcloses, hfinal⟩ := Bool.and_eq_true_iff.mp hcloses
      obtain ⟨hbody, hcaught⟩ := Bool.and_eq_true_iff.mp hcloses
      obtain ⟨htargets₁, -⟩ := ihtry hbody
      obtain ⟨htargets₂, -⟩ := ihcatch (Bool.or_eq_true_iff.mpr (.inr hcaught))
      obtain ⟨htargets₃, -⟩ := ihfinally (Bool.or_eq_true_iff.mpr (.inr hfinal))
      have hpromises₂ : afterTry.promises target → afterCatch.promises target := hcatch.promises target
      have hpromises₃ : afterCatch.promises target → afterFinally.promises target := hfinally.promises target
      have hstacks := htry.stacks
      have hstacks' := hcatch.stacks
      have hcleared : Ending.Right .cleared := by simp [Ending.Right, Ending.cleared]
      refine ⟨fun htarget => ?_, trivial⟩
      rw [Flow.targetsOf_append, Flow.targetsOf_append, hlines, tryEnd, targetsOf_unless, List.nil_append,
        List.append_nil] at htarget
      have hparts := targets_tryLines (htry.right hcleared) (hcatch.right hcleared) (hfinally.right hcleared) htarget
      change _ ∨ _ ∨ (StatementEmitter.afterTry _ _).promises target ∨ _
      rw [afterTry_promises]
      change _ ∨ _ ∨ afterFinally.promises target ∨ _
      -- each part runs under the stacks of the statement, the body with the handler before them
      simp [*, -StatementEmitter.promises] at htargets₁ htargets₂ htargets₃
      simp only [List.append_assoc, Flow.labels_append, List.mem_append, surrounds] at hparts ⊢
      grind -linarith [labels_tryLines]
  | caught hdeclare hbind _ ih =>
      have hending := hbind.ending.trans hdeclare.ending
      obtain ⟨hdeclare, hexits⟩ := hdeclare.stays
      obtain ⟨hbind, hexits'⟩ := hbind.stays
      obtain ⟨htargets, -⟩ := ih (by rw [hending]; exact hcloses)
      refine ⟨?_, trivial⟩
      simp [*] at *
      grind -linarith
  | inScope _ hleaves ih =>
      obtain ⟨hleaves, hexits⟩ := hleaves.stays
      obtain ⟨htargets, hprovides⟩ := ih hcloses
      refine ⟨?_, trivial⟩
      simp [*] at *
      grind -linarith
  | statementsCons _ hstatement hrest ihfirst ihrest =>
      obtain ⟨hfirst, hrest'⟩ := Bool.and_eq_true_iff.mp hcloses
      obtain ⟨htargets, -⟩ := ihfirst hfirst
      obtain ⟨htargets', -⟩ := ihrest (hstatement.ending ▸ hrest')
      have hpromises := hrest.promises target
      refine ⟨?_, trivial⟩
      simp [*, hstatement.stacks] at *
      grind -linarith
  | casesNil | checksNil | optionalNone | statementsNil => constructor <;> simp [Node.Provides]
  | absent => constructor <;> simp [Node.Provides]
  | @unlabeled _ statement _ _ _ _ ih =>
      obtain ⟨htargets, -⟩ := ih (by cases statement <;> exact hcloses)
      exact ⟨htargets, trivial⟩
  | block _ ih | forStatement _ ih | forInStatement _ ih | forOfStatement _ ih | uncaught _ ih | optionalSome _ ih | present _ ih =>
      obtain ⟨htargets, -⟩ := ih hcloses
      exact ⟨htargets, trivial⟩

/-- Whatever the statements are, the stacks are the same after them, and lines are only appended. -/
theorem emitStatements_balanced {statements : List Statement} {emitter emitted : StatementEmitter} {value : Unit}
    (hrun : emitStatements statements emitter = .ok (value, emitted)) :
    Balanced emitter emitted ∧ emitter.expressions.body <+: emitted.expressions.body := by
  obtain ⟨lines, ⟨hemitted⟩⟩ := emitStatements_derives _ _ _ hrun
  exact ⟨hemitted.balanced, lines, hemitted.body.symm⟩

theorem emitStatements_balanced_returningLoop : ∃ emitted : StatementEmitter,
    Balanced newStatementEmitter emitted ∧ newStatementEmitter.expressions.body <+: emitted.expressions.body := by
  obtain ⟨_, emitted, hrun, -⟩ := exists_ok_of_check (emitStatements returningLoop newStatementEmitter) (fun _ => true)
    (by decide +kernel)
  exact ⟨emitted, emitStatements_balanced hrun⟩

/-- Every branch goes to a label of the function, unless the end of a do-while or of a labelled block is unreachable,
which is left out also where a jump needs it. -/
theorem lowerRuntimeStatementFunction_targetsDefined {name : String} {statements : List Statement} {function : Function}
    {declarations : List Declaration} {globals : List Global} (hcloses : allClose .cleared statements = true)
    (hrun : lowerRuntimeStatementFunction name statements = .ok (function, declarations, globals) ∨
      ∃ plan mapOrder, lowerRuntimeStatementFunctionWithLifetimePlan name statements plan mapOrder =
        .ok (function, declarations, globals)) :
    ∀ target ∈ targetsOf function.body, target ∈ labels function.body := by
  have hlowered : ∃ emitter, emitter.expressions.body = [] ∧ emitter.ending = .cleared ∧ emitter.exits = [] ∧
      emitter.throwHandlers = [] ∧ lowerRuntimeStatementFunctionWithEmitter name statements emitter =
        .ok (function, declarations, globals) := by
    rcases hrun with hrun | ⟨plan, mapOrder, hrun⟩
    · exact ⟨_, rfl, rfl, rfl, rfl, hrun⟩
    · exact ⟨_, rfl, rfl, rfl, rfl, hrun⟩
  obtain ⟨emitter, hbody, hending, hexits, hhandlers, hrun⟩ := hlowered
  obtain ⟨emitted, -, lines, rest, owed, ⟨hemitted⟩, hlines, -, hpromises, rfl, hnone, -⟩ :=
    lowerRuntimeStatementFunctionWithEmitter_emitted hbody hrun
  intro target htarget
  have hleads := hemitted.leads (by rwa [hending]) target
  rw [hlines, Flow.targetsOf_append, hnone, List.append_nil] at htarget
  rw [hlines, Flow.labels_append, List.mem_append]
  rcases hleads.targets htarget with hmem | hsurrounds | hpromised | houter
  · exact .inl hmem
  · simp [hexits, hhandlers] at hsurrounds
  · exact .inr (hpromises target hpromised)
  · exact houter.elim

theorem returningLoop_targetsDefined : ∃ function declarations globals,
    lowerRuntimeStatementFunction "app" returningLoop = .ok (function, declarations, globals) ∧
      ∀ target ∈ targetsOf function.body, target ∈ labels function.body := by
  obtain ⟨function, ⟨declarations, globals⟩, hrun, -⟩ := exists_ok_of_check
    (lowerRuntimeStatementFunction "app" returningLoop) (fun _ => true) (by decide +kernel)
  exact ⟨function, declarations, globals, hrun, lowerRuntimeStatementFunction_targetsDefined (by decide) (.inl hrun)⟩

end Jayess.Backend
