import Jayess.Backend.EmitStatementSpec
import Jayess.Backend.FragmentBlocks

/-!
# The stacks of the statement emitter

A part of the syntax tree leaves the stacks of exits, pending labels and handlers as they were, and
takes block labels with growing numbers.
-/

namespace Jayess.Backend

open StatementEmitter

/-- The stacks are the same again, and labels were only taken. -/
structure Balanced (emitter emitted : StatementEmitter) : Prop where
  exits : emitted.exits = emitter.exits
  pendingLabels : emitted.pendingLabels = emitter.pendingLabels
  throwHandlers : emitted.throwHandlers = emitter.throwHandlers
  block_le : emitter.expressions.blockIndex ≤ emitted.expressions.blockIndex

section Balanced

variable {emitter middle emitted : StatementEmitter}

theorem Balanced.trans (hfirst : Balanced emitter middle) (hsecond : Balanced middle emitted) :
    Balanced emitter emitted where
  exits := hsecond.exits.trans hfirst.exits
  pendingLabels := hsecond.pendingLabels.trans hfirst.pendingLabels
  throwHandlers := hsecond.throwHandlers.trans hfirst.throwHandlers
  block_le := hfirst.block_le.trans hsecond.block_le

theorem Balanced.of_eq (hexits : emitted.exits = emitter.exits)
    (hpending : emitted.pendingLabels = emitter.pendingLabels)
    (hhandlers : emitted.throwHandlers = emitter.throwHandlers)
    (hblock : emitter.expressions.blockIndex ≤ emitted.expressions.blockIndex) :
    Balanced emitter emitted :=
  ⟨hexits, hpending, hhandlers, hblock⟩

theorem Piece.balanced {α : Type} {declares : Bool} {ready : α → Set Name → Prop}
    {available : Set Name} {shape : Shape} {action : StmtM α} {fragment : Fragment} {value : α}
    (hpiece : Piece declares ready available shape action emitter fragment value emitted) :
    Balanced emitter emitted := by
  have hstate := hpiece.straight.state
  have hblock := hpiece.straight.emission.numbered.block_le
  refine .of_eq ?_ ?_ ?_ hblock <;> rw [hstate]

theorem Leaves.balanced {fragment : Fragment} (hleaves : Leaves emitter fragment emitted) :
    Balanced emitter emitted := by
  have hstate := hleaves.state
  have hblock := hleaves.numbered.block_le
  refine .of_eq ?_ ?_ ?_ hblock <;> rw [hstate]

theorem EnsuresReturn.balanced {target : ReturnTarget} {lines : List Line}
    (hensures : EnsuresReturn emitter target lines emitted) : Balanced emitter emitted := by
  cases hensures <;> exact .of_eq rfl rfl rfl (by simp)

theorem EnsuresThrowSlot.balanced {slot : LocalSlot} {lines : List Line}
    (hensures : EnsuresThrowSlot emitter slot lines emitted) : Balanced emitter emitted := by
  cases hensures <;> exact .of_eq rfl rfl rfl (by simp)

theorem FindsThrowTarget.balanced {target : BlockLabel}
    (hfinds : FindsThrowTarget emitter target emitted) : Balanced emitter emitted := by
  cases hfinds <;> exact .of_eq rfl rfl rfl (by simp)

end Balanced

theorem balanced_takeLabels (emitter : StatementEmitter) (count : Nat) :
    Balanced emitter (emitter.takeLabels count) :=
  .of_eq rfl rfl rfl (Nat.le_add_right _ _)

theorem balanced_append (emitter : StatementEmitter) (lines : List Line) :
    Balanced emitter (emitter.append lines) :=
  .of_eq rfl rfl rfl le_rfl

theorem balanced_takeValue (emitter : StatementEmitter) : Balanced emitter emitter.takeValue :=
  .of_eq rfl rfl rfl le_rfl

theorem balanced_afterLabeled (emitter : StatementEmitter) (label : String) :
    Balanced emitter (emitter.afterLabeled label) := by
  unfold afterLabeled
  split <;> exact .of_eq rfl rfl rfl le_rfl

theorem balanced_afterTry (emitter : StatementEmitter) (returns : Bool) :
    Balanced emitter (emitter.afterTry returns) := by
  unfold StatementEmitter.afterTry
  split <;> exact .of_eq rfl rfl rfl le_rfl

theorem Balanced.resumed {emitter captured : StatementEmitter}
    (hbalanced : Balanced emitter.cleared captured) :
    Balanced emitter (emitter.resumed captured) :=
  ⟨hbalanced.exits, hbalanced.pendingLabels, hbalanced.throwHandlers, hbalanced.block_le⟩

theorem Balanced.popExit {kind : StructuredExitKind} {breakLabel : BlockLabel}
    {continueLabel : Option BlockLabel} {emitter inner : StatementEmitter}
    (hbalanced : Balanced (emitter.pushExit kind breakLabel continueLabel) inner) :
    Balanced emitter inner.popExit where
  exits := congrArg List.tail hbalanced.exits
  pendingLabels := hbalanced.pendingLabels
  throwHandlers := hbalanced.throwHandlers
  block_le := hbalanced.block_le

theorem Balanced.popLabel {label : String} {emitter inner : StatementEmitter}
    (hbalanced : Balanced (emitter.pushLabel label) inner) : Balanced emitter inner.popLabel where
  exits := hbalanced.exits
  pendingLabels := by
    rw [popLabel_pendingLabels, hbalanced.pendingLabels, pushLabel_pendingLabels,
      List.dropLast_concat]
  throwHandlers := hbalanced.throwHandlers
  block_le := hbalanced.block_le

theorem Balanced.popHandler {handler : BlockLabel} {emitter inner : StatementEmitter}
    (hbalanced : Balanced (emitter.pushHandler handler) inner) :
    Balanced emitter inner.popHandler where
  exits := hbalanced.exits
  pendingLabels := hbalanced.pendingLabels
  throwHandlers := congrArg List.tail hbalanced.throwHandlers
  block_le := hbalanced.block_le

theorem Emitted.balanced {node : Node} {emitter emitted : StatementEmitter} {lines : List Line}
    (hemitted : Emitted node emitter lines emitted) : Balanced emitter emitted := by
  induction hemitted with
  | straight _ hpiece => exact hpiece.balanced
  | exportDecl _ hexports ih => exact ih.trans hexports.balanced
  | ifStatement hcondition _ _ ihthen ihelse =>
      have hbranches := ihthen.resumed.trans ihelse.resumed
      have htested := hcondition.balanced.trans (balanced_takeLabels _ 3)
      exact (htested.trans hbranches).trans (.of_eq rfl rfl rfl le_rfl)
  | loop _ _ hcondition ihbody ihupdate =>
      have hbody := ihbody.resumed.popExit
      have htested := (balanced_append _ _).trans hcondition.balanced
      exact ((hbody.trans ihupdate.resumed).trans htested).trans (balanced_append _ _)
  | whileStatement _ ih => exact (balanced_takeLabels _ 3).trans ih
  | doWhileReturns _ _ ih => exact (balanced_takeLabels _ 3).trans ih.popExit
  | doWhile _ _ _ ihfirst ihloop =>
      have hfirst := (balanced_takeLabels _ 3).trans ihfirst.popExit
      exact hfirst.trans ⟨ihloop.exits, ihloop.pendingLabels, ihloop.throwHandlers,
        ihloop.block_le⟩
  | forLoop _ _ ihinit ihloop => exact (ihinit.trans (balanced_takeLabels _ 4)).trans ihloop
  | forEach hsource hprepare hiterator _ hstep hassign ihbody =>
      have hhead := (hsource.balanced.trans hprepare.balanced).trans hiterator.balanced
      have hbody := (balanced_takeLabels _ 3).trans ihbody.resumed.popExit
      have hstepped := (hbody.trans (balanced_append _ _)).trans hstep.balanced
      have hassigned := (hstepped.trans (balanced_append _ _)).trans hassign.balanced
      exact (hhead.trans hassigned).trans (balanced_append _ _)
  | switchStatement hdiscriminant _ _ _ ihcases ihdefault ihchecks =>
      have hbodies := (ihcases.trans ihdefault.resumed).popExit
      have hhead := hdiscriminant.balanced.trans ((balanced_takeLabels _ _).trans hbodies)
      have hchecks := (hhead.trans (balanced_append _ _)).trans ihchecks
      exact hchecks.trans (balanced_append _ _)
  | casesCons _ _ ihbody ihrest => exact ihbody.resumed.trans ihrest
  | checksCons htest _ ih =>
      have htested := (balanced_append _ _).trans htest.balanced
      exact (htested.trans (balanced_append _ _)).trans ih
  | labeledStatement _ _ _ ih => exact ih.popLabel
  | labeledBlock _ _ ih =>
      have hblock := (balanced_takeLabels _ 1).trans ih.popExit.popLabel
      exact (hblock.trans (balanced_afterLabeled _ _)).trans (balanced_append _ _)
  | breakStatement _ hcleanups => exact hcleanups.balanced.trans (.of_eq rfl rfl rfl le_rfl)
  | continueStatement _ _ hcleanups => exact hcleanups.balanced.trans (.of_eq rfl rfl rfl le_rfl)
  | returnStatement hvalue htarget hcleanups =>
      have hcleaned := (hvalue.balanced.trans htarget.balanced).trans hcleanups.balanced
      exact hcleaned.trans (.of_eq rfl rfl rfl le_rfl)
  | throwStatement hvalue hslot htarget hcleanups =>
      have htargeted := (hvalue.balanced.trans hslot.balanced).trans htarget.balanced
      exact (htargeted.trans hcleanups.balanced).trans (.of_eq rfl rfl rfl le_rfl)
  | tryStatement _ _ hslot _ _ _ ihtry ihcatch ihfinally =>
      have hslotted := (balanced_takeLabels _ _).trans hslot.balanced
      have htry := hslotted.trans ihtry.resumed.popHandler
      have hbodies := (htry.trans ihcatch.resumed).trans ihfinally.resumed
      exact ((hbodies.trans (balanced_append _ _)).trans (balanced_afterTry _ _)).trans
        (balanced_append _ _)
  | caught hdeclare hbind _ ih =>
      have hbound := (balanced_takeValue _).trans ((balanced_append _ _).trans hbind.balanced)
      exact (hdeclare.balanced.trans hbound).trans ih
  | inScope _ hleaves ih =>
      exact Balanced.trans ⟨ih.exits, ih.pendingLabels, ih.throwHandlers, ih.block_le⟩
        hleaves.balanced
  | statementsCons _ _ _ ihfirst ihrest => exact ihfirst.trans ihrest
  | casesNil | checksNil | optionalNone | statementsNil => exact .of_eq rfl rfl rfl le_rfl
  | absent => exact .of_eq rfl rfl rfl le_rfl
  | block _ ih | forStatement _ ih | forInStatement _ ih | forOfStatement _ ih | unlabeled _ ih
  | uncaught _ ih | optionalSome _ ih | present _ ih => exact ih

end Jayess.Backend
