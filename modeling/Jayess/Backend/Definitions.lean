import Jayess.Backend.Balanced

/-!
# What an emitted function defines

Registers, slots and labels carry the numbers that the emitter hands out. A captured body stands elsewhere than where
it was emitted, so the argument counts: how often the code defines a number, against how often it was handed out.
-/

namespace Jayess.Backend

open Flow (labels targetsOf)
open StatementEmitter

/-- A number of one of the three kinds. -/
inductive Number where
  | value (index : Nat)
  | slot (index : Nat)
  | block (index : Nat)
deriving DecidableEq

def Name.number : Name → Number
  | .value index => .value index
  | .slot index => .slot index

/-- The number that a line defines. -/
def Line.numbers : Line → List Number
  | .alloca slot => [.slot slot.index]
  | .load result _ | .call result .. | .phi result _ => [.value result]
  | .label name => [.block name.index]
  | _ => []

def tally (number : Number) (lines : List Line) : Nat := (lines.flatMap Line.numbers).count number

/-- Whether the number has been handed out. -/
def Counters.taken (counters : Counters) : Number → Nat
  | .value index => if index < counters.value then 1 else 0
  | .slot index => if index < counters.slot then 1 else 0
  | .block index => if index < counters.block then 1 else 0

section Tally

variable {number : Number} {counters final : Counters} {fragment : Fragment}

@[simp] theorem tally_nil : tally number [] = 0 := rfl

@[simp] theorem tally_append (first second : List Line) :
    tally number (first ++ second) = tally number first + tally number second := by
  simp [tally]

theorem tally_cons (line : Line) (rest : List Line) :
    tally number (line :: rest) = line.numbers.count number + tally number rest := by
  simp [tally]

@[simp] theorem tally_br (target : BlockLabel) (rest : List Line) :
    tally number (.br target :: rest) = tally number rest := by
  simp [tally, Line.numbers]

@[simp] theorem tally_brIf (condition : Operand) (onTrue onFalse : BlockLabel) (rest : List Line) :
    tally number (.brIf condition onTrue onFalse :: rest) = tally number rest := by
  simp [tally, Line.numbers]

@[simp] theorem tally_store (value : Operand) (slot : LocalSlot) (rest : List Line) :
    tally number (.store value slot :: rest) = tally number rest := by
  simp [tally, Line.numbers]

@[simp] theorem tally_label (label : BlockLabel) (rest : List Line) :
    tally number (.label label :: rest) = [Number.block label.index].count number + tally number rest :=
  tally_cons ..

@[simp] theorem tally_thenBranch (body : CapturedStatements) (target : BlockLabel) :
    tally number (body.thenBranch target) = tally number body.lines := by
  unfold CapturedStatements.thenBranch
  split <;> simp

theorem Line.numbers_eq (line : Line) :
    line.numbers = line.defs.map Name.number ++ (line.label?.toList.map (.block ·.index)) := by
  cases line <;> rfl

theorem Line.numbers_of_isPlain {line : Line} (hplain : line.isPlain) : line.numbers = line.defs.map Name.number := by
  rw [Line.numbers_eq, show line.label? = none from Line.label?_of_isPlain hplain]
  simp

theorem Numbered.tally_le (hnumbered : Numbered counters fragment final) (number : Number) :
    tally number fragment.lines + counters.taken number ≤ final.taken number := by
  induction hnumbered with
  | nil => simp [Fragment.lines]
  | act hplain hdefs => simp [Fragment.lines, tally, Line.numbers_of_isPlain hplain, hdefs]
  | define hplain hdefs =>
      cases number <;> simp [Fragment.lines, tally, Line.numbers_of_isPlain hplain, hdefs, Name.number, Counters.taken]
      grind
  | alloca =>
      cases number <;> simp [Fragment.lines, tally, Line.numbers, Counters.taken]
      grind
  | seq _ _ ihfirst ihsecond =>
      rw [Fragment.lines, tally_append]
      omega
  | branch _ _ htrueLabel hfalseLabel hendLabel hresult ihtrue ihfalse =>
      simp only [Fragment.lines, tally_append, tally_cons, Line.numbers, htrueLabel, hfalseLabel, hendLabel, hresult,
        tally_nil]
      cases number <;> simp only [Counters.taken, List.count_singleton, List.count_nil, beq_iff_eq,
        Number.value.injEq, Number.block.injEq, reduceCtorEq, if_false] at *
      · grind
      · grind
      · grind

end Tally

/-! ## Numbers that are handed out -/

/-- The labels of the shared exits, which are defined at the end of the function. -/
def StatementEmitter.promised (emitter : StatementEmitter) : List Number :=
  (emitter.returnTarget.map (·.label)).toList.map (.block ·.index) ++ emitter.throwLabel.toList.map (.block ·.index)

/-- Whether the end of the function will define the label. -/
def StatementEmitter.promises (emitter : StatementEmitter) (target : BlockLabel) : Prop :=
  emitter.returnTarget.map (·.label) = some target ∨ emitter.throwLabel = some target ∧ emitter.throwSlot.isSome

/-- Whether the number was handed out to code, and not kept for a shared exit. -/
def StatementEmitter.handed (emitter : StatementEmitter) (number : Number) : Int :=
  emitter.expressions.counters.taken number - emitter.promised.count number

/-- The numbers of the next labels. -/
def StatementEmitter.blocks (emitter : StatementEmitter) (count : Nat) : List Number :=
  (List.range count).map fun offset => .block (emitter.expressions.blockIndex + offset)

section Handed

variable {number : Number} {emitter emitted captured : StatementEmitter} {lines : List Line} {fragment : Fragment}

@[simp] theorem handed_append : (emitter.append lines).handed number = emitter.handed number := rfl

@[simp] theorem handed_cleared : emitter.cleared.handed number = emitter.handed number := rfl

@[simp] theorem handed_resumed : (emitter.resumed captured).handed number = captured.handed number := rfl

@[simp] theorem handed_pushExit {kind : StructuredExitKind} {breakLabel : BlockLabel} {continueLabel : Option BlockLabel} :
    (emitter.pushExit kind breakLabel continueLabel).handed number = emitter.handed number := rfl

@[simp] theorem handed_popExit : emitter.popExit.handed number = emitter.handed number := rfl

@[simp] theorem handed_pushLabel {label : String} : (emitter.pushLabel label).handed number = emitter.handed number := rfl

@[simp] theorem handed_popLabel : emitter.popLabel.handed number = emitter.handed number := rfl

@[simp] theorem handed_pushHandler {handler : BlockLabel} :
    (emitter.pushHandler handler).handed number = emitter.handed number := rfl

@[simp] theorem handed_popHandler : emitter.popHandler.handed number = emitter.handed number := rfl

@[simp] theorem handed_entered : emitter.entered.handed number = emitter.handed number := rfl

@[simp] theorem handed_terminated {termination : StatementTermination} {label : String} :
    (emitter.terminated termination label).handed number = emitter.handed number := rfl

@[simp] theorem handed_joined {returns : Bool} : (emitter.joined returns).handed number = emitter.handed number := rfl

@[simp] theorem handed_reopened : emitter.reopened.handed number = emitter.handed number := rfl

@[simp] theorem handed_afterLabeled {label : String} :
    (emitter.afterLabeled label).handed number = emitter.handed number := by
  unfold afterLabeled
  split <;> rfl

@[simp] theorem handed_afterTry {returns : Bool} :
    (emitter.afterTry returns).handed number = emitter.handed number := by
  unfold StatementEmitter.afterTry
  split <;> rfl

theorem handed_takeValue :
    emitter.handed number + [Number.value emitter.expressions.valueIndex].count number ≤ emitter.takeValue.handed number := by
  cases number <;> simp only [handed, promised, takeValue, ExpressionEmitter.counters, Counters.taken, List.count_singleton,
    beq_iff_eq, Number.value.injEq, reduceCtorEq, if_false] <;> grind

theorem handed_takeLabels (emitter : StatementEmitter) (number : Number) (count : Nat) :
    emitter.handed number + (emitter.blocks count).count number ≤ (emitter.takeLabels count).handed number := by
  have hcount : (emitter.blocks count).count number +
      emitter.expressions.counters.taken number ≤ (emitter.takeLabels count).expressions.counters.taken number := by
    have hnodup : (emitter.blocks count).Nodup := by
      refine List.nodup_range.map fun first second heq => ?_
      simpa using heq
    have hle := List.nodup_iff_count_le_one.mp hnodup number
    by_cases hmem : number ∈ emitter.blocks count
    · obtain ⟨offset, hoffset, rfl⟩ := List.mem_map.mp hmem
      rw [List.mem_range] at hoffset
      simp only [takeLabels, ExpressionEmitter.counters, Counters.taken]
      grind
    · rw [List.count_eq_zero_of_not_mem hmem]
      cases number <;> simp only [takeLabels, ExpressionEmitter.counters, Counters.taken] <;> grind
  have hpromised : (emitter.takeLabels count).promised = emitter.promised := rfl
  rw [handed, handed, hpromised]
  omega

theorem handed_of_numbered (hnumbered : Numbered emitter.expressions.counters fragment emitted.expressions.counters)
    (hpromised : emitted.promised = emitter.promised) :
    emitter.handed number + tally number fragment.lines ≤ emitted.handed number := by
  have htally := hnumbered.tally_le number
  rw [handed, handed, hpromised]
  omega

theorem Piece.handed {α : Type} {declares : Bool} {ready : α → Set Name → Prop} {available : Set Name} {shape : Shape}
    {action : StmtM α} {value : α}
    (hpiece : Piece declares ready available shape action emitter fragment value emitted) (number : Number) :
    emitter.handed number + tally number fragment.lines ≤ emitted.handed number :=
  handed_of_numbered hpiece.straight.emission.numbered (by rw [hpiece.straight.state]; rfl)

theorem Leaves.handed (hleaves : Leaves emitter fragment emitted) (number : Number) :
    emitter.handed number + tally number fragment.lines ≤ emitted.handed number :=
  handed_of_numbered hleaves.numbered (by rw [hleaves.state]; rfl)

theorem EnsuresReturn.handed {target : ReturnTarget} (hensures : EnsuresReturn emitter target lines emitted)
    (number : Number) : emitter.handed number + tally number lines ≤ emitted.handed number := by
  cases hensures with
  | existing => simp
  | fresh htarget =>
      cases number <;> simp [StatementEmitter.handed, promised, htarget, ExpressionEmitter.counters, Counters.taken,
        tally, Line.numbers, blockLabel, List.count_cons] <;> grind

theorem EnsuresThrowSlot.handed {slot : LocalSlot} (hensures : EnsuresThrowSlot emitter slot lines emitted)
    (number : Number) : emitter.handed number + tally number lines ≤ emitted.handed number := by
  cases hensures with
  | existing => simp
  | fresh =>
      cases number <;> simp [StatementEmitter.handed, promised, ExpressionEmitter.counters, Counters.taken, tally,
        Line.numbers] <;> grind

theorem FindsThrowTarget.handed {target : BlockLabel} (hfinds : FindsThrowTarget emitter target emitted)
    (number : Number) : emitter.handed number ≤ emitted.handed number := by
  cases hfinds with
  | handler | existing => exact le_rfl
  | fresh _ hlabel =>
      cases number <;> simp [StatementEmitter.handed, promised, hlabel, ExpressionEmitter.counters, Counters.taken,
        blockLabel] <;> grind

end Handed

/-- Captured code that a part of the syntax tree does not place itself. -/
def Node.kept : Node → List Line
  | .cases _ captured => captured.flatMap (·.body.lines)
  | .scoped node => node.kept
  | .part present node => if present then node.kept else []
  | _ => []

/-- What a part of the syntax tree places that was made before it: labels and captured code. -/
def Node.placed : Node → List Line
  | .loop labels _ update _ =>
      [.label labels.conditionLabel, .label labels.bodyLabel, .label labels.endLabel] ++
        if update.isSome ∨ labels.continueLabel ≠ labels.conditionLabel then [.label labels.continueLabel] else []
  | .checks _ _ captured checkLabels caseLabels =>
      captured.flatMap (·.body.lines) ++ (checkLabels ++ caseLabels).map .label
  | .scoped node | .part _ node => node.placed
  | _ => []

theorem count_blocks (emitter : StatementEmitter) (number : Number) (count : Nat) :
    (emitter.blocks (count + 1)).count number = (emitter.blocks count).count number +
      [Number.block (emitter.expressions.blockIndex + count)].count number := by
  simp [blocks, List.range_succ]

theorem tally_ifLines_le (number : Number) (condition : Operand) (emitter : StatementEmitter)
    (consequence alternative : CapturedStatements) :
    tally number (ifLines condition emitter.ifLabels.1 emitter.ifLabels.2.1 emitter.ifLabels.2.2 consequence
        alternative) ≤
      (emitter.blocks 3).count number + tally number consequence.lines + tally number alternative.lines := by
  unfold ifLines
  split <;> simp [count_blocks, ifLabels, blockLabel] <;> omega

theorem tally_loopLines_le (number : Number) (labels : LoopLabels) (condition : Option Expression)
    {update : Option Statement} (rest : List Statement) (value : Operand) (body updated : CapturedStatements)
    (hupdate : update = none → updated.lines = []) :
    tally number (loopLines labels value body updated) + [Number.block labels.conditionLabel.index].count number ≤
      tally number body.lines + tally number updated.lines +
        tally number (Node.loop labels condition update rest).placed := by
  unfold loopLines
  simp only [Node.placed]
  by_cases hlines : updated.lines ≠ [] ∨ labels.continueLabel ≠ labels.conditionLabel
  · have hplaced : update.isSome ∨ labels.continueLabel ≠ labels.conditionLabel :=
      hlines.imp_left fun hne => Option.isSome_iff_ne_none.mpr (mt hupdate hne)
    rw [if_pos hlines, if_pos hplaced]
    simp
    omega
  · rw [if_neg hlines]
    simp
    omega

theorem Emitted.lines_eq_nil {update : Option Statement} {emitter emitted : StatementEmitter} {lines : List Line}
    (hupdate : Emitted (.optional update) emitter lines emitted) (hnone : update = none) : lines = [] := by
  subst hnone
  cases hupdate
  rfl

theorem tally_map_label (number : Number) (labels : List BlockLabel) :
    tally number (labels.map .label) = (labels.map fun label => Number.block label.index).count number := by
  induction labels with
  | nil => rfl
  | cons label rest ih =>
      rw [List.map_cons, tally_label, ih, List.map_cons, ← List.count_append, List.singleton_append]

theorem count_switchLabels (emitter : StatementEmitter) (number : Number) (count : Nat) :
    tally number ([.label (emitter.switchLabels count).endLabel, .label (emitter.switchLabels count).defaultLabel] ++
      ((emitter.switchLabels count).checkLabels ++ (emitter.switchLabels count).caseLabels).map .label) =
      (emitter.blocks (2 + 2 * count)).count number := by
  rw [tally_append, tally_map_label]
  simp [StatementEmitter.switchLabels, StatementEmitter.blockLabels, blockLabel, blocks, two_mul, List.range_add,
    List.count_cons, List.range_succ, Function.comp_def, Nat.add_assoc]
  omega

theorem tally_tryLines_le (number : Number) (emitter : StatementEmitter) (hasCatch hasFinally : Bool)
    (tryBody catchBody finallyBody : CapturedStatements) {labels : TryLabels}
    (hlabels : emitter.tryLabels hasCatch hasFinally = labels) :
    tally number (tryLines labels.catchLabel labels.finallyLabel labels.endLabel tryBody catchBody finallyBody ++
        tryEnd (tryReturns labels.catchLabel labels.finallyLabel tryBody catchBody finallyBody) labels.endLabel) ≤
      (emitter.blocks (hasCatch.toNat + hasFinally.toNat + 1)).count number + tally number tryBody.lines +
        tally number catchBody.lines + tally number finallyBody.lines := by
  subst hlabels
  generalize tryReturns _ _ tryBody catchBody finallyBody = returns
  cases hasCatch <;> cases hasFinally <;> cases returns <;>
    simp [tryLabels, tryLines, tryEnd, count_blocks, blockLabel] <;> omega

theorem Emitted.handed {node : Node} {emitter emitted : StatementEmitter} {lines : List Line}
    (hemitted : Emitted node emitter lines emitted) (number : Number) :
    emitter.handed number + tally number (lines ++ node.kept) ≤ emitted.handed number + tally number node.placed := by
  induction hemitted with
  | straight _ hpiece =>
      have hhanded := hpiece.handed number
      simpa [Node.kept, Node.placed] using hhanded
  | exportDecl _ hexports ih =>
      have hhanded := hexports.handed number
      simp [Node.kept, Node.placed] at ih ⊢
      omega
  | @ifStatement _ _ _ _ _ tested afterThen afterElse _ value thenLines elseLines hcondition _ _ ihthen ihelse =>
      have htested := hcondition.handed number
      have hlabels := handed_takeLabels tested number 3
      have hlines := tally_ifLines_le number value tested (afterThen.capture thenLines) (afterElse.capture elseLines)
      simp [Node.kept, Node.placed, capture] at ihthen ihelse hlines ⊢
      omega
  | @loop labels condition _ body _ afterBody afterUpdate _ bodyLines updateLines _ value _ hupdate hcondition ihbody
      ihupdate =>
      have htested := hcondition.handed number
      have hlines := tally_loopLines_le number labels condition body value (afterBody.capture bodyLines)
        (afterUpdate.capture updateLines) hupdate.lines_eq_nil
      simp [Node.kept, capture] at htested ihbody ihupdate hlines ⊢
      simp [Node.placed] at ihbody ihupdate hlines ⊢
      omega
  | @whileStatement _ _ _ emitter _ _ _ ih =>
      have hlabels := handed_takeLabels emitter number 3
      simp [Node.kept, Node.placed, whileLabels, count_blocks, blockLabel] at ih hlabels ⊢
      omega
  | @doWhileReturns _ _ _ emitter _ _ _ _ ih =>
      have hlabels := handed_takeLabels emitter number 3
      simp [Node.kept, Node.placed] at ih ⊢
      omega
  | @doWhile _ _ _ emitter _ _ _ _ _ _ _ ihfirst ihloop =>
      have hlabels := handed_takeLabels emitter number 3
      simp [Node.kept, Node.placed, whileLabels, count_blocks, blockLabel] at ihfirst ihloop hlabels ⊢
      omega
  | @forLoop _ _ _ _ _ afterInit _ _ _ _ _ ihinit ihloop =>
      have hlabels := handed_takeLabels afterInit number 4
      simp [Node.kept, Node.placed, forLabels, count_blocks, blockLabel] at ihinit ihloop hlabels ⊢
      omega
  | @forEach _ _ _ _ _ _ _ _ _ _ iterated _ _ _ _ _ _ _ _ _ _ _ _ _ _ hsource hprepare hiterator _ hstep hassign
      ihbody =>
      have hhead := And.intro (hsource.handed number) (And.intro (hprepare.handed number) (hiterator.handed number))
      have hlabels := handed_takeLabels iterated number 3
      have hbody := And.intro (hstep.handed number) (hassign.handed number)
      simp [Node.kept, Node.placed, whileLabels, count_blocks, blockLabel, capture] at ihbody hlabels hbody ⊢
      omega
  | @switchStatement _ _ cases _ captured _ tested _ _ _ _ _ _ _ hdiscriminant _ _ hchecks ihcases ihdefault
      ihchecks =>
      have htested := hdiscriminant.handed number
      have hlabels := handed_takeLabels tested number (2 + 2 * cases.length)
      have hcount := count_switchLabels tested number cases.length
      simp [Node.kept, Node.placed, defaultLines, capture] at ihcases ihdefault ihchecks hcount ⊢
      omega
  | casesCons _ _ ihbody ihrest =>
      simp [Node.kept, Node.placed, capture] at ihbody ihrest ⊢
      omega
  | checksCons htest _ ih =>
      have htested := htest.handed number
      simp [Node.kept, Node.placed, caseLines] at htested ih ⊢
      omega
  | labeledStatement _ _ _ ih => simpa [Node.kept, Node.placed] using ih
  | @labeledBlock _ _ label _ emitter emitted _ _ _ ih =>
      have hlabels := handed_takeLabels emitter number 1
      have hend : tally number (emitted.labeledEnd label (emitter.blockLabel ("label." ++ label ++ ".end") 0)) ≤
          (emitter.blocks 1).count number := by
        unfold labeledEnd
        split <;> simp [count_blocks, blockLabel]
      simp [Node.kept, Node.placed] at ih ⊢
      omega
  | breakStatement _ hcleanups =>
      have hhanded := hcleanups.handed number
      simpa [Node.kept, Node.placed] using hhanded
  | continueStatement _ _ hcleanups =>
      have hhanded := hcleanups.handed number
      simpa [Node.kept, Node.placed] using hhanded
  | returnStatement hvalue htarget hcleanups =>
      have hhanded := And.intro (hvalue.handed number) (And.intro (htarget.handed number) (hcleanups.handed number))
      simp [Node.kept, Node.placed, tally_cons, Line.numbers] at hhanded ⊢
      omega
  | throwStatement hvalue hslot htarget hcleanups =>
      have hhanded := And.intro (hvalue.handed number) (hslot.handed number)
      have htargeted := And.intro (htarget.handed number) (hcleanups.handed number)
      simp [Node.kept, Node.placed] at hhanded ⊢
      omega
  | @tryStatement _ _ catchBody finallyBody _ labels _ _ emitter _ afterTry afterCatch afterFinally _ tryCode catchCode
      finallyCode hlabels _ hslot _ _ _ ihtry ihcatch ihfinally =>
      have htaken := handed_takeLabels emitter number ((!catchBody.isEmpty).toNat + (!finallyBody.isEmpty).toNat + 1)
      have hslotted := hslot.handed number
      have hlines := tally_tryLines_le number emitter (!catchBody.isEmpty) (!finallyBody.isEmpty)
        (afterTry.capture tryCode) (afterCatch.capture catchCode) (afterFinally.capture finallyCode) hlabels
      simp [Node.kept, Node.placed, capture] at hslotted ihtry ihcatch ihfinally hlines ⊢
      omega
  | @caught _ _ _ _ _ declared _ _ _ _ _ hdeclare hbind _ ih =>
      have hhanded := And.intro (hdeclare.handed number) (hbind.handed number)
      have htaken := @handed_takeValue number declared
      simp [Node.kept, Node.placed, tally_cons, Line.numbers] at hhanded ih ⊢
      omega
  | inScope _ hleaves ih =>
      have hhanded := hleaves.handed number
      simp [Node.kept, Node.placed] at ih ⊢
      omega
  | statementsCons _ _ _ ihfirst ihrest =>
      simp [Node.kept, Node.placed] at ihfirst ihrest ⊢
      omega
  | casesNil | checksNil | optionalNone | statementsNil => simp [Node.kept, Node.placed]
  | @absent node _ =>
      have hnone : [] ++ (Node.part false node).kept = [] := rfl
      rw [hnone, tally_nil]
      omega
  | block _ ih | forStatement _ ih | forInStatement _ ih | forOfStatement _ ih | unlabeled _ ih
  | uncaught _ ih | optionalSome _ ih | present _ ih => simpa [Node.kept, Node.placed] using ih

/-- Lines without branches that define labels which were handed out before. -/
def Owes (owed : List BlockLabel) (emitter emitted : ExpressionEmitter) : Prop :=
  ∃ lines, emitted.body = emitter.body ++ lines ∧ labels lines = owed ∧ targetsOf lines = [] ∧ ∀ number,
    tally number lines + emitter.counters.taken number ≤
      emitted.counters.taken number + (owed.map fun label => Number.block label.index).count number

section Owes

variable {emitter middle emitted : ExpressionEmitter} {owed more : List BlockLabel}

theorem Owes.nil : Owes [] emitter emitter := ⟨[], by simp, rfl, rfl, by simp⟩

theorem Owes.trans (hfirst : Owes owed emitter middle) (hsecond : Owes more middle emitted) :
    Owes (owed ++ more) emitter emitted := by
  obtain ⟨lines, hbody, rfl, htargets, htally⟩ := hfirst
  obtain ⟨lines', hbody', rfl, htargets', htally'⟩ := hsecond
  refine ⟨lines ++ lines', by rw [hbody', hbody, List.append_assoc], by simp, by simp [htargets, htargets'],
    fun number => ?_⟩
  have hle := htally number
  have hle' := htally' number
  rw [tally_append, List.map_append, List.count_append]
  omega

theorem appendReturnTarget_owes {target : ReturnTarget} {value : Unit}
    (hrun : appendReturnTarget target emitter = .ok (value, emitted)) :
    Owes [target.label] emitter emitted := by
  simp only [appendReturnTarget, nextValueName, appendLines, bind_eq_ok, Except.ok.injEq, Prod.mk.injEq] at hrun
  obtain ⟨_, _, ⟨rfl, rfl⟩, -, rfl⟩ := hrun
  refine ⟨_, rfl, rfl, rfl, fun number => ?_⟩
  cases number <;> simp [tally, Line.numbers, ExpressionEmitter.counters, Counters.taken, List.count_cons] <;> grind

theorem appendThrowTarget_owes {label : BlockLabel} {slot : LocalSlot} {value : Unit}
    (hrun : appendThrowTarget label slot emitter = .ok (value, emitted)) :
    Owes [label] emitter emitted := by
  simp only [appendThrowTarget, nextValueName, appendLines, bind_eq_ok, Except.ok.injEq, Prod.mk.injEq] at hrun
  obtain ⟨_, _, ⟨rfl, rfl⟩, _, _, ⟨-, rfl⟩, _, _, hcall, -, rfl⟩ := hrun
  rw [emitRuntimeVoidCall_run hcall]
  refine ⟨[.label label, .load emitter.valueIndex slot,
    .voidCall "jayess_throw_unhandled" [valueArg (.named emitter.valueIndex)], .ret .undef], ?_, rfl, rfl,
    fun number => ?_⟩
  · simp only [List.append_assoc]
    rfl
  · cases number <;> simp [tally, Line.numbers, ExpressionEmitter.counters, Counters.taken, ExpressionEmitter.declare,
      List.count_cons] <;> grind

theorem appendReturn_owes {condition : Prop} [Decidable condition] {emitter emitted : StatementEmitter} {value : Unit}
    (hrun : (if condition then expr (appendLines [.ret .undef]) else pure () : StmtM Unit) emitter =
      .ok (value, emitted)) : Owes [] emitter.expressions emitted.expressions := by
  split at hrun
  · obtain ⟨_, happend, rfl⟩ := expr_eq_ok.mp hrun
    simp only [appendLines, Except.ok.injEq, Prod.mk.injEq] at happend
    obtain ⟨-, rfl⟩ := happend
    exact ⟨_, rfl, rfl, rfl, fun number => by simp [tally, Line.numbers, ExpressionEmitter.counters]⟩
  · simp only [pure_eq_ok, Prod.mk.injEq] at hrun
    obtain ⟨-, rfl⟩ := hrun
    exact .nil

theorem expr_owes {action : ExprM Unit} {next : Unit → StmtM Unit} {emitter emitted : StatementEmitter} {value : Unit}
    (hrun : (expr action >>= next) emitter = .ok (value, emitted))
    (haction : ∀ {expressions}, action emitter.expressions = .ok ((), expressions) →
      Owes owed emitter.expressions expressions)
    (hnext : ∀ {middle}, next () middle = .ok (value, emitted) → Owes more middle.expressions emitted.expressions) :
    Owes (owed ++ more) emitter.expressions emitted.expressions := by
  obtain ⟨⟨⟩, middle, hexpr, hrest⟩ := bind_eq_ok.mp hrun
  obtain ⟨expressions, hrun, rfl⟩ := expr_eq_ok.mp hexpr
  exact (haction hrun).trans (hnext hrest)

/-- The shared exits define the labels that were promised, and new registers. -/
theorem appendTargets_owes {emitter emitted : StatementEmitter} {value : Unit}
    (hrun : appendTargets emitter = .ok (value, emitted)) :
    ∃ owed, (owed.map fun label => Number.block label.index).Sublist emitter.promised ∧
      (∀ target, emitter.promises target → target ∈ owed) ∧ Owes owed emitter.expressions emitted.expressions := by
  obtain ⟨_, _, hget, hrun⟩ := bind_eq_ok.mp hrun
  obtain ⟨rfl, rfl⟩ := by simpa only [get_eq_ok, Prod.mk.injEq] using hget
  unfold promised promises
  cases hreturn : emitter.returnTarget <;> cases hlabel : emitter.throwLabel <;> cases hslot : emitter.throwSlot <;>
    simp only [hreturn, hlabel, hslot] at hrun
  case none.some.some =>
    refine ⟨_, ?_, ?_, expr_owes hrun appendThrowTarget_owes appendReturn_owes⟩ <;> simp
  case some.some.some =>
    refine ⟨_, ?_, ?_, expr_owes hrun appendReturnTarget_owes fun hrest =>
      expr_owes hrest appendThrowTarget_owes appendReturn_owes⟩ <;> simp [eq_comm]
  case some.none.none | some.none.some | some.some.none =>
    refine ⟨_, ?_, ?_, expr_owes hrun appendReturnTarget_owes appendReturn_owes⟩ <;> simp [eq_comm]
  all_goals exact ⟨[], List.nil_sublist _, by simp, appendReturn_owes hrun⟩

end Owes

theorem defs_sublist (lines : List Line) :
    ((lines.flatMap Line.defs).map Name.number).Sublist (lines.flatMap Line.numbers) := by
  induction lines with
  | nil => exact .slnil
  | cons line rest ih =>
      rw [List.flatMap_cons, List.flatMap_cons, List.map_append, line.numbers_eq]
      exact (List.sublist_append_left _ _).append ih

theorem labels_sublist (lines : List Line) :
    ((labels lines).map fun label => Number.block label.index).Sublist (lines.flatMap Line.numbers) := by
  induction lines with
  | nil => exact .slnil
  | cons line rest ih =>
      rw [Flow.labels_cons, List.flatMap_cons, List.map_append, line.numbers_eq]
      exact (List.sublist_append_right _ _).append ih

/-- No register, slot or label is defined twice. -/
structure DefinesOnce (function : Function) : Prop where
  names_nodup : (function.body.flatMap Line.defs).Nodup
  labels_nodup : (labels function.body).Nodup

/-- A function is what its statements emit with the shared exits behind it. -/
theorem lowerRuntimeStatementFunctionWithEmitter_emitted {name : String} {statements : List Statement}
    {emitter : StatementEmitter} {function : Function} {declarations : List Declaration} {globals : List Global}
    (hbody : emitter.expressions.body = [])
    (hrun : lowerRuntimeStatementFunctionWithEmitter name statements emitter = .ok (function, declarations, globals)) :
    ∃ emitted final : StatementEmitter, ∃ lines rest owed, Nonempty (Emitted (.statements statements) emitter lines emitted) ∧
      function.body = lines ++ rest ∧ (owed.map fun label => Number.block label.index).Sublist emitted.promised ∧
      (∀ target, emitted.promises target → target ∈ owed) ∧ labels rest = owed ∧ targetsOf rest = [] ∧ ∀ number,
        tally number rest + emitted.expressions.counters.taken number ≤ final.expressions.counters.taken number +
          (owed.map fun label => Number.block label.index).count number := by
  unfold lowerRuntimeStatementFunctionWithEmitter at hrun
  split at hrun
  · cases hrun
  · split at hrun
    · cases hrun
    · rename_i final hfinal
      obtain ⟨rfl, rfl, rfl⟩ := by simpa using hrun
      obtain ⟨_, emitted, hemit, htargets⟩ := bind_eq_ok.mp hfinal
      obtain ⟨lines, hemitted⟩ := emitStatements_derives _ _ _ hemit
      obtain ⟨owed, hsublist, hpromises, rest, hrest, hlabels, hnone, htally⟩ := appendTargets_owes htargets
      refine ⟨emitted, final, lines, rest, owed, hemitted, ?_, hsublist, hpromises, hlabels, hnone, htally⟩
      rw [StatementEmitter.body, hrest, hemitted.some.body, hbody, List.nil_append]

theorem lowerRuntimeStatementFunctionWithEmitter_definesOnce {name : String} {statements : List Statement}
    {emitter : StatementEmitter} {function : Function} {declarations : List Declaration} {globals : List Global}
    (hbody : emitter.expressions.body = []) (hpromised : emitter.promised = [])
    (hrun : lowerRuntimeStatementFunctionWithEmitter name statements emitter = .ok (function, declarations, globals)) :
    DefinesOnce function := by
  obtain ⟨emitted, final, lines, rest, owed, ⟨hemitted⟩, hlines, howed, -, -, -, htally⟩ :=
    lowerRuntimeStatementFunctionWithEmitter_emitted hbody hrun
  have hnodup : (function.body.flatMap Line.numbers).Nodup := by
    rw [List.nodup_iff_count_le_one]
    intro number
    have hhanded := hemitted.handed number
    have hle := htally number
    have hcount := howed.count_le number
    have htaken : final.expressions.counters.taken number ≤ 1 := by
      cases number <;> simp only [Counters.taken] <;> split <;> simp
    simp only [Node.kept, Node.placed, List.append_nil, tally_nil, handed, hpromised, List.count_nil] at hhanded
    rw [hlines, show ((lines ++ rest).flatMap Line.numbers).count number = tally number (lines ++ rest) from rfl,
      tally_append]
    omega
  exact ⟨(hnodup.sublist (defs_sublist _)).of_map _, (hnodup.sublist (labels_sublist _)).of_map _⟩

/-- Every function that the statement emitter lowers, with or without a lifetime plan. -/
theorem lowerRuntimeStatementFunction_definesOnce {name : String} {statements : List Statement} {function : Function}
    {declarations : List Declaration} {globals : List Global}
    (hrun : lowerRuntimeStatementFunction name statements = .ok (function, declarations, globals) ∨
      ∃ plan mapOrder, lowerRuntimeStatementFunctionWithLifetimePlan name statements plan mapOrder =
        .ok (function, declarations, globals)) :
    DefinesOnce function := by
  rcases hrun with hrun | ⟨plan, mapOrder, hrun⟩
  · exact lowerRuntimeStatementFunctionWithEmitter_definesOnce rfl rfl hrun
  · exact lowerRuntimeStatementFunctionWithEmitter_definesOnce rfl rfl hrun

/-- `do { if (null) return; } while (true); throw null;`, whose body is emitted twice. -/
def returningLoop : List Statement :=
  [.doWhileStatement ⟨1, 1⟩ [.ifStatement ⟨1, 6⟩ (.nullLiteral ⟨1, 10⟩) [.returnStatement ⟨1, 16⟩ none] []]
    (.booleanLiteral ⟨1, 33⟩ true), .throwStatement ⟨1, 40⟩ (.nullLiteral ⟨1, 46⟩)]

theorem returningLoop_definesOnce : ∃ function declarations globals,
    lowerRuntimeStatementFunction "app" returningLoop = .ok (function, declarations, globals) ∧
      DefinesOnce function := by
  obtain ⟨function, ⟨declarations, globals⟩, hrun, -⟩ := exists_ok_of_check
    (lowerRuntimeStatementFunction "app" returningLoop) (fun _ => true) (by decide +kernel)
  exact ⟨function, declarations, globals, hrun, lowerRuntimeStatementFunction_definesOnce (.inl hrun)⟩

end Jayess.Backend
