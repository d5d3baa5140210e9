import Jayess.Backend.Jumps
import Jayess.Semantic.LegalJumps

/-!
# Which jumps the emitter finds a target for

The exits the emitter has on its stack at a jump, read off the statements around it; every run that
comes to a jump has those exits there, and a run that ends well has found all of its jumps.
-/

namespace Jayess.Backend

open StatementEmitter
open Semantic (Control Frame allOccurrences caseOccurrences labelNames
  optionalOccurrences)

def isLabeled : List Frame → Bool
  | .label name :: _ => name ≠ ""
  | _ => false

def pendingOf (frames : List Frame) : List String :=
  ((labelNames frames).filter (· ≠ "")).reverse

/-- The exits of the statements around, with the labels each one got. Only a labelled block has
one. -/
def exitsOf : List Frame → List (StructuredExitKind × List String)
  | [] => []
  | .loop :: outer => (.loop, pendingOf outer) :: exitsOf outer
  | .switch :: outer => (.switch, pendingOf outer) :: exitsOf outer
  | .block :: outer =>
      if isLabeled outer then (.block, pendingOf outer) :: exitsOf outer else exitsOf outer
  | _ :: outer => exitsOf outer

def stopsAt : Control → StructuredExitKind × List String → Prop
  | .break label, (kind, labels) => if label = "" then kind ≠ .block else label ∈ labels
  | .continue label, (kind, labels) => kind = .loop ∧ (label = "" ∨ label ∈ labels)
  | .label _, _ => True

/-- The emitter finds a target for the jump. -/
def finds : Control → StatementEmitter → Prop
  | .break label, emitter => (emitter.exits.find? (·.breaks label)).isSome = true
  | .continue label, emitter => (emitter.exits.find? (·.continues label)).isSome = true
  | .label _, _ => True

/-- The jump has a target among the exits of the statements around. -/
def HasTarget (occurrence : Semantic.Occurrence) : Prop :=
  match occurrence.control with
  | .label _ => True
  | control => ∃ exit ∈ exitsOf occurrence.frames, stopsAt control exit

/-- The emitter inside of the statements. -/
structure Surrounded (frames : List Frame) (emitter : StatementEmitter) : Prop where
  exits : emitter.exits.map (fun exit => (exit.kind, exit.labels)) = exitsOf frames
  continues : ∀ exit ∈ emitter.exits, exit.kind = .loop → exit.continueLabel.isSome = true
  pending : emitter.pendingLabels = pendingOf frames

section Surrounded

variable {frames : List Frame} {emitter emitted : StatementEmitter}

theorem Surrounded.of_eq (hsurrounded : Surrounded frames emitter)
    (hexits : emitted.exits = emitter.exits)
    (hpending : emitted.pendingLabels = emitter.pendingLabels) : Surrounded frames emitted where
  exits := by rw [hexits, hsurrounded.exits]
  continues := by rw [hexits]; exact hsurrounded.continues
  pending := hpending.trans hsurrounded.pending

theorem Surrounded.of_balanced (hsurrounded : Surrounded frames emitter)
    (hbalanced : Balanced emitter emitted) : Surrounded frames emitted :=
  hsurrounded.of_eq hbalanced.exits hbalanced.pendingLabels

theorem Surrounded.pushExit {kind : StructuredExitKind} {breakLabel : BlockLabel}
    {continueLabel : Option BlockLabel} {frame : Frame} (hsurrounded : Surrounded frames emitter)
    (hexits : exitsOf (frame :: frames) = (kind, pendingOf frames) :: exitsOf frames)
    (hpending : pendingOf (frame :: frames) = pendingOf frames)
    (hcontinue : kind = .loop → continueLabel.isSome = true) :
    Surrounded (frame :: frames) (emitter.pushExit kind breakLabel continueLabel) where
  exits := by
    rw [hexits, ← hsurrounded.exits, ← hsurrounded.pending]
    rfl
  continues := by
    intro exit hexit
    rw [pushExit_exits, List.mem_cons] at hexit
    rcases hexit with rfl | hexit
    · exact hcontinue
    · exact hsurrounded.continues exit hexit
  pending := hsurrounded.pending.trans hpending.symm

theorem Surrounded.loop {labels : LoopLabels} (hsurrounded : Surrounded frames emitter) :
    Surrounded (.loop :: frames) (emitter.pushLoop labels) :=
  hsurrounded.pushExit rfl rfl fun _ => rfl

theorem Surrounded.switch {endLabel : BlockLabel} (hsurrounded : Surrounded frames emitter) :
    Surrounded (.switch :: frames) (emitter.pushExit .switch endLabel none) :=
  hsurrounded.pushExit rfl rfl nofun

theorem Surrounded.inside {frame : Frame} (hsurrounded : Surrounded frames emitter)
    (hexits : exitsOf (frame :: frames) = exitsOf frames)
    (hpending : pendingOf (frame :: frames) = pendingOf frames) :
    Surrounded (frame :: frames) emitter where
  exits := hsurrounded.exits.trans hexits.symm
  continues := hsurrounded.continues
  pending := hsurrounded.pending.trans hpending.symm

theorem pendingOf_label {name : String} (hname : name ≠ "") :
    pendingOf (.label name :: frames) = pendingOf frames ++ [name] := by
  simp [pendingOf, labelNames, hname]

theorem Surrounded.pushLabel {name : String} (hsurrounded : Surrounded frames emitter)
    (hname : name ≠ "") : Surrounded (.label name :: frames) (emitter.pushLabel name) where
  exits := hsurrounded.exits
  continues := hsurrounded.continues
  pending := by rw [pendingOf_label hname, ← hsurrounded.pending, pushLabel_pendingLabels]

theorem Surrounded.finds_iff (hsurrounded : Surrounded frames emitter) (control : Control) :
    finds control emitter ↔ HasTarget ⟨control, frames⟩ := by
  cases control with
  | label => exact Iff.rfl
  | «break» label =>
      rw [finds, HasTarget, ← hsurrounded.exits, List.find?_isSome]
      simp only [List.mem_map, exists_exists_and_eq_and]
      refine exists_congr fun exit => and_congr_right fun _ => ?_
      rw [StructuredExit.breaks, stopsAt]
      by_cases hlabel : label = ""
      · simp [hlabel]
      · simp [hlabel, StructuredExit.hasLabel]
  | «continue» label =>
      rw [finds, HasTarget, ← hsurrounded.exits, List.find?_isSome]
      simp only [List.mem_map, exists_exists_and_eq_and]
      refine exists_congr fun exit => and_congr_right fun hexit => ?_
      rw [StructuredExit.continues, stopsAt]
      by_cases hloop : exit.kind = .loop
      · simp [hloop, hsurrounded.continues exit hexit hloop, StructuredExit.hasLabel]
      · simp [hloop]

end Surrounded

def Node.occurrences (frames : List Frame) : Node → List Semantic.Occurrence
  | .statement single => Semantic.occurrences frames single
  | .statements list => allOccurrences frames list
  | .optional option => optionalOccurrences frames option
  | .scoped node => node.occurrences frames
  | .loop _ _ update body =>
      optionalOccurrences (.head :: frames) update ++ allOccurrences (.loop :: frames) body
  | .forLoop init _ update body =>
      optionalOccurrences (.head :: frames) init ++ (optionalOccurrences (.head :: frames) update ++
        allOccurrences (.loop :: frames) body)
  | .forEach _ _ _ _ _ _ body => allOccurrences (.loop :: frames) body
  | .cases list _ => caseOccurrences frames list
  | .checks .. => []
  | .caught _ _ _ body => allOccurrences frames body
  | .part present node => if present then node.occurrences frames else []

/-- The part is not a block that is labelled itself, which is emitted with its label. -/
def Node.Fits (frames : List Frame) : Node → Prop
  | .statement (.block ..) | .statements _ | .optional _ | .cases .. | .caught .. =>
      isLabeled frames = false
  | .scoped node | .part _ node => node.Fits frames
  | _ => True

theorem Node.fits_of_not_isLabeled {frames : List Frame} (hframes : isLabeled frames = false) :
    ∀ node : Node, node.Fits frames
  | .statement single => by cases single <;> first | exact hframes | trivial
  | .statements _ | .optional _ | .cases .. | .caught .. => hframes
  | .scoped node | .part _ node => node.fits_of_not_isLabeled hframes
  | .loop .. | .forLoop .. | .forEach .. | .checks .. => trivial

theorem Node.fits_of_not_block {frames : List Frame} {statement : Statement}
    (hblock : ∀ pos statements, statement ≠ .block pos statements) :
    (Node.statement statement).Fits frames := by
  cases statement with
  | block pos statements => exact absurd rfl (hblock pos statements)
  | _ => trivial

variable {node : Node}

theorem mem_part_occurrences {frames : List Frame} {body : List Statement}
    {occurrence : Semantic.Occurrence} (hoccurrence : occurrence ∈ allOccurrences frames body)
    (hnode : node.occurrences frames = allOccurrences frames body) :
    occurrence ∈ (Node.part (!body.isEmpty) node).occurrences frames := by
  cases body with
  | nil => cases hoccurrence
  | cons => exact hnode ▸ hoccurrence

theorem pendingOf_unlabeled (frames : List Frame) :
    pendingOf (.label "" :: frames) = pendingOf frames := by
  simp [pendingOf, labelNames]

theorem Surrounded.labeledBlock {name : String} {frames : List Frame} {breakLabel : BlockLabel}
    {emitter : StatementEmitter} (hsurrounded : Surrounded frames emitter) (hname : name ≠ "") :
    Surrounded (.block :: .label name :: frames)
      ((emitter.pushLabel name).pushExit .block breakLabel none) := by
  refine (hsurrounded.pushLabel hname).pushExit ?_ rfl nofun
  rw [exitsOf, if_pos (by simpa [isLabeled] using hname)]

theorem Emitted.hasTarget {emitter emitted : StatementEmitter} {lines : List Line}
    (hemitted : Emitted node emitter lines emitted) {frames : List Frame}
    (hsurrounded : Surrounded frames emitter) (hfits : node.Fits frames) :
    ∀ occurrence ∈ node.occurrences frames, HasTarget occurrence := by
  induction hemitted generalizing frames with
  | @straight statement _ _ _ hstraight _ =>
      intro occurrence hoccurrence
      have hnone : Semantic.occurrences frames statement = [] := by
        cases statement <;> first | rfl | cases hstraight
      rw [Node.occurrences, hnone] at hoccurrence
      cases hoccurrence
  | exportDecl _ _ ih => exact ih (hsurrounded.inside rfl rfl) rfl
  | block _ ih =>
      have hblock : exitsOf (.block :: frames) = exitsOf frames := by
        rw [exitsOf, if_neg (Bool.eq_false_iff.mp hfits)]
      exact ih (hsurrounded.inside hblock rfl) rfl
  | ifStatement hcondition hthen _ ihthen ihelse =>
      have htested := hsurrounded.of_balanced hcondition.balanced
      have hthen' := htested.of_balanced
        ((balanced_takeLabels _ 3).trans hthen.balanced.resumed)
      refine Semantic.forall_append.mpr ⟨?_, ?_⟩
      · exact ihthen ((htested.inside rfl rfl).of_eq rfl rfl) rfl
      · exact ihelse ((hthen'.inside rfl rfl).of_eq rfl rfl) rfl
  | loop hbody _ _ ihbody ihupdate =>
      have hbody' := hsurrounded.of_balanced hbody.balanced.resumed.popExit
      refine Semantic.forall_append.mpr ⟨?_, ?_⟩
      · exact ihupdate ((hbody'.inside rfl rfl).of_eq rfl rfl) rfl
      · exact ihbody (hsurrounded.loop.of_eq rfl rfl) rfl
  | whileStatement _ ih => exact ih (hsurrounded.of_eq rfl rfl) trivial
  | doWhileReturns _ _ ih =>
      exact ih (Surrounded.loop (hsurrounded.of_eq rfl rfl)) rfl
  | doWhile _ _ _ ihfirst _ =>
      exact ihfirst (Surrounded.loop (hsurrounded.of_eq rfl rfl)) rfl
  | forStatement _ ih => exact ih hsurrounded trivial
  | forLoop hinit _ ihinit ihloop =>
      have hinit' := hsurrounded.of_balanced hinit.balanced
      refine Semantic.forall_append.mpr ⟨?_, ?_⟩
      · exact ihinit (hsurrounded.inside rfl rfl) rfl
      · exact ihloop (hinit'.of_eq rfl rfl) trivial
  | forEach hsource hprepare hiterator _ _ _ ih =>
      have hhead := (hsource.balanced.trans hprepare.balanced).trans hiterator.balanced
      have hiterated := hsurrounded.of_balanced hhead
      exact ih (Surrounded.of_eq (Surrounded.loop (hiterated.of_eq rfl rfl)) rfl rfl) rfl
  | forInStatement _ ih | forOfStatement _ ih => exact ih hsurrounded trivial
  | @switchStatement _ _ cases _ _ _ _ _ _ _ _ _ _ _ hdiscriminant hcases _ _ ihcases ihdefault _ =>
      have htested := hsurrounded.of_balanced hdiscriminant.balanced
      refine Semantic.forall_append.mpr ⟨?_, ?_⟩
      · exact ihcases (Surrounded.switch (htested.of_eq rfl rfl)) rfl
      · have hlabels := htested.of_balanced (balanced_takeLabels _ (2 + 2 * cases.length))
        have hswitch := (Surrounded.switch hlabels).of_balanced hcases.balanced
        exact ihdefault (hswitch.of_eq rfl rfl) rfl
  | casesNil | checksNil | checksCons | absent | optionalNone | statementsNil => exact nofun
  | casesCons hbody _ ihbody ihrest =>
      refine Semantic.forall_append.mpr ⟨?_, ?_⟩
      · exact ihbody (hsurrounded.of_eq rfl rfl) hfits
      · exact ihrest (hsurrounded.of_balanced hbody.balanced.resumed) hfits
  | unlabeled _ ih =>
      refine List.forall_mem_cons.mpr ⟨trivial, ?_⟩
      exact ih (hsurrounded.inside rfl (pendingOf_unlabeled frames))
        (Node.fits_of_not_isLabeled rfl _)
  | labeledStatement hlabel hblock _ ih =>
      refine List.forall_mem_cons.mpr ⟨trivial, ?_⟩
      exact ih (hsurrounded.pushLabel hlabel) (Node.fits_of_not_block hblock)
  | labeledBlock hlabel _ ih =>
      refine List.forall_mem_cons.mpr ⟨trivial, ?_⟩
      exact ih (Surrounded.labeledBlock (hsurrounded.of_eq rfl rfl) hlabel) rfl
  | @breakStatement _ label _ _ _ _ hexit _ =>
      refine List.forall_mem_singleton.mpr ((hsurrounded.finds_iff (.break label)).mp ?_)
      rw [finds, hexit]
      rfl
  | @continueStatement _ label _ _ _ _ _ hexit _ _ =>
      refine List.forall_mem_singleton.mpr ((hsurrounded.finds_iff (.continue label)).mp ?_)
      rw [finds, hexit]
      rfl
  | returnStatement | throwStatement => exact nofun
  | tryStatement _ _ hslot htry hcatch _ ihtry ihcatch ihfinally =>
      have hslotted := (hsurrounded.of_balanced ((balanced_takeLabels _ _).trans hslot.balanced))
      have htried := hslotted.of_balanced htry.balanced.resumed.popHandler
      have hcaught := htried.of_balanced hcatch.balanced.resumed
      refine Semantic.forall_append.mpr ⟨?_, Semantic.forall_append.mpr ⟨?_, ?_⟩⟩
      · exact ihtry ((hslotted.inside rfl rfl).of_eq rfl rfl) rfl
      · exact fun occurrence hoccurrence =>
          @ihcatch (.other :: frames) ((htried.inside rfl rfl).of_eq rfl rfl) rfl occurrence
            (mem_part_occurrences hoccurrence rfl)
      · exact fun occurrence hoccurrence =>
          @ihfinally (.other :: frames) ((hcaught.inside rfl rfl).of_eq rfl rfl) rfl occurrence
            (mem_part_occurrences hoccurrence rfl)
  | uncaught _ ih => exact ih hsurrounded hfits
  | caught hdeclare hbind _ ih =>
      have hbound := (balanced_takeValue _).trans ((balanced_append _ _).trans hbind.balanced)
      exact ih (hsurrounded.of_balanced (hdeclare.balanced.trans hbound)) hfits
  | present _ ih => exact ih hsurrounded hfits
  | inScope _ _ ih => exact ih (hsurrounded.of_eq rfl rfl) hfits
  | optionalSome _ ih => exact ih hsurrounded (Node.fits_of_not_isLabeled hfits _)
  | statementsCons _ hstatement _ ihstatement ihrest =>
      refine Semantic.forall_append.mpr ⟨?_, ?_⟩
      · exact ihstatement hsurrounded (Node.fits_of_not_isLabeled hfits _)
      · exact ihrest (hsurrounded.of_balanced hstatement.balanced) hfits

/-- The emission of a part comes to a jump: whatever is emitted before it ended well. One rule for
each place a jump can stand in. -/
inductive Reaches : Node → StatementEmitter → Control → StatementEmitter → Prop
  | breakStatement {pos : SourcePos} {label : String} {emitter : StatementEmitter} :
      Reaches (.statement (.breakStatement pos label)) emitter (.break label) emitter
  | continueStatement {pos : SourcePos} {label : String} {emitter : StatementEmitter} :
      Reaches (.statement (.continueStatement pos label)) emitter (.continue label) emitter
  | exportDecl {pos : SourcePos} {declaration : Option Statement} {value : Option Expression}
      {specifiers : List ExportSpecifier} {source : String} {isDefault all : Bool}
      {namespaceName : String} {emitter target : StatementEmitter} {control : Control}
      (hreaches : Reaches (.optional declaration) emitter control target) :
      Reaches (.statement (.exportDecl pos declaration value specifiers source isDefault all
        namespaceName)) emitter control target
  | block {pos : SourcePos} {statements : List Statement} {emitter target : StatementEmitter}
      {control : Control}
      (hreaches : Reaches (.scoped (.statements statements)) emitter control target) :
      Reaches (.statement (.block pos statements)) emitter control target
  | consequence {pos : SourcePos} {condition : Expression}
      {consequence alternative : List Statement} {emitter tested target : StatementEmitter}
      {control : Control} {fragment : Fragment} {value : Operand}
      (hcondition : ValuePiece condition.shape (emitCondition condition) emitter fragment value
        tested)
      (hreaches : Reaches (.scoped (.statements consequence)) (tested.takeLabels 3).cleared control
        target) :
      Reaches (.statement (.ifStatement pos condition consequence alternative)) emitter control
        target
  | alternative {pos : SourcePos} {condition : Expression}
      {consequence alternative : List Statement}
      {emitter tested afterThen target : StatementEmitter} {control : Control}
      {fragment : Fragment} {value : Operand} {thenLines : List Line}
      (hcondition : ValuePiece condition.shape (emitCondition condition) emitter fragment value
        tested)
      (hthen : Emitted (.scoped (.statements consequence)) (tested.takeLabels 3).cleared thenLines
        afterThen)
      (hreaches : Reaches (.scoped (.statements alternative))
        ((tested.takeLabels 3).resumed afterThen).cleared control target) :
      Reaches (.statement (.ifStatement pos condition consequence alternative)) emitter control
        target
  | loopBody {labels : LoopLabels} {condition : Option Expression} {update : Option Statement}
      {body : List Statement} {emitter target : StatementEmitter} {control : Control}
      (hreaches : Reaches (.scoped (.statements body)) (emitter.pushLoop labels).cleared control
        target) :
      Reaches (.loop labels condition update body) emitter control target
  | loopUpdate {labels : LoopLabels} {condition : Option Expression} {update : Option Statement}
      {body : List Statement} {emitter afterBody target : StatementEmitter} {control : Control}
      {bodyLines : List Line}
      (hbody : Emitted (.scoped (.statements body)) (emitter.pushLoop labels).cleared bodyLines
        afterBody)
      (hreaches : Reaches (.optional update)
        ((emitter.pushLoop labels).resumed afterBody).popExit.cleared control target) :
      Reaches (.loop labels condition update body) emitter control target
  | whileStatement {pos : SourcePos} {condition : Expression} {body : List Statement}
      {emitter target : StatementEmitter} {control : Control}
      (hreaches : Reaches (.loop (emitter.whileLabels "while") (some condition) none body)
        (emitter.takeLabels 3) control target) :
      Reaches (.statement (.whileStatement pos condition body)) emitter control target
  | doWhileFirst {pos : SourcePos} {condition : Expression} {body : List Statement}
      {emitter target : StatementEmitter} {control : Control}
      (hreaches : Reaches (.scoped (.statements body))
        ((emitter.takeLabels 3).pushLoop (emitter.whileLabels "do.while")) control target) :
      Reaches (.statement (.doWhileStatement pos body condition)) emitter control target
  | doWhile {pos : SourcePos} {condition : Expression} {body : List Statement}
      {emitter afterFirst target : StatementEmitter} {control : Control} {firstLines : List Line}
      (hfirst : Emitted (.scoped (.statements body))
        ((emitter.takeLabels 3).pushLoop (emitter.whileLabels "do.while")) firstLines afterFirst)
      (hreaches : Reaches (.loop (emitter.whileLabels "do.while") (some condition) none body)
        afterFirst.popExit.reopened control target) :
      Reaches (.statement (.doWhileStatement pos body condition)) emitter control target
  | forStatement {pos : SourcePos} {init : Option Statement} {condition : Option Expression}
      {update : Option Statement} {body : List Statement} {emitter target : StatementEmitter}
      {control : Control}
      (hreaches : Reaches (.scoped (.forLoop init condition update body)) emitter control target) :
      Reaches (.statement (.forStatement pos init condition update body)) emitter control target
  | forInit {init : Option Statement} {condition : Option Expression} {update : Option Statement}
      {body : List Statement} {emitter target : StatementEmitter} {control : Control}
      (hreaches : Reaches (.optional init) emitter control target) :
      Reaches (.forLoop init condition update body) emitter control target
  | forLoop {init : Option Statement} {condition : Option Expression} {update : Option Statement}
      {body : List Statement} {emitter afterInit target : StatementEmitter} {control : Control}
      {initLines : List Line} (hinit : Emitted (.optional init) emitter initLines afterInit)
      (hreaches : Reaches (.loop afterInit.forLabels condition update body)
        (afterInit.takeLabels 4) control target) :
      Reaches (.forLoop init condition update body) emitter control target
  | forEach {pos : SourcePos} {stem iteratorSymbol : String} {pattern : Option BindingPattern}
      {assigned source : Expression} {body : List Statement}
      {emitter sourced prepared iterated target : StatementEmitter} {control : Control}
      {sourceCode prepareCode iteratorCode : Fragment} {sourceValue iterator : Operand}
      {assignment : ForEachTarget}
      (hsource : ValuePiece source.shape (emitExpression source) emitter sourceCode sourceValue
        sourced)
      (hprepare : Piece true (ForEachTarget.Ready pattern) (sourced.slotsAnd sourceValue.names)
        (prepareShape pattern assigned) (prepareForEachTarget pos pattern assigned) sourced
        prepareCode assignment prepared)
      (hiterator : Piece false ValueIn (prepared.slotsAnd (sourceValue.names ++ assignment.names))
        .straight (expr (emitRuntimeUnaryValue iteratorSymbol sourceValue)) prepared iteratorCode
        iterator iterated)
      (hreaches : Reaches (.scoped (.statements body))
        ((iterated.takeLabels 3).pushLoop (iterated.whileLabels stem)).cleared control target) :
      Reaches (.forEach pos stem iteratorSymbol pattern assigned source body) emitter control target
  | forInStatement {pos : SourcePos} {kind : DeclarationKind} {pattern : Option BindingPattern}
      {assigned object : Expression} {body : List Statement} {emitter target : StatementEmitter}
      {control : Control}
      (hreaches : Reaches (.forEach pos "for.in" "jayess_for_in_iterator" pattern assigned object
        body) emitter control target) :
      Reaches (.statement (.forInStatement pos kind pattern assigned object body)) emitter control
        target
  | forOfStatement {pos : SourcePos} {kind : DeclarationKind} {pattern : Option BindingPattern}
      {assigned iterable : Expression} {body : List Statement} {emitter target : StatementEmitter}
      {control : Control}
      (hreaches : Reaches (.forEach pos "for.of" "jayess_for_of_iterator" pattern assigned iterable
        body) emitter control target) :
      Reaches (.statement (.forOfStatement pos kind pattern assigned iterable body false)) emitter
        control target
  | switchCases {pos : SourcePos} {discriminant : Expression} {cases : List SwitchCase}
      {default : List Statement} {emitter tested target : StatementEmitter} {control : Control}
      {fragment : Fragment} {value : Operand}
      (hdiscriminant : ValuePiece discriminant.shape (emitExpression discriminant) emitter
        fragment value tested)
      (hreaches : Reaches (.cases cases [])
        ((tested.takeLabels (2 + 2 * cases.length)).pushExit .switch
          (tested.switchLabels cases.length).endLabel none) control target) :
      Reaches (.statement (.switchStatement pos discriminant cases default)) emitter control target
  | switchDefault {pos : SourcePos} {discriminant : Expression} {cases : List SwitchCase}
      {default : List Statement} {captured : List CapturedSwitchCase}
      {emitter tested afterCases target : StatementEmitter} {control : Control}
      {fragment : Fragment} {value : Operand}
      (hdiscriminant : ValuePiece discriminant.shape (emitExpression discriminant) emitter
        fragment value tested)
      (hcases : Emitted (.cases cases captured)
        ((tested.takeLabels (2 + 2 * cases.length)).pushExit .switch
          (tested.switchLabels cases.length).endLabel none) [] afterCases)
      (hreaches : Reaches (.scoped (.statements default)) afterCases.cleared control target) :
      Reaches (.statement (.switchStatement pos discriminant cases default)) emitter control target
  | caseBody {test : Expression} {consequent : List Statement} {rest : List SwitchCase}
      {emitter target : StatementEmitter} {control : Control}
      (hreaches : Reaches (.scoped (.statements consequent)) emitter.cleared control target) :
      Reaches (.cases (⟨test, consequent⟩ :: rest) []) emitter control target
  | casesRest {test : Expression} {consequent : List Statement} {rest : List SwitchCase}
      {emitter afterBody target : StatementEmitter} {control : Control} {lines : List Line}
      (hbody : Emitted (.scoped (.statements consequent)) emitter.cleared lines afterBody)
      (hreaches : Reaches (.cases rest []) (emitter.resumed afterBody) control target) :
      Reaches (.cases (⟨test, consequent⟩ :: rest) []) emitter control target
  | unlabeled {pos : SourcePos} {statement : Statement} {emitter target : StatementEmitter}
      {control : Control} (hreaches : Reaches (.statement statement) emitter control target) :
      Reaches (.statement (.labeledStatement pos "" statement)) emitter control target
  | labeledStatement {pos : SourcePos} {label : String} {statement : Statement}
      {emitter target : StatementEmitter} {control : Control} (hlabel : label ≠ "")
      (hblock : ∀ blockPos statements, statement ≠ .block blockPos statements)
      (hreaches : Reaches (.statement statement) (emitter.pushLabel label) control target) :
      Reaches (.statement (.labeledStatement pos label statement)) emitter control target
  | labeledBlock {pos blockPos : SourcePos} {label : String} {statements : List Statement}
      {emitter target : StatementEmitter} {control : Control} (hlabel : label ≠ "")
      (hreaches : Reaches (.scoped (.statements statements))
        (((emitter.takeLabels 1).pushLabel label).pushExit .block
          (emitter.blockLabel ("label." ++ label ++ ".end") 0) none) control target) :
      Reaches (.statement (.labeledStatement pos label (.block blockPos statements))) emitter
        control target
  | tryBody {pos : SourcePos} {tryBody catchBody finallyBody : List Statement}
      {catchPattern : Option BindingPattern} {throwTarget : BlockLabel} {slot : LocalSlot}
      {emitter slotted target : StatementEmitter} {control : Control} {allocation : List Line}
      (hslot : EnsuresThrowSlot
        (emitter.takeLabels ((!catchBody.isEmpty).toNat + (!finallyBody.isEmpty).toNat + 1))
        slot allocation slotted)
      (hreaches : Reaches (.scoped (.statements tryBody)) (slotted.pushHandler throwTarget).cleared
        control target) :
      Reaches (.statement (.tryStatement pos tryBody catchPattern catchBody finallyBody)) emitter
        control target
  | catchBody {pos : SourcePos} {tryBody catchBody finallyBody : List Statement}
      {catchPattern : Option BindingPattern} {throwTarget : BlockLabel} {slot : LocalSlot}
      {emitter slotted afterTry target : StatementEmitter} {control : Control}
      {allocation tryCode : List Line}
      (hslot : EnsuresThrowSlot
        (emitter.takeLabels ((!catchBody.isEmpty).toNat + (!finallyBody.isEmpty).toNat + 1))
        slot allocation slotted)
      (htry : Emitted (.scoped (.statements tryBody)) (slotted.pushHandler throwTarget).cleared
        tryCode afterTry)
      (hreaches : Reaches (.scoped (.caught pos slot catchPattern catchBody))
        ((slotted.pushHandler throwTarget).resumed afterTry).popHandler.cleared control target) :
      Reaches (.statement (.tryStatement pos tryBody catchPattern catchBody finallyBody)) emitter
        control target
  | finallyBody {pos : SourcePos} {tryBody catchBody finallyBody : List Statement}
      {catchPattern : Option BindingPattern} {throwTarget : BlockLabel} {slot : LocalSlot}
      {emitter slotted afterTry afterCatch target : StatementEmitter} {control : Control}
      {allocation tryCode catchCode : List Line}
      (hslot : EnsuresThrowSlot
        (emitter.takeLabels ((!catchBody.isEmpty).toNat + (!finallyBody.isEmpty).toNat + 1))
        slot allocation slotted)
      (htry : Emitted (.scoped (.statements tryBody)) (slotted.pushHandler throwTarget).cleared
        tryCode afterTry)
      (hcatch : Emitted
        (.part (!catchBody.isEmpty) (.scoped (.caught pos slot catchPattern catchBody)))
        ((slotted.pushHandler throwTarget).resumed afterTry).popHandler.cleared catchCode
        afterCatch)
      (hreaches : Reaches (.scoped (.statements finallyBody))
        (((slotted.pushHandler throwTarget).resumed afterTry).popHandler.resumed
          afterCatch).cleared control target) :
      Reaches (.statement (.tryStatement pos tryBody catchPattern catchBody finallyBody)) emitter
        control target
  | uncaught {pos : SourcePos} {slot : LocalSlot} {body : List Statement}
      {emitter target : StatementEmitter} {control : Control}
      (hreaches : Reaches (.statements body) emitter control target) :
      Reaches (.caught pos slot none body) emitter control target
  | caught {pos : SourcePos} {slot : LocalSlot} {pattern : BindingPattern} {body : List Statement}
      {emitter declared bound target : StatementEmitter} {control : Control}
      {declareCode bindCode : Fragment}
      (hdeclare : LinesPiece true emitter.slots .straight
        (expr (declareBindingTargets (some pattern) .undef)) emitter declareCode declared)
      (hbind : LinesPiece true (declared.slotsAnd [.value declared.expressions.valueIndex])
        pattern.shape (bindCaught pos pattern (.named declared.expressions.valueIndex))
        (declared.takeValue.append [.load declared.expressions.valueIndex slot]) bindCode bound)
      (hreaches : Reaches (.statements body) bound control target) :
      Reaches (.caught pos slot (some pattern) body) emitter control target
  | inScope {node : Node} {emitter target : StatementEmitter} {control : Control}
      (hreaches : Reaches node emitter.entered control target) :
      Reaches (.scoped node) emitter control target
  | optionalSome {statement : Statement} {emitter target : StatementEmitter} {control : Control}
      (hreaches : Reaches (.statement statement) emitter control target) :
      Reaches (.optional (some statement)) emitter control target
  | statementsHead {statement : Statement} {rest : List Statement}
      {emitter target : StatementEmitter} {control : Control} (hopen : emitter.returned = false)
      (hreaches : Reaches (.statement statement) emitter control target) :
      Reaches (.statements (statement :: rest)) emitter control target
  | statementsRest {statement : Statement} {rest : List Statement}
      {emitter middle target : StatementEmitter} {control : Control} {lines : List Line}
      (hopen : emitter.returned = false)
      (hstatement : Emitted (.statement statement) emitter lines middle)
      (hreaches : Reaches (.statements rest) middle control target) :
      Reaches (.statements (statement :: rest)) emitter control target

/-- The jump stands somewhere in the part, and the emitter has the exits of the statements around
it. -/
def Stands (occurrences : List Semantic.Occurrence) (control : Control)
    (target : StatementEmitter) : Prop :=
  ∃ frames, ⟨control, frames⟩ ∈ occurrences ∧ Surrounded frames target

theorem Stands.of_subset {occurrences more : List Semantic.Occurrence} {control : Control}
    {target : StatementEmitter} (hstands : Stands occurrences control target)
    (hsubset : occurrences ⊆ more) : Stands more control target := by
  obtain ⟨frames, hmem, hsurrounded⟩ := hstands
  exact ⟨frames, hsubset hmem, hsurrounded⟩

theorem Reaches.stands {emitter target : StatementEmitter} {control : Control}
    (hreaches : Reaches node emitter control target) {frames : List Frame}
    (hsurrounded : Surrounded frames emitter) (hfits : node.Fits frames) :
    Stands (node.occurrences frames) control target := by
  induction hreaches generalizing frames with
  | breakStatement | continueStatement => exact ⟨frames, List.mem_singleton_self _, hsurrounded⟩
  | exportDecl _ ih => exact ih (hsurrounded.inside rfl rfl) rfl
  | block _ ih =>
      have hblock : exitsOf (.block :: frames) = exitsOf frames := by
        rw [exitsOf, if_neg (Bool.eq_false_iff.mp hfits)]
      exact ih (hsurrounded.inside hblock rfl) rfl
  | consequence hcondition _ ih =>
      have htested := hsurrounded.of_balanced hcondition.balanced
      have hstands := @ih (.other :: frames) ((htested.inside rfl rfl).of_eq rfl rfl) rfl
      exact hstands.of_subset (List.subset_append_left _ _)
  | alternative hcondition hthen _ ih =>
      have htested := hsurrounded.of_balanced hcondition.balanced
      have hthen' := htested.of_balanced
        ((balanced_takeLabels _ 3).trans hthen.balanced.resumed)
      have hstands := @ih (.other :: frames) ((hthen'.inside rfl rfl).of_eq rfl rfl) rfl
      exact hstands.of_subset (List.subset_append_right _ _)
  | loopBody _ ih =>
      have hstands := ih (hsurrounded.loop.of_eq rfl rfl) rfl
      exact hstands.of_subset (List.subset_append_right _ _)
  | loopUpdate hbody _ ih =>
      have hbody' := hsurrounded.of_balanced hbody.balanced.resumed.popExit
      have hstands := @ih (.head :: frames) ((hbody'.inside rfl rfl).of_eq rfl rfl) rfl
      exact hstands.of_subset (List.subset_append_left _ _)
  | whileStatement _ ih => exact ih (hsurrounded.of_eq rfl rfl) trivial
  | doWhileFirst _ ih => exact ih (Surrounded.loop (hsurrounded.of_eq rfl rfl)) rfl
  | doWhile hfirst _ ih =>
      have hfirst' := hsurrounded.of_balanced
        ((balanced_takeLabels _ 3).trans hfirst.balanced.popExit)
      exact ih (hfirst'.of_eq rfl rfl) trivial
  | forStatement _ ih => exact ih hsurrounded trivial
  | forInit _ ih =>
      have hstands := @ih (.head :: frames) (hsurrounded.inside rfl rfl) rfl
      exact hstands.of_subset (List.subset_append_left _ _)
  | forLoop hinit _ ih =>
      have hinit' := hsurrounded.of_balanced hinit.balanced
      have hstands := ih (hinit'.of_eq rfl rfl) trivial
      exact hstands.of_subset (List.subset_append_right _ _)
  | forEach hsource hprepare hiterator _ ih =>
      have hhead := (hsource.balanced.trans hprepare.balanced).trans hiterator.balanced
      have hiterated := hsurrounded.of_balanced hhead
      exact ih (Surrounded.of_eq (Surrounded.loop (hiterated.of_eq rfl rfl)) rfl rfl) rfl
  | forInStatement _ ih | forOfStatement _ ih => exact ih hsurrounded trivial
  | switchCases hdiscriminant _ ih =>
      have htested := hsurrounded.of_balanced hdiscriminant.balanced
      have hstands := ih (Surrounded.switch (htested.of_eq rfl rfl)) rfl
      exact hstands.of_subset (List.subset_append_left _ _)
  | @switchDefault _ _ cases _ _ _ _ _ _ _ _ _ hdiscriminant hcases _ ih =>
      have htested := hsurrounded.of_balanced hdiscriminant.balanced
      have hlabels := htested.of_balanced (balanced_takeLabels _ (2 + 2 * cases.length))
      have hswitch := (Surrounded.switch hlabels).of_balanced hcases.balanced
      have hstands := ih (hswitch.of_eq rfl rfl) rfl
      exact hstands.of_subset (List.subset_append_right _ _)
  | caseBody _ ih =>
      have hstands := ih (hsurrounded.of_eq rfl rfl) hfits
      exact hstands.of_subset (List.subset_append_left _ _)
  | casesRest hbody _ ih =>
      have hstands := ih (hsurrounded.of_balanced hbody.balanced.resumed) hfits
      exact hstands.of_subset (List.subset_append_right _ _)
  | unlabeled _ ih =>
      have hstands := ih (hsurrounded.inside rfl (pendingOf_unlabeled frames))
        (Node.fits_of_not_isLabeled rfl _)
      exact hstands.of_subset (List.subset_cons_self _ _)
  | labeledStatement hlabel hblock _ ih =>
      have hstands := ih (hsurrounded.pushLabel hlabel) (Node.fits_of_not_block hblock)
      exact hstands.of_subset (List.subset_cons_self _ _)
  | labeledBlock hlabel _ ih =>
      have hstands := ih (Surrounded.labeledBlock (hsurrounded.of_eq rfl rfl) hlabel) rfl
      exact hstands.of_subset (List.subset_cons_self _ _)
  | tryBody hslot _ ih =>
      have hslotted := hsurrounded.of_balanced ((balanced_takeLabels _ _).trans hslot.balanced)
      have hstands := @ih (.other :: frames) ((hslotted.inside rfl rfl).of_eq rfl rfl) rfl
      exact hstands.of_subset (List.subset_append_left _ _)
  | catchBody hslot htry _ ih =>
      have hslotted := hsurrounded.of_balanced ((balanced_takeLabels _ _).trans hslot.balanced)
      have htried := hslotted.of_balanced htry.balanced.resumed.popHandler
      have hstands := @ih (.other :: frames) ((htried.inside rfl rfl).of_eq rfl rfl) rfl
      exact (hstands.of_subset (List.subset_append_left _ _)).of_subset
        (List.subset_append_right _ _)
  | finallyBody hslot htry hcatch _ ih =>
      have hslotted := hsurrounded.of_balanced ((balanced_takeLabels _ _).trans hslot.balanced)
      have htried := hslotted.of_balanced htry.balanced.resumed.popHandler
      have hcaught := htried.of_balanced hcatch.balanced.resumed
      have hstands := @ih (.other :: frames) ((hcaught.inside rfl rfl).of_eq rfl rfl) rfl
      exact (hstands.of_subset (List.subset_append_right _ _)).of_subset
        (List.subset_append_right _ _)
  | uncaught _ ih => exact ih hsurrounded hfits
  | caught hdeclare hbind _ ih =>
      have hbound := (balanced_takeValue _).trans ((balanced_append _ _).trans hbind.balanced)
      exact ih (hsurrounded.of_balanced (hdeclare.balanced.trans hbound)) hfits
  | inScope _ ih => exact ih (hsurrounded.of_eq rfl rfl) hfits
  | optionalSome _ ih => exact ih hsurrounded (Node.fits_of_not_isLabeled hfits _)
  | statementsHead _ _ ih =>
      have hstands := ih hsurrounded (Node.fits_of_not_isLabeled hfits _)
      exact hstands.of_subset (List.subset_append_left _ _)
  | statementsRest _ hstatement _ ih =>
      have hstands := ih (hsurrounded.of_balanced hstatement.balanced) hfits
      exact hstands.of_subset (List.subset_append_right _ _)

def hasExit (outer : List Frame) : Frame → Bool
  | .loop | .switch => true
  | .block => isLabeled outer
  | _ => false

/-- A loop, a switch or a labelled block around the jump has the label, or stands inside of the
statement that has it. -/
def carriesBreak (label : String) : List Frame → Prop
  | [] => False
  | frame :: outer =>
      (hasExit outer frame = true ∧ label ∈ labelNames outer) ∨ carriesBreak label outer

def carriesContinue (label : String) : List Frame → Prop
  | [] => False
  | frame :: outer => (frame = .loop ∧ label ∈ labelNames outer) ∨ carriesContinue label outer

/-- A labelled jump has an exit with its label around it. -/
def Carried : Semantic.Occurrence → Prop
  | ⟨.break label, frames⟩ => label ≠ "" → carriesBreak label frames
  | ⟨.continue label, frames⟩ => label ≠ "" → carriesContinue label frames
  | _ => True

section Targets

variable {label : String} {frames : List Frame}

theorem mem_pendingOf : label ∈ pendingOf frames ↔ label ≠ "" ∧ label ∈ labelNames frames := by
  simp [pendingOf, and_comm]

theorem mem_exitsOf_cons {frame : Frame} {exit : StructuredExitKind × List String} :
    exit ∈ exitsOf (frame :: frames) ↔
      (hasExit frames frame = true ∧ exit.2 = pendingOf frames ∧
        (exit.1 = .loop ↔ frame = .loop) ∧ (exit.1 = .block ↔ frame = .block)) ∨
      exit ∈ exitsOf frames := by
  obtain ⟨kind, labels⟩ := exit
  cases frame with
  | block =>
      rw [exitsOf]
      by_cases hlabeled : isLabeled frames = true
      · rw [if_pos hlabeled, List.mem_cons]
        cases kind <;> simp [hasExit, hlabeled]
      · rw [if_neg hlabeled]
        simp [hasExit, hlabeled]
  | loop | switch => rw [exitsOf, List.mem_cons]; cases kind <;> simp [hasExit]
  | head | other | label => simp [exitsOf, hasExit]

theorem breakTarget_iff (hlabel : label ≠ "") :
    HasTarget ⟨.break label, frames⟩ ↔ carriesBreak label frames := by
  change (∃ exit ∈ exitsOf frames, stopsAt (.break label) exit) ↔ _
  simp only [stopsAt, if_neg hlabel]
  induction frames with
  | nil => simp [exitsOf, carriesBreak]
  | cons frame outer ih =>
      rw [carriesBreak, ← ih]
      constructor
      · rintro ⟨exit, hexit, hlabels⟩
        rcases mem_exitsOf_cons.mp hexit with ⟨hhas, hpending, -⟩ | houter
        · rw [hpending, mem_pendingOf] at hlabels
          exact Or.inl ⟨hhas, hlabels.2⟩
        · exact Or.inr ⟨exit, houter, hlabels⟩
      · rintro (⟨hhas, hmem⟩ | ⟨exit, houter, hlabels⟩)
        · have hpending : label ∈ pendingOf outer := mem_pendingOf.mpr ⟨hlabel, hmem⟩
          cases frame with
          | loop => exact ⟨(.loop, pendingOf outer), List.mem_cons_self, hpending⟩
          | «switch» => exact ⟨(.switch, pendingOf outer), List.mem_cons_self, hpending⟩
          | block =>
              have hlabeled : isLabeled outer = true := hhas
              refine ⟨(.block, pendingOf outer), ?_, hpending⟩
              rw [exitsOf, if_pos hlabeled]
              exact List.mem_cons_self
          | head | other | label => cases hhas
        · exact ⟨exit, mem_exitsOf_cons.mpr (Or.inr houter), hlabels⟩

theorem continueTarget_iff (hlabel : label ≠ "") :
    HasTarget ⟨.continue label, frames⟩ ↔ carriesContinue label frames := by
  change (∃ exit ∈ exitsOf frames, stopsAt (.continue label) exit) ↔ _
  simp only [stopsAt, hlabel, false_or]
  induction frames with
  | nil => simp [exitsOf, carriesContinue]
  | cons frame outer ih =>
      rw [carriesContinue, ← ih]
      constructor
      · rintro ⟨exit, hexit, hkind, hlabels⟩
        rcases mem_exitsOf_cons.mp hexit with ⟨-, hpending, hloop, -⟩ | houter
        · rw [hpending, mem_pendingOf] at hlabels
          exact Or.inl ⟨hloop.mp hkind, hlabels.2⟩
        · exact Or.inr ⟨exit, houter, hkind, hlabels⟩
      · rintro (⟨rfl, hmem⟩ | ⟨exit, houter, hstops⟩)
        · refine ⟨(.loop, pendingOf outer), List.mem_cons_self, rfl, ?_⟩
          exact mem_pendingOf.mpr ⟨hlabel, hmem⟩
        · exact ⟨exit, mem_exitsOf_cons.mpr (Or.inr houter), hstops⟩

theorem unlabeledBreakTarget_iff :
    HasTarget ⟨.break "", frames⟩ ↔ .loop ∈ frames ∨ .switch ∈ frames := by
  change (∃ exit ∈ exitsOf frames, stopsAt (.break "") exit) ↔ _
  simp only [stopsAt, if_true]
  induction frames with
  | nil => simp [exitsOf]
  | cons frame outer ih =>
      cases frame with
      | loop => simp [exitsOf]
      | «switch» => simp [exitsOf]
      | block =>
          by_cases hlabeled : isLabeled outer = true <;> simpa [exitsOf, hlabeled] using ih
      | head | other | label => simpa [exitsOf] using ih

theorem unlabeledContinueTarget_iff : HasTarget ⟨.continue "", frames⟩ ↔ .loop ∈ frames := by
  change (∃ exit ∈ exitsOf frames, stopsAt (.continue "") exit) ↔ _
  simp only [stopsAt, true_or, and_true]
  induction frames with
  | nil => simp [exitsOf]
  | cons frame outer ih =>
      cases frame with
      | loop => simp [exitsOf]
      | «switch» => simpa [exitsOf] using ih
      | block =>
          by_cases hlabeled : isLabeled outer = true <;> simpa [exitsOf, hlabeled] using ih
      | head | other | label => simpa [exitsOf] using ih

end Targets

theorem hasTarget_iff_carried {occurrence : Semantic.Occurrence} (hlegal : occurrence.Legal) :
    HasTarget occurrence ↔ Carried occurrence := by
  obtain ⟨control, frames⟩ := occurrence
  cases control with
  | label => exact Iff.rfl
  | «break» label =>
      rw [Semantic.Occurrence.Legal] at hlegal
      by_cases hlabel : label = ""
      · subst hlabel
        rw [if_pos rfl] at hlegal
        exact iff_of_true (unlabeledBreakTarget_iff.mpr hlegal) fun hlabel => absurd rfl hlabel
      · exact (breakTarget_iff hlabel).trans ⟨fun hcarries _ => hcarries, fun hcarried =>
          hcarried hlabel⟩
  | «continue» label =>
      rw [Semantic.Occurrence.Legal] at hlegal
      by_cases hlabel : label = ""
      · subst hlabel
        rw [if_pos rfl] at hlegal
        exact iff_of_true (unlabeledContinueTarget_iff.mpr hlegal) fun hlabel => absurd rfl hlabel
      · exact (continueTarget_iff hlabel).trans ⟨fun hcarries _ => hcarries, fun hcarried =>
          hcarried hlabel⟩

/-- Every label and every jump of the body. -/
abbrev Throughout (check : Semantic.Occurrence → Prop) (statements : List Statement) : Prop :=
  ∀ occurrence ∈ allOccurrences [] statements, check occurrence

/-- The checks of the analyzer accept the labels and jumps of a function body. -/
def Accepted (statements : List Statement) : Prop :=
  Semantic.analyzeStatements Semantic.rootContext statements = .ok ()

theorem accepted_iff (statements : List Statement) :
    Accepted statements ↔
      Throughout Semantic.Occurrence.Legal statements ∧
        Throughout Semantic.Occurrence.Direct statements := by
  rw [Accepted, Semantic.analyzeStatements_root_iff]
  exact forall₂_and

/-- The analyzer accepts exactly the bodies whose jumps are legal and the emitter finds a target for
each accepted jump, if and only if a legal body has no continue through a stacked label and no
labelled jump without an exit that has its label. The exits are those the emitter has: where a run
comes to a jump, and at all jumps when it ends well. -/
theorem body_jumps_iff (statements : List Statement) :
    (((Accepted statements ↔ Throughout Semantic.Occurrence.Legal statements) ∧
        (Accepted statements → Throughout HasTarget statements)) ↔
      (Throughout Semantic.Occurrence.Legal statements →
        Throughout Semantic.Occurrence.Direct statements ∧ Throughout Carried statements)) ∧
    ∀ emitter, Surrounded [] emitter →
      (∀ control target, Reaches (.statements statements) emitter control target →
        ∃ frames, ⟨control, frames⟩ ∈ allOccurrences [] statements ∧
          (finds control target ↔ HasTarget ⟨control, frames⟩)) ∧
      ∀ emitted, emitStatements statements emitter = .ok ((), emitted) →
        Throughout HasTarget statements := by
  refine ⟨?_, fun emitter hsurrounded => ⟨fun control target hreaches => ?_,
    fun emitted hrun => ?_⟩⟩
  · rw [accepted_iff]
    constructor
    · rintro ⟨hsame, hfound⟩ hlegal
      have haccepted := hsame.mpr hlegal
      refine ⟨haccepted.2, fun occurrence hoccurrence => ?_⟩
      exact (hasTarget_iff_carried (hlegal occurrence hoccurrence)).mp
        (hfound haccepted occurrence hoccurrence)
    · intro hbody
      refine ⟨⟨And.left, fun hlegal => ⟨hlegal, (hbody hlegal).1⟩⟩, ?_⟩
      rintro ⟨hlegal, -⟩ occurrence hoccurrence
      exact (hasTarget_iff_carried (hlegal occurrence hoccurrence)).mpr
        ((hbody hlegal).2 occurrence hoccurrence)
  · obtain ⟨frames, hmem, htarget⟩ := hreaches.stands hsurrounded rfl
    exact ⟨frames, hmem, htarget.finds_iff control⟩
  · obtain ⟨lines, ⟨hemitted⟩⟩ := emitStatements_derives _ _ _ hrun
    exact hemitted.hasTarget hsurrounded rfl

/-- `A: B: while (true) { continue A; }` -/
def stackedContinue : List Statement :=
  [.labeledStatement ⟨1, 1⟩ "A" (.labeledStatement ⟨1, 4⟩ "B"
    (.whileStatement ⟨1, 7⟩ (.booleanLiteral ⟨1, 14⟩ true) [.continueStatement ⟨1, 22⟩ "A"]))]

/-- `A: if (true) { break A; }` -/
def labeledBranch : List Statement :=
  [.labeledStatement ⟨1, 1⟩ "A" (.ifStatement ⟨1, 4⟩ (.booleanLiteral ⟨1, 8⟩ true)
    [.breakStatement ⟨1, 16⟩ "A"] [])]

def failureOf {α : Type} : Except EmitError α → Option EmitError
  | .error error => some error
  | .ok _ => none

/-- The legal continue is refused, and the emitter fails at the accepted break. -/
theorem stackedContinue_labeledBranch :
    (Throughout Semantic.Occurrence.Legal stackedContinue ∧
      Semantic.analyzeStatements Semantic.rootContext stackedContinue =
        .error ⟨⟨1, 22⟩, "continue target A is not a loop"⟩) ∧
    Throughout Semantic.Occurrence.Legal labeledBranch ∧ Accepted labeledBranch ∧
      ¬Throughout HasTarget labeledBranch ∧
      emitStatements labeledBranch newStatementEmitter =
        .error ⟨"runtime break has no enclosing label A", some ⟨1, 16⟩⟩ := by
  have hlegal : Throughout Semantic.Occurrence.Legal stackedContinue := by
    simp [Throughout, stackedContinue, allOccurrences, Semantic.occurrences,
      Semantic.Occurrence.Legal, labelNames,
      Semantic.inLabelSet, Semantic.labelSet, Semantic.Frame.isLoop]
  have hbranch : Throughout Semantic.Occurrence.Legal labeledBranch := by
    simp [Throughout, labeledBranch, allOccurrences, Semantic.occurrences,
      Semantic.Occurrence.Legal, labelNames]
  have htarget : ¬Throughout HasTarget labeledBranch := by
    intro hfound
    obtain ⟨_, hexit, -⟩ := hfound ⟨.break "A", [.other, .label "A"]⟩
      (by simp [labeledBranch, allOccurrences, Semantic.occurrences])
    cases hexit
  have hfails : failureOf (emitStatements labeledBranch newStatementEmitter) =
      some ⟨"runtime break has no enclosing label A", some ⟨1, 16⟩⟩ := by decide +kernel
  refine ⟨⟨hlegal, by decide +kernel⟩, hbranch, by unfold Accepted; decide +kernel, htarget, ?_⟩
  cases hrun : emitStatements labeledBranch newStatementEmitter with
  | ok result =>
      rw [hrun] at hfails
      cases hfails
  | error error =>
      rw [hrun] at hfails
      exact congrArg _ (Option.some.inj hfails)

end Jayess.Backend
