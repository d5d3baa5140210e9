import Jayess.Backend.Balanced

/-!
# Where jumps go

The statements around a jump, innermost first, with the labels each one carries; the target the
source means, and the target the emitter finds in its stack of exits.
-/

namespace Jayess.Backend

open StatementEmitter

structure ExitTargets where
  kind : StructuredExitKind
  breakLabel : BlockLabel
  continueLabel : Option BlockLabel

structure Enclosing where
  labels : List String
  exit : Option ExitTargets

namespace Enclosing

def isLoop (enclosing : Enclosing) : Bool := enclosing.exit.any (·.kind = .loop)

def isBreakable (enclosing : Enclosing) : Bool := enclosing.exit.any (·.kind ≠ .block)

def carries (label : String) (enclosing : Enclosing) : Bool := enclosing.labels.contains label

end Enclosing

/-- The end label of the innermost statement that carries the label, or of the innermost loop or
switch. -/
def breakTarget (label : String) (enclosing : List Enclosing) : Option BlockLabel :=
  (enclosing.find? fun statement =>
    if label = "" then statement.isBreakable else statement.carries label).bind fun statement =>
      statement.exit.map (·.breakLabel)

def continueTarget (label : String) (enclosing : List Enclosing) : Option BlockLabel :=
  (enclosing.find? fun statement =>
    statement.isLoop && (label = "" || statement.carries label)).bind fun statement =>
      statement.exit.bind (·.continueLabel)

inductive JumpKind where
  | break | continue
deriving DecidableEq, Repr

structure Jump where
  kind : JumpKind
  label : String
  enclosing : List Enclosing
  lines : List Line

def Jump.target (jump : Jump) : Option BlockLabel :=
  match jump.kind with
  | .break => breakTarget jump.label jump.enclosing
  | .continue => continueTarget jump.label jump.enclosing

/-- The branch emitted for the jump goes where the jump is meant to go. -/
def Jump.Right (jump : Jump) : Prop :=
  ∃ target, jump.target = some target ∧ jump.lines.getLast? = some (.br target)

section Jumps

def Enclosing.plain (labels : List String) : Enclosing := ⟨labels, none⟩

def Enclosing.loop (labels : List String) (targets : LoopLabels) : Enclosing :=
  ⟨labels, some ⟨.loop, targets.endLabel, some targets.continueLabel⟩⟩

def Enclosing.switch (labels : List String) (endLabel : BlockLabel) : Enclosing :=
  ⟨labels, some ⟨.switch, endLabel, none⟩⟩

def Enclosing.block (labels : List String) (endLabel : BlockLabel) : Enclosing :=
  ⟨labels, some ⟨.block, endLabel, none⟩⟩

/-- The jumps in the order in which they are emitted, with the statements around each one. The
labels are those of the labelled statements the part is the body of. -/
def Emitted.jumps {node : Node} {emitter emitted : StatementEmitter} {lines : List Line}
    (enclosing : List Enclosing) (labels : List String) :
    Emitted node emitter lines emitted → List Jump
  | .straight .. => []
  | .exportDecl hdeclaration _ => hdeclaration.jumps (.plain labels :: enclosing) []
  | .block hscoped => hscoped.jumps (.plain labels :: enclosing) []
  | .ifStatement _ hthen helse =>
      hthen.jumps (.plain labels :: enclosing) [] ++ helse.jumps (.plain labels :: enclosing) []
  | @Emitted.loop targets _ _ _ _ _ _ _ _ _ _ _ hbody hupdate _ =>
      hbody.jumps (.loop labels targets :: enclosing) [] ++
        hupdate.jumps (.plain labels :: enclosing) []
  | .whileStatement hloop => hloop.jumps enclosing labels
  | @Emitted.doWhileReturns _ _ _ start _ _ hfirst _ =>
      hfirst.jumps (.loop labels (start.whileLabels "do.while") :: enclosing) []
  | @Emitted.doWhile _ _ _ start _ _ _ _ hfirst _ hloop =>
      hfirst.jumps (.loop labels (start.whileLabels "do.while") :: enclosing) [] ++
        hloop.jumps enclosing labels
  | .forStatement hscoped => hscoped.jumps enclosing labels
  | .forLoop hinit hloop =>
      hinit.jumps (.plain labels :: enclosing) [] ++ hloop.jumps enclosing labels
  | @Emitted.forEach _ stem _ _ _ _ _ _ _ _ iterated _ _ _ _ _ _ _ _ _ _ _ _ _ _ _ _ _ hbody _ _ =>
      hbody.jumps (.loop labels (iterated.whileLabels stem) :: enclosing) []
  | .forInStatement hloop => hloop.jumps enclosing labels
  | .forOfStatement hloop => hloop.jumps enclosing labels
  | @Emitted.switchStatement _ _ cases _ _ _ tested _ _ _ _ _ _ _ _ hcases hdefault _ =>
      hcases.jumps (.switch labels (tested.switchLabels cases.length).endLabel :: enclosing) [] ++
        hdefault.jumps (.switch labels (tested.switchLabels cases.length).endLabel :: enclosing) []
  | .casesNil => []
  | .casesCons hbody hrest => hbody.jumps enclosing [] ++ hrest.jumps enclosing []
  | .checksNil => []
  | .checksCons .. => []
  | .unlabeled hstatement => hstatement.jumps enclosing labels
  | @Emitted.labeledStatement _ label _ _ _ _ _ _ hstatement =>
      hstatement.jumps enclosing (labels ++ [label])
  | @Emitted.labeledBlock _ _ label _ start _ _ _ hblock =>
      hblock.jumps (.block (labels ++ [label])
        (start.blockLabel ("label." ++ label ++ ".end") 0) :: enclosing) []
  | @Emitted.breakStatement _ label exit _ _ fragment _ _ =>
      [⟨.break, label, enclosing, fragment.lines ++ [.br exit.breakLabel]⟩]
  | @Emitted.continueStatement _ label _ target _ _ fragment _ _ _ =>
      [⟨.continue, label, enclosing, fragment.lines ++ [.br target]⟩]
  | .returnStatement .. => []
  | .throwStatement .. => []
  | .tryStatement _ _ _ htry hcatch hfinally =>
      htry.jumps (.plain labels :: enclosing) [] ++ hcatch.jumps (.plain labels :: enclosing) [] ++
        hfinally.jumps (.plain labels :: enclosing) []
  | .uncaught hbody => hbody.jumps enclosing []
  | .caught _ _ hbody => hbody.jumps enclosing []
  | .absent => []
  | .present hnode => hnode.jumps enclosing labels
  | .inScope hnode _ => hnode.jumps enclosing labels
  | .optionalNone => []
  | .optionalSome hstatement => hstatement.jumps enclosing []
  | .statementsNil => []
  | .statementsCons _ hstatement hrest => hstatement.jumps enclosing [] ++ hrest.jumps enclosing []

end Jumps

structure Surrounding where
  labels : List String
  kind : Option StructuredExitKind
deriving DecidableEq

def Enclosing.surrounding (enclosing : Enclosing) : Surrounding :=
  ⟨enclosing.labels, enclosing.exit.map (·.kind)⟩

@[simp] theorem Enclosing.surrounding_plain (labels : List String) :
    (Enclosing.plain labels).surrounding = ⟨labels, none⟩ := rfl

@[simp] theorem Enclosing.surrounding_loop (labels : List String) (targets : LoopLabels) :
    (Enclosing.loop labels targets).surrounding = ⟨labels, some .loop⟩ := rfl

@[simp] theorem Enclosing.surrounding_switch (labels : List String) (endLabel : BlockLabel) :
    (Enclosing.switch labels endLabel).surrounding = ⟨labels, some .switch⟩ := rfl

@[simp] theorem Enclosing.surrounding_block (labels : List String) (endLabel : BlockLabel) :
    (Enclosing.block labels endLabel).surrounding = ⟨labels, some .block⟩ := rfl

def breakResolves (label : String) (surrounding : List Surrounding) : Bool :=
  label = "" || (surrounding.find? fun statement =>
    statement.kind.isSome || statement.labels.contains label).any fun statement =>
      statement.kind.isSome && statement.labels.contains label

def continueResolves (label : String) (surrounding : List Surrounding) : Bool :=
  label = "" || (surrounding.find? fun statement => statement.kind = some .loop).any fun statement =>
    statement.labels.contains label

mutual

/-- Every jump in the statement resolves among the statements around it. The labels are those of the
labelled statements it is the body of. -/
def jumpsResolve (surrounding : List Surrounding) (labels : List String) : Statement → Bool
  | .exportDecl _ declaration _ _ _ _ _ _ =>
      optionJumpsResolve (⟨labels, none⟩ :: surrounding) declaration
  | .block _ statements => allJumpsResolve (⟨labels, none⟩ :: surrounding) statements
  | .ifStatement _ _ consequence alternative =>
      allJumpsResolve (⟨labels, none⟩ :: surrounding) consequence &&
        allJumpsResolve (⟨labels, none⟩ :: surrounding) alternative
  | .whileStatement _ _ body => allJumpsResolve (⟨labels, some .loop⟩ :: surrounding) body
  | .doWhileStatement _ body _ => allJumpsResolve (⟨labels, some .loop⟩ :: surrounding) body
  | .forStatement _ init _ update body =>
      optionJumpsResolve (⟨labels, none⟩ :: surrounding) init &&
        optionJumpsResolve (⟨labels, none⟩ :: surrounding) update &&
        allJumpsResolve (⟨labels, some .loop⟩ :: surrounding) body
  | .forInStatement _ _ _ _ _ body => allJumpsResolve (⟨labels, some .loop⟩ :: surrounding) body
  | .forOfStatement _ _ _ _ _ body _ => allJumpsResolve (⟨labels, some .loop⟩ :: surrounding) body
  | .switchStatement _ _ cases default =>
      casesJumpsResolve (⟨labels, some .switch⟩ :: surrounding) cases &&
        allJumpsResolve (⟨labels, some .switch⟩ :: surrounding) default
  | .labeledStatement _ label (.block pos statements) =>
      if label = "" then jumpsResolve surrounding labels (.block pos statements)
      else allJumpsResolve (⟨labels ++ [label], some .block⟩ :: surrounding) statements
  | .labeledStatement _ label statement =>
      jumpsResolve surrounding (if label = "" then labels else labels ++ [label]) statement
  | .breakStatement _ label => breakResolves label surrounding
  | .continueStatement _ label => continueResolves label surrounding
  | .tryStatement _ tryBody _ catchBody finallyBody =>
      allJumpsResolve (⟨labels, none⟩ :: surrounding) tryBody &&
        allJumpsResolve (⟨labels, none⟩ :: surrounding) catchBody &&
        allJumpsResolve (⟨labels, none⟩ :: surrounding) finallyBody
  | _ => true

def allJumpsResolve (surrounding : List Surrounding) : List Statement → Bool
  | [] => true
  | statement :: rest => jumpsResolve surrounding [] statement && allJumpsResolve surrounding rest

def optionJumpsResolve (surrounding : List Surrounding) : Option Statement → Bool
  | none => true
  | some statement => jumpsResolve surrounding [] statement

def casesJumpsResolve (surrounding : List Surrounding) : List SwitchCase → Bool
  | [] => true
  | ⟨_, consequent⟩ :: rest =>
      allJumpsResolve surrounding consequent && casesJumpsResolve surrounding rest

end

/-- The jumps in a part of the syntax tree resolve. -/
def Node.jumpsResolve (surrounding : List Surrounding) (labels : List String) : Node → Bool
  | .statement jumping => Backend.jumpsResolve surrounding labels jumping
  | .statements list => allJumpsResolve surrounding list
  | .optional option => optionJumpsResolve surrounding option
  | .scoped node => node.jumpsResolve surrounding labels
  | .loop _ _ update body =>
      optionJumpsResolve (⟨labels, none⟩ :: surrounding) update &&
        allJumpsResolve (⟨labels, some .loop⟩ :: surrounding) body
  | .forLoop init _ update body =>
      optionJumpsResolve (⟨labels, none⟩ :: surrounding) init &&
        optionJumpsResolve (⟨labels, none⟩ :: surrounding) update &&
        allJumpsResolve (⟨labels, some .loop⟩ :: surrounding) body
  | .forEach _ _ _ _ _ _ body => allJumpsResolve (⟨labels, some .loop⟩ :: surrounding) body
  | .cases list _ => casesJumpsResolve surrounding list
  | .checks .. => true
  | .caught _ _ _ body => allJumpsResolve surrounding body
  | .part present node => !present || node.jumpsResolve surrounding labels

/-! ## The stack of exits -/

def ExitTargets.indices (targets : ExitTargets) : List Nat :=
  targets.breakLabel.index :: targets.continueLabel.toList.map (·.index)

def Enclosing.indices (enclosing : Enclosing) : List Nat :=
  enclosing.exit.elim [] ExitTargets.indices

/-- The exits of the emitter are the enclosing statements that a jump can leave. An exit carries the
labels of everything around it, and inner labels have the larger numbers. -/
inductive Tracks : List Enclosing → List StructuredExit → Prop
  | nil : Tracks [] []
  | plain {labels : List String} {enclosing : List Enclosing} {exits : List StructuredExit}
      (htracks : Tracks enclosing exits) : Tracks (.plain labels :: enclosing) exits
  | exit {labels : List String} {enclosing : List Enclosing} {exits : List StructuredExit}
      {exit : StructuredExit} (htracks : Tracks enclosing exits)
      (hcontinue : exit.kind = .loop → exit.continueLabel.isSome)
      (hlabels : ∀ label, label ∈ exit.labels ↔
        label ∈ labels ∨ ∃ statement ∈ enclosing, label ∈ statement.labels)
      (hindices : ∀ statement ∈ enclosing, ∀ outer ∈ statement.indices,
        ∀ inner ∈ ExitTargets.indices ⟨exit.kind, exit.breakLabel, exit.continueLabel⟩,
          outer < inner) :
      Tracks (⟨labels, some ⟨exit.kind, exit.breakLabel, exit.continueLabel⟩⟩ :: enclosing)
        (exit :: exits)

section Tracks

variable {enclosing : List Enclosing} {exits : List StructuredExit} {label : String}
  {exit : StructuredExit}

theorem Tracks.carried (htracks : Tracks enclosing exits) (hexit : exit ∈ exits)
    (hlabel : label ∈ exit.labels) : ∃ statement ∈ enclosing, label ∈ statement.labels := by
  induction htracks with
  | nil => simp at hexit
  | plain _ ih =>
      obtain ⟨statement, hmem, hcarries⟩ := ih hexit
      exact ⟨statement, List.mem_cons_of_mem _ hmem, hcarries⟩
  | exit _ _ hlabels _ ih =>
      rcases List.mem_cons.mp hexit with rfl | hexit
      · rcases (hlabels label).mp hlabel with hown | ⟨statement, hmem, hcarries⟩
        · exact ⟨_, List.mem_cons_self, hown⟩
        · exact ⟨statement, List.mem_cons_of_mem _ hmem, hcarries⟩
      · obtain ⟨statement, hmem, hcarries⟩ := ih hexit
        exact ⟨statement, List.mem_cons_of_mem _ hmem, hcarries⟩

theorem Tracks.find?_inherited {labels : List String} {inner : StructuredExit}
    {chosen : StructuredExit → Bool} (htracks : Tracks enclosing exits)
    (hlabels : label ∈ inner.labels ↔
      label ∈ labels ∨ ∃ statement ∈ enclosing, label ∈ statement.labels)
    (hchosen : label ∈ inner.labels → chosen inner = true) (hcarries : label ∈ exit.labels)
    (hfind : (inner :: exits).find? chosen = some exit) : exit = inner := by
  have hinner : label ∈ inner.labels := by
    rcases List.mem_cons.mp (List.mem_of_find?_eq_some hfind) with rfl | hmem
    · exact hcarries
    · exact hlabels.mpr (.inr (htracks.carried hmem hcarries))
  rw [List.find?_cons_of_pos (hchosen hinner)] at hfind
  exact (Option.some.inj hfind).symm

variable {target : BlockLabel}

theorem breakTarget_mem (htarget : breakTarget label enclosing = some target) :
    ∃ statement ∈ enclosing, target.index ∈ statement.indices := by
  obtain ⟨statement, hfind, hexit⟩ := Option.bind_eq_some_iff.mp htarget
  obtain ⟨targets, hsome, rfl⟩ := Option.map_eq_some_iff.mp hexit
  refine ⟨statement, List.mem_of_find?_eq_some hfind, ?_⟩
  rw [Enclosing.indices, hsome]
  exact List.mem_cons_self

theorem continueTarget_mem (htarget : continueTarget label enclosing = some target) :
    ∃ statement ∈ enclosing, target.index ∈ statement.indices := by
  obtain ⟨statement, hfind, hexit⟩ := Option.bind_eq_some_iff.mp htarget
  obtain ⟨targets, hsome, hcontinue⟩ := Option.bind_eq_some_iff.mp hexit
  refine ⟨statement, List.mem_of_find?_eq_some hfind, ?_⟩
  rw [Enclosing.indices, hsome]
  refine List.mem_cons_of_mem _ ?_
  simp [hcontinue]

theorem Tracks.breakTarget_iff (htracks : Tracks enclosing exits)
    (hfind : exits.find? (·.breaks label) = some exit) :
    breakTarget label enclosing = some exit.breakLabel ↔
      breakResolves label (enclosing.map (·.surrounding)) = true := by
  by_cases hlabel : label = ""
  · subst hlabel
    simp only [breakResolves, decide_true, Bool.true_or, iff_true]
    induction htracks with
    | nil => simp at hfind
    | plain _ ih => simpa [breakTarget, Enclosing.plain, Enclosing.isBreakable] using ih hfind
    | @exit labels enclosing exits inner _ _ _ _ ih =>
        by_cases hkind : inner.kind = .block
        · rw [List.find?_cons_of_neg (by simp [StructuredExit.breaks, hkind])] at hfind
          simpa [breakTarget, Enclosing.isBreakable, hkind] using ih hfind
        · rw [List.find?_cons_of_pos (by simp [StructuredExit.breaks, hkind])] at hfind
          obtain rfl := Option.some.inj hfind
          simp [breakTarget, Enclosing.isBreakable, hkind]
  · have hcarries : ∀ statement : Enclosing,
        (if label = "" then statement.isBreakable else statement.carries label) =
          statement.labels.contains label := fun statement => if_neg hlabel
    simp only [breakResolves, hlabel, decide_false, Bool.false_or]
    induction htracks with
    | nil => simp at hfind
    | @plain labels enclosing exits htracks ih =>
        by_cases hown : label ∈ labels
        · simp [breakTarget, hcarries, Enclosing.plain, Enclosing.surrounding, hown]
        · simpa [breakTarget, hcarries, Enclosing.plain, Enclosing.surrounding, hown] using ih hfind
    | @exit labels enclosing exits inner htracks _ hlabels hindices ih =>
        by_cases hown : label ∈ labels
        · have hbreaks : inner.breaks label = true := by
            simp [StructuredExit.breaks, hlabel, StructuredExit.hasLabel, (hlabels label).mpr, hown]
          rw [List.find?_cons_of_pos hbreaks] at hfind
          obtain rfl := Option.some.inj hfind
          simp [breakTarget, hcarries, Enclosing.surrounding, hown]
        · -- the innermost exit does not carry the label, so the jump does not resolve
          simp only [List.map_cons, Enclosing.surrounding, Option.map_some, Option.isSome_some,
            Bool.true_or, List.find?_cons_of_pos, Option.any_some, Bool.true_and]
          simp only [List.contains_eq_mem, hown, decide_false, Bool.false_eq_true, iff_false]
          have hbreaks : ∀ found : StructuredExit, found.breaks label = true ↔ label ∈ found.labels := by
            simp [StructuredExit.breaks, hlabel, StructuredExit.hasLabel]
          obtain rfl := htracks.find?_inherited (hlabels label) (hbreaks _).mpr
            ((hbreaks exit).mp (List.find?_some hfind)) hfind
          intro htarget
          have htarget' : breakTarget label enclosing = some exit.breakLabel := by
            simpa [breakTarget, hcarries, hown] using htarget
          obtain ⟨statement, hmem, hindex⟩ := breakTarget_mem htarget'
          exact lt_irrefl _ (hindices statement hmem _ hindex _ List.mem_cons_self)

theorem Tracks.continueTarget_iff (htracks : Tracks enclosing exits)
    (hfind : exits.find? (·.continues label) = some exit)
    (htarget : exit.continueLabel = some target) :
    continueTarget label enclosing = some target ↔
      continueResolves label (enclosing.map (·.surrounding)) = true := by
  induction htracks with
  | nil => simp at hfind
  | @plain labels enclosing exits htracks ih =>
      simpa [continueTarget, continueResolves, Enclosing.plain, Enclosing.isLoop,
        Enclosing.surrounding] using ih hfind
  | @exit labels enclosing exits inner htracks hcontinue hlabels hindices ih =>
      by_cases hkind : inner.kind = .loop
      · by_cases hlabel : label = "" ∨ label ∈ labels
        · have hcontinues : inner.continues label = true := by
            rcases hlabel with hlabel | hlabel <;>
              simp [StructuredExit.continues, StructuredExit.hasLabel, hkind, hcontinue hkind,
                (hlabels label).mpr, hlabel]
          rw [List.find?_cons_of_pos hcontinues] at hfind
          obtain rfl := Option.some.inj hfind
          simp [continueTarget, continueResolves, Enclosing.isLoop, Enclosing.surrounding,
            Enclosing.carries, hkind, hlabel, htarget]
        · -- the innermost loop does not carry the label, so the jump does not resolve
          obtain ⟨hempty, hown⟩ := not_or.mp hlabel
          have hresolves : continueResolves label
              (Enclosing.surrounding ⟨labels, some ⟨inner.kind, inner.breakLabel,
                inner.continueLabel⟩⟩ :: enclosing.map (·.surrounding)) = false := by
            simp [continueResolves, Enclosing.surrounding, hkind, hempty, hown]
          rw [List.map_cons, hresolves]
          simp only [Bool.false_eq_true, iff_false]
          have hcontinues : label ∈ inner.labels → inner.continues label = true := by
            intro hinner
            simp [hinner, StructuredExit.continues, StructuredExit.hasLabel, hkind, hcontinue hkind]
          have hcarries : label ∈ exit.labels := by
            have hfound := List.find?_some hfind
            simp only [StructuredExit.continues, StructuredExit.hasLabel, hempty, decide_false,
              Bool.false_or, Bool.and_eq_true, List.contains_eq_mem, decide_eq_true_eq] at hfound
            exact hfound.1.1
          obtain rfl := htracks.find?_inherited (hlabels label) hcontinues hcarries hfind
          intro hmeant
          have hmeant' : continueTarget label enclosing = some target := by
            simpa [continueTarget, Enclosing.isLoop, Enclosing.carries, hempty, hown]
              using hmeant
          obtain ⟨statement, hmem, hindex⟩ := continueTarget_mem hmeant'
          refine lt_irrefl _ (hindices statement hmem _ hindex target.index ?_)
          simp [ExitTargets.indices, htarget]
      · rw [List.find?_cons_of_neg (by simp [StructuredExit.continues, hkind])] at hfind
        simpa [continueTarget, continueResolves, Enclosing.isLoop, Enclosing.surrounding, hkind]
          using ih hfind

end Tracks

/-- The state of the emitter is that of a part with the enclosing statements around it. -/
structure Fits (enclosing : List Enclosing) (labels : List String) (emitter : StatementEmitter) :
    Prop where
  tracks : Tracks enclosing emitter.exits
  pending : ∀ label, label ∈ emitter.pendingLabels ↔
    label ∈ labels ∨ ∃ statement ∈ enclosing, label ∈ statement.labels
  below : ∀ statement ∈ enclosing, ∀ index ∈ statement.indices,
    index < emitter.expressions.blockIndex

structure FreshTargets (enclosing : List Enclosing) (block : Nat) (targets : ExitTargets) :
    Prop where
  above : ∀ statement ∈ enclosing, ∀ outer ∈ statement.indices, ∀ inner ∈ targets.indices,
    outer < inner
  below : ∀ index ∈ targets.indices, index < block

def Node.Entered (enclosing : List Enclosing) (labels : List String) (block : Nat) : Node → Prop
  | .loop targets _ _ _ => FreshTargets enclosing block
      ⟨.loop, targets.endLabel, some targets.continueLabel⟩
  | .statement _ | .forLoop .. | .forEach .. => True
  | .scoped node | .part _ node => node.Entered enclosing labels block
  | .statements _ | .optional _ | .cases .. | .checks .. | .caught .. => labels = []

theorem FreshTargets.mono {enclosing : List Enclosing} {block block' : Nat} {targets : ExitTargets}
    (hfresh : FreshTargets enclosing block targets) (hle : block ≤ block') :
    FreshTargets enclosing block' targets :=
  ⟨hfresh.above, fun index hindex => (hfresh.below index hindex).trans_le hle⟩

namespace Fits

variable {enclosing : List Enclosing} {labels : List String} {emitter emitted : StatementEmitter}

theorem of_balanced (hfits : Fits enclosing labels emitter) (hbalanced : Balanced emitter emitted) :
    Fits enclosing labels emitted where
  tracks := hbalanced.exits ▸ hfits.tracks
  pending := hbalanced.pendingLabels ▸ hfits.pending
  below statement hmem index hindex :=
    (hfits.below statement hmem index hindex).trans_le hbalanced.block_le

theorem cleared (hfits : Fits enclosing labels emitter) : Fits enclosing labels emitter.cleared :=
  ⟨hfits.tracks, hfits.pending, hfits.below⟩

theorem entered (hfits : Fits enclosing labels emitter) : Fits enclosing labels emitter.entered :=
  ⟨hfits.tracks, hfits.pending, hfits.below⟩

theorem pushHandler (hfits : Fits enclosing labels emitter) {handler : BlockLabel} :
    Fits enclosing labels (emitter.pushHandler handler) :=
  ⟨hfits.tracks, hfits.pending, hfits.below⟩

theorem plain (hfits : Fits enclosing labels emitter) :
    Fits (.plain labels :: enclosing) [] emitter where
  tracks := .plain hfits.tracks
  pending label := by simp [hfits.pending, Enclosing.plain]
  below := by simpa [Enclosing.indices, Enclosing.plain] using hfits.below

theorem push {kind : StructuredExitKind} {breakLabel : BlockLabel}
    {continueLabel : Option BlockLabel} (hfits : Fits enclosing labels emitter)
    (hcontinue : kind = .loop → continueLabel.isSome)
    (hfresh : FreshTargets enclosing emitter.expressions.blockIndex
      ⟨kind, breakLabel, continueLabel⟩) :
    Fits (⟨labels, some ⟨kind, breakLabel, continueLabel⟩⟩ :: enclosing) []
      (emitter.pushExit kind breakLabel continueLabel) where
  tracks := @Tracks.exit labels enclosing emitter.exits
    ⟨kind, emitter.pendingLabels, breakLabel, continueLabel, emitter.cleanupScopes.length⟩
    hfits.tracks hcontinue hfits.pending hfresh.above
  pending label := by simp [hfits.pending]
  below := by
    rw [List.forall_mem_cons]
    exact ⟨hfresh.below, hfits.below⟩

theorem pushLabel (hfits : Fits enclosing labels emitter) (label : String) :
    Fits enclosing (labels ++ [label]) (emitter.pushLabel label) where
  tracks := hfits.tracks
  pending other := by
    rw [pushLabel_pendingLabels, List.mem_append, List.mem_append, hfits.pending]
    exact or_right_comm
  below := hfits.below

theorem fresh (hfits : Fits enclosing labels emitter) {targets : ExitTargets} {count : Nat}
    (htargets : ∀ index ∈ targets.indices, emitter.expressions.blockIndex ≤ index ∧
      index < emitter.expressions.blockIndex + count) :
    FreshTargets enclosing (emitter.expressions.blockIndex + count) targets where
  above statement hmem outer houter inner hinner :=
    (hfits.below statement hmem outer houter).trans_le (htargets inner hinner).1
  below index hindex := (htargets index hindex).2

theorem fresh_while (hfits : Fits enclosing labels emitter) (stem : String) :
    FreshTargets enclosing (emitter.expressions.blockIndex + 3)
      ⟨.loop, (emitter.whileLabels stem).endLabel, some (emitter.whileLabels stem).continueLabel⟩ :=
  hfits.fresh (by simp [ExitTargets.indices, whileLabels, blockLabel])

theorem fresh_for (hfits : Fits enclosing labels emitter) :
    FreshTargets enclosing (emitter.expressions.blockIndex + 4)
      ⟨.loop, emitter.forLabels.endLabel, some emitter.forLabels.continueLabel⟩ :=
  hfits.fresh (by simp [ExitTargets.indices, forLabels, blockLabel])

theorem fresh_end (hfits : Fits enclosing labels emitter) (kind : StructuredExitKind) (stem : String)
    {count : Nat} (hcount : 0 < count) :
    FreshTargets enclosing (emitter.expressions.blockIndex + count)
      ⟨kind, emitter.blockLabel stem 0, none⟩ :=
  hfits.fresh (by simp [ExitTargets.indices, blockLabel, hcount])

end Fits

/-- The jumps emitted for a part of the syntax tree go where they are meant to go if and only if
they resolve. -/
theorem Emitted.jumps_right_iff {node : Node} {emitter emitted : StatementEmitter}
    {lines : List Line} (hemitted : Emitted node emitter lines emitted)
    (enclosing : List Enclosing) (labels : List String) (hfits : Fits enclosing labels emitter)
    (hentered : node.Entered enclosing labels emitter.expressions.blockIndex) :
    (∀ jump ∈ hemitted.jumps enclosing labels, jump.Right) ↔
      node.jumpsResolve (enclosing.map (·.surrounding)) labels = true := by
  induction hemitted generalizing enclosing labels with
  | @straight statement _ _ _ hstraight _ =>
      have hresolves : jumpsResolve (enclosing.map (·.surrounding)) labels statement = true := by
        cases statement <;> simp_all [isStraight, jumpsResolve]
      simp [jumps, Node.jumpsResolve, hresolves]
  | exportDecl _ _ ih =>
      simpa [jumps, Node.jumpsResolve, jumpsResolve] using ih _ _ hfits.plain rfl
  | block _ ih => simpa [jumps, Node.jumpsResolve, jumpsResolve] using ih _ _ hfits.plain rfl
  | ifStatement hcondition hthen _ ihthen ihelse =>
      have htested := hfits.of_balanced (hcondition.balanced.trans (balanced_takeLabels _ 3))
      have hresumed := htested.of_balanced hthen.balanced.resumed
      simp only [jumps, List.forall_mem_append, ihthen _ _ htested.plain.cleared rfl,
        ihelse _ _ hresumed.plain.cleared rfl]
      simp [Node.jumpsResolve, jumpsResolve]
  | loop hbody _ _ ihbody ihupdate =>
      have hpushed := hfits.push (fun _ => rfl) hentered
      have hresumed := hfits.of_balanced hbody.balanced.resumed.popExit
      simp only [jumps, List.forall_mem_append, ihupdate _ _ hresumed.plain.cleared rfl]
      rw [Enclosing.loop, ihbody _ _ hpushed.cleared rfl]
      simp only [Node.jumpsResolve, List.map_cons, Enclosing.surrounding_plain, Bool.and_eq_true]
      exact and_comm
  | whileStatement _ ih =>
      have htaken := hfits.of_balanced (balanced_takeLabels _ 3)
      simpa [jumps, Node.jumpsResolve, jumpsResolve, optionJumpsResolve] using
        ih _ _ htaken (hfits.fresh_while "while")
  | doWhileReturns _ _ ih =>
      have hpushed := (hfits.of_balanced (balanced_takeLabels _ 3)).push (fun _ => rfl)
        (hfits.fresh_while "do.while")
      simpa [jumps, Node.jumpsResolve, jumpsResolve, Enclosing.loop, Enclosing.surrounding] using
        ih _ _ hpushed rfl
  | doWhile hfirst _ _ ihfirst ihloop =>
      have hfresh := hfits.fresh_while "do.while"
      have htaken := hfits.of_balanced (balanced_takeLabels _ 3)
      have hpushed := htaken.push (fun _ => rfl) hfresh
      have hagain := htaken.of_balanced hfirst.balanced.popExit
      have hloop := ihloop enclosing labels ⟨hagain.tracks, hagain.pending, hagain.below⟩
        (hfresh.mono hfirst.balanced.block_le)
      simp only [jumps, List.forall_mem_append, hloop]
      rw [Enclosing.loop, ihfirst _ _ hpushed rfl]
      simp [Node.jumpsResolve, jumpsResolve, Enclosing.surrounding, optionJumpsResolve]
  | forStatement _ ih =>
      simpa [jumps, Node.jumpsResolve, jumpsResolve] using ih _ _ hfits trivial
  | forLoop hinit _ ihinit ihloop =>
      have hinitialised := hfits.of_balanced hinit.balanced
      have htaken := hinitialised.of_balanced (balanced_takeLabels _ 4)
      have hfresh := hinitialised.fresh_for
      simp only [jumps, List.forall_mem_append, ihinit _ _ hfits.plain rfl,
        ihloop _ _ htaken hfresh]
      simp [Node.jumpsResolve, and_assoc]
  | @forEach _ stem _ _ _ _ _ _ _ _ _ _ _ _ _ _ _ _ _ _ _ _ _ _ _ hsource hprepare hiterator _ _ _
      ih =>
      have hhead := (hsource.balanced.trans hprepare.balanced).trans hiterator.balanced
      have hiterated := hfits.of_balanced hhead
      have hpushed := (hiterated.of_balanced (balanced_takeLabels _ 3)).push (fun _ => rfl)
        (hiterated.fresh_while stem)
      simpa [jumps, Node.jumpsResolve, Enclosing.loop, Enclosing.surrounding] using
        ih _ _ hpushed.cleared rfl
  | forInStatement _ ih | forOfStatement _ ih =>
      simpa [jumps, Node.jumpsResolve, jumpsResolve] using ih _ _ hfits trivial
  | @switchStatement _ _ cases _ _ _ tested _ _ _ _ _ _ _ hdiscriminant hcases _ _ ihcases
      ihdefault _ =>
      have htested := hfits.of_balanced hdiscriminant.balanced
      have hcount : 0 < 2 + 2 * cases.length := by omega
      have hfresh := htested.fresh_end .switch "switch.end" hcount
      have hpushed : Fits (.switch labels (tested.switchLabels cases.length).endLabel :: enclosing)
          [] _ := (htested.of_balanced (balanced_takeLabels _ _)).push (by simp) hfresh
      have hdefault := hpushed.of_balanced hcases.balanced
      simp only [jumps, List.forall_mem_append, ihcases _ _ hpushed rfl,
        ihdefault _ _ hdefault.cleared rfl]
      simp [Node.jumpsResolve, jumpsResolve]
  | casesNil => simp [jumps, Node.jumpsResolve, casesJumpsResolve]
  | casesCons hbody _ ihbody ihrest =>
      obtain rfl : labels = [] := hentered
      have hrest := hfits.of_balanced hbody.balanced.resumed
      simp only [jumps, List.forall_mem_append, ihbody _ _ hfits.cleared rfl, ihrest _ _ hrest rfl]
      simp [Node.jumpsResolve, casesJumpsResolve]
  | checksNil | checksCons => simp [jumps, Node.jumpsResolve]
  | @unlabeled pos statement _ _ _ _ ih =>
      have hresolves : jumpsResolve (enclosing.map (·.surrounding)) labels
          (.labeledStatement pos "" statement) =
          jumpsResolve (enclosing.map (·.surrounding)) labels statement := by
        cases statement <;> simp [jumpsResolve]
      simpa [jumps, Node.jumpsResolve, hresolves] using ih _ _ hfits trivial
  | @labeledStatement _ label _ _ _ _ hlabel hblock _ ih =>
      simp only [jumps, ih _ _ (hfits.pushLabel label) trivial, Node.jumpsResolve]
      rw [jumpsResolve, if_neg hlabel]
      exact hblock
  | @labeledBlock _ _ label _ start _ _ hlabel _ ih =>
      have hfresh := hfits.fresh_end .block ("label." ++ label ++ ".end") Nat.one_pos
      have hlabeled := (hfits.of_balanced (balanced_takeLabels _ 1)).pushLabel label
      have hpushed : Fits (.block (labels ++ [label])
          (start.blockLabel ("label." ++ label ++ ".end") 0) :: enclosing) [] _ :=
        hlabeled.push (by simp) hfresh
      simp only [jumps, ih _ _ hpushed rfl]
      simp [Node.jumpsResolve, jumpsResolve, hlabel]
  | breakStatement hexit _ =>
      simp [jumps, Node.jumpsResolve, jumpsResolve, Jump.Right, Jump.target,
        ← hfits.tracks.breakTarget_iff hexit]
  | continueStatement hexit htarget _ =>
      simp [jumps, Node.jumpsResolve, jumpsResolve, Jump.Right, Jump.target,
        ← hfits.tracks.continueTarget_iff hexit htarget]
  | returnStatement | throwStatement => simp [jumps, Node.jumpsResolve, jumpsResolve]
  | tryStatement _ _ hslot htry hcatch _ ihtry ihcatch ihfinally =>
      have hslotted := hfits.of_balanced ((balanced_takeLabels _ _).trans hslot.balanced)
      have htried := hslotted.of_balanced htry.balanced.resumed.popHandler
      have hcaught := htried.of_balanced hcatch.balanced.resumed
      have habsent : ∀ body : List Statement, ∀ surrounding : List Surrounding,
          (!(!body.isEmpty) || allJumpsResolve surrounding body) =
            allJumpsResolve surrounding body := by
        intro body surrounding
        cases body <;> simp [allJumpsResolve]
      simp only [jumps, List.forall_mem_append, ihtry _ _ hslotted.plain.pushHandler.cleared rfl,
        ihcatch _ _ htried.plain.cleared rfl, ihfinally _ _ hcaught.plain.cleared rfl]
      simp only [Node.jumpsResolve, jumpsResolve, habsent, Bool.and_eq_true]
      rfl
  | uncaught _ ih =>
      obtain rfl : labels = [] := hentered
      simpa [jumps, Node.jumpsResolve] using ih _ [] hfits rfl
  | caught hdeclare hbind _ ih =>
      obtain rfl : labels = [] := hentered
      have hloaded := (balanced_takeValue _).trans ((balanced_append _ _).trans hbind.balanced)
      have hbound := hfits.of_balanced (hdeclare.balanced.trans hloaded)
      simpa [jumps, Node.jumpsResolve] using ih _ [] hbound rfl
  | absent => simp [jumps, Node.jumpsResolve]
  | present _ ih => simpa [jumps, Node.jumpsResolve] using ih _ _ hfits hentered
  | inScope _ _ ih => simpa [jumps, Node.jumpsResolve] using ih _ _ hfits.entered hentered
  | optionalNone => simp [jumps, Node.jumpsResolve, optionJumpsResolve]
  | optionalSome _ ih =>
      obtain rfl : labels = [] := hentered
      simpa [jumps, Node.jumpsResolve, optionJumpsResolve] using ih _ [] hfits trivial
  | statementsNil => simp [jumps, Node.jumpsResolve, allJumpsResolve]
  | statementsCons _ hstatement _ ihstatement ihrest =>
      obtain rfl : labels = [] := hentered
      have hrest := hfits.of_balanced hstatement.balanced
      simp only [jumps, List.forall_mem_append, ihstatement _ [] hfits trivial,
        ihrest _ [] hrest rfl]
      simp [Node.jumpsResolve, allJumpsResolve]

theorem fits_outermost {emitter : StatementEmitter} (hexits : emitter.exits = [])
    (hpending : emitter.pendingLabels = []) : Fits [] [] emitter where
  tracks := hexits ▸ .nil
  pending label := by simp [hpending]
  below := by simp

/-- The branches emitted for the jumps of a statement list go where the jumps are meant to go if and
only if every jump resolves. -/
theorem emitStatements_jumps_iff (statements : List Statement) (emitter emitted : StatementEmitter)
    (hexits : emitter.exits = []) (hpending : emitter.pendingLabels = [])
    (hrun : emitStatements statements emitter = .ok ((), emitted)) :
    (∃ lines, Nonempty (Emitted (.statements statements) emitter lines emitted)) ∧
      ∀ (lines : List Line) (hemitted : Emitted (.statements statements) emitter lines emitted),
        emitted.body = emitter.body ++ lines ∧
          ((∀ jump ∈ hemitted.jumps [] [], jump.Right) ↔ allJumpsResolve [] statements = true) := by
  refine ⟨emitStatements_derives statements emitter emitted hrun, fun lines hemitted => ?_⟩
  have hfits := fits_outermost hexits hpending
  exact ⟨hemitted.body, hemitted.jumps_right_iff [] [] hfits rfl⟩

/-- `L: while (true) { break L; }`. -/
def breakLabeledLoop : List Statement :=
  [.labeledStatement ⟨1, 1⟩ "L" (.whileStatement ⟨1, 4⟩ (.booleanLiteral ⟨1, 11⟩ true)
    [.breakStatement ⟨1, 19⟩ "L"])]

theorem breakLabeledLoop_jumps_iff : ∃ emitted,
    emitStatements breakLabeledLoop newStatementEmitter = .ok ((), emitted) ∧
      (∃ lines, Nonempty (Emitted (.statements breakLabeledLoop) newStatementEmitter lines
        emitted)) ∧
      ∀ (lines : List Line)
        (hemitted : Emitted (.statements breakLabeledLoop) newStatementEmitter lines emitted),
        emitted.body = newStatementEmitter.body ++ lines ∧
          ((∀ jump ∈ hemitted.jumps [] [], jump.Right) ↔
            allJumpsResolve [] breakLabeledLoop = true) := by
  obtain ⟨_, emitted, hrun, -⟩ := exists_ok_of_check
    (emitStatements breakLabeledLoop newStatementEmitter) (fun _ => true) (by decide +kernel)
  exact ⟨emitted, hrun, emitStatements_jumps_iff _ _ _ rfl rfl hrun⟩

/-- `L: while (true) { while (true) { break L; } }`: the inner loop copies the pending label, so the
break leaves the inner loop only. -/
def breakOuterLoop : List Statement :=
  [.labeledStatement ⟨1, 1⟩ "L" (.whileStatement ⟨1, 4⟩ (.booleanLiteral ⟨1, 11⟩ true)
    [.whileStatement ⟨1, 19⟩ (.booleanLiteral ⟨1, 26⟩ true) [.breakStatement ⟨1, 34⟩ "L"]])]

theorem breakOuterLoop_misdirected : ∃ emitted lines,
    ∃ hemitted : Emitted (.statements breakOuterLoop) newStatementEmitter lines emitted,
      emitStatements breakOuterLoop newStatementEmitter = .ok ((), emitted) ∧
        ¬ ∀ jump ∈ hemitted.jumps [] [], jump.Right := by
  obtain ⟨_, emitted, hrun, -⟩ := exists_ok_of_check
    (emitStatements breakOuterLoop newStatementEmitter) (fun _ => true) (by decide +kernel)
  obtain ⟨lines, ⟨hemitted⟩⟩ := emitStatements_derives _ _ _ hrun
  refine ⟨emitted, lines, hemitted, hrun, ?_⟩
  rw [hemitted.jumps_right_iff [] [] (fits_outermost rfl rfl) rfl]
  decide +kernel

end Jayess.Backend
