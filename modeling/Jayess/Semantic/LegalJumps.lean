import Mathlib.Data.List.Basic
import Mathlib.Data.List.Nodup
import Jayess.Semantic.ControlContext

/-!
# Legal jumps

The labels and jumps of a function body with the statements around each one, which of them the
language allows, and which of them the analyzer accepts.
-/

namespace Jayess.Semantic

/-- A statement around another one. The head of a for statement is a part of the loop, but it is not
inside of it. -/
inductive Frame where
  | loop | switch | block | head | other
  | label (name : String)
deriving DecidableEq, Repr

inductive Control where
  | label (name : String)
  | break (label : String)
  | continue (label : String)
deriving DecidableEq, Repr

/-- A label or a jump with the statements around it, the innermost one first. -/
structure Occurrence where
  control : Control
  frames : List Frame
deriving DecidableEq, Repr

mutual

def occurrences (frames : List Frame) : Statement → List Occurrence
  | .exportDecl _ declaration _ _ _ _ _ _ => optionalOccurrences (.other :: frames) declaration
  | .block _ statements => allOccurrences (.block :: frames) statements
  | .ifStatement _ _ consequence alternative =>
      allOccurrences (.other :: frames) consequence ++ allOccurrences (.other :: frames) alternative
  | .whileStatement _ _ body | .doWhileStatement _ body _ => allOccurrences (.loop :: frames) body
  | .forStatement _ init _ update body =>
      optionalOccurrences (.head :: frames) init ++ (optionalOccurrences (.head :: frames) update ++
        allOccurrences (.loop :: frames) body)
  | .forInStatement _ _ _ _ _ body | .forOfStatement _ _ _ _ _ body _ =>
      allOccurrences (.loop :: frames) body
  | .labeledStatement _ label statement =>
      ⟨.label label, frames⟩ :: occurrences (.label label :: frames) statement
  | .switchStatement _ _ cases default =>
      caseOccurrences (.switch :: frames) cases ++ allOccurrences (.switch :: frames) default
  | .breakStatement _ label => [⟨.break label, frames⟩]
  | .continueStatement _ label => [⟨.continue label, frames⟩]
  | .tryStatement _ tryBody _ catchBody finallyBody =>
      allOccurrences (.other :: frames) tryBody ++ (allOccurrences (.other :: frames) catchBody ++
        allOccurrences (.other :: frames) finallyBody)
  | _ => []

def allOccurrences (frames : List Frame) : List Statement → List Occurrence
  | [] => []
  | statement :: rest => occurrences frames statement ++ allOccurrences frames rest

def optionalOccurrences (frames : List Frame) : Option Statement → List Occurrence
  | none => []
  | some statement => occurrences frames statement

def caseOccurrences (frames : List Frame) : List SwitchCase → List Occurrence
  | [] => []
  | ⟨_, consequent⟩ :: rest => allOccurrences frames consequent ++ caseOccurrences frames rest

end

def labelNames : List Frame → List String
  | [] => []
  | .label name :: outer => name :: labelNames outer
  | _ :: outer => labelNames outer

def labelSet : List Frame → List String
  | .label name :: outer => name :: labelSet outer
  | _ => []

def Frame.isLoop : Frame → Bool
  | .loop | .head => true
  | _ => false

def inLabelSet (label : String) : List Frame → Prop
  | [] => False
  | frame :: outer => (frame.isLoop = true ∧ label ∈ labelSet outer) ∨ inLabelSet label outer

/-- What the language allows: a label that is not already on a statement around, a break inside a
loop or a switch or out of a labelled statement, and a continue of a loop. -/
def Occurrence.Legal : Occurrence → Prop
  | ⟨.label name, frames⟩ => name ∉ labelNames frames
  | ⟨.break label, frames⟩ =>
      if label = "" then .loop ∈ frames ∨ .switch ∈ frames else label ∈ labelNames frames
  | ⟨.continue label, frames⟩ => if label = "" then .loop ∈ frames else inLabelSet label frames

def onLoop (label : String) : List Frame → Prop
  | [] => False
  | frame :: outer => (frame.isLoop = true ∧ outer.head? = some (.label label)) ∨ onLoop label outer

/-- A labelled continue names the label that is directly on its loop. -/
def Occurrence.Direct : Occurrence → Prop
  | ⟨.continue label, frames⟩ => label ≠ "" → onLoop label frames
  | _ => True

/-- The labels of the context that belongs to the statements around; `direct` says whether the next
statement is a loop. -/
def labelTargets (direct : Bool) : List Frame → List LabelTarget
  | [] => []
  | .label name :: outer => ⟨name, direct⟩ :: labelTargets false outer
  | frame :: outer => labelTargets frame.isLoop outer

structure ControlContext.Agrees (context : ControlContext) (direct : Bool) (frames : List Frame) :
    Prop where
  inLoop : context.inLoop = true ↔ .loop ∈ frames
  inSwitch : context.inSwitch = true ↔ .switch ∈ frames
  labels : context.labels = labelTargets direct frames

theorem rootContext_agrees (direct : Bool) : rootContext.Agrees direct [] :=
  ⟨by simp [rootContext], by simp [rootContext], rfl⟩

section Labels

variable {label : String} {frames : List Frame} {direct : Bool}

theorem findLabel_targets_isSome :
    ((labelTargets direct frames).find? (·.name = label)).isSome = true ↔
      label ∈ labelNames frames := by
  induction frames generalizing direct with
  | nil => simp [labelTargets, labelNames]
  | cons frame outer ih =>
      cases frame with
      | label name =>
          rw [labelTargets, labelNames, List.find?_cons, List.mem_cons]
          by_cases heq : name = label
          · simp [heq]
          · rw [decide_eq_false heq]
            refine ih.trans (or_iff_right ?_).symm
            exact fun hlabel => heq hlabel.symm
      | _ => exact ih

theorem mem_labelNames_of_mem_labelSet (hlabel : label ∈ labelSet frames) :
    label ∈ labelNames frames := by
  induction frames with
  | nil => exact hlabel
  | cons frame outer ih =>
      cases frame with
      | label name =>
          rw [labelSet, List.mem_cons] at hlabel
          rw [labelNames, List.mem_cons]
          exact hlabel.imp_right ih
      | _ => exact absurd hlabel List.not_mem_nil

theorem mem_labelSet_of_head (hhead : frames.head? = some (.label label)) :
    label ∈ labelSet frames := by
  cases frames with
  | nil => cases hhead
  | cons frame outer =>
      obtain rfl : frame = .label label := by simpa using hhead
      exact List.mem_cons_self

theorem inLabelSet_of_onLoop (hloop : onLoop label frames) : inLabelSet label frames := by
  induction frames with
  | nil => exact hloop
  | cons frame outer ih =>
      rcases hloop with ⟨hframe, hhead⟩ | houter
      · exact Or.inl ⟨hframe, mem_labelSet_of_head hhead⟩
      · exact Or.inr (ih houter)

theorem mem_labelNames_of_onLoop (hloop : onLoop label frames) : label ∈ labelNames frames := by
  induction frames with
  | nil => exact hloop.elim
  | cons frame outer ih =>
      have houter : label ∈ labelNames outer :=
        hloop.elim (fun hhere => mem_labelNames_of_mem_labelSet (mem_labelSet_of_head hhere.2)) ih
      cases frame with
      | label name => exact List.mem_cons_of_mem name houter
      | _ => exact houter

/-- The label that is found allows a continue when it is directly on a loop. Every label is on one
statement only, so there is no other one of that name further out. -/
theorem findLabel_targets_allows (hnodup : (labelNames frames).Nodup) :
    (∃ target, (labelTargets direct frames).find? (·.name = label) = some target ∧
      target.allowsContinue = true) ↔
      (direct = true ∧ frames.head? = some (.label label)) ∨ onLoop label frames := by
  induction frames generalizing direct with
  | nil => simp [labelTargets, onLoop]
  | cons frame outer ih =>
      cases frame with
      | label name =>
          rw [labelNames, List.nodup_cons] at hnodup
          have houter : onLoop label (.label name :: outer) ↔ onLoop label outer := by
            simp [onLoop, Frame.isLoop]
          rw [labelTargets, List.find?_cons, houter]
          by_cases heq : name = label
          · subst heq
            have hnone : ¬onLoop name outer := fun hloop =>
              hnodup.1 (mem_labelNames_of_onLoop hloop)
            simp [hnone]
          · rw [decide_eq_false heq]
            refine (ih hnodup.2).trans ?_
            simp [heq]
      | loop | switch | block | head | other =>
          refine (ih hnodup).trans ?_
          simp [onLoop]

end Labels

section Checks

variable {context : ControlContext} {frames : List Frame} {pos : SourcePos} {label : String}

theorem analyzeBreakStatement_ok_iff (hagrees : context.Agrees false frames) :
    analyzeBreakStatement context pos label = .ok () ↔ Occurrence.Legal ⟨.break label, frames⟩ := by
  rw [analyzeBreakStatement, Occurrence.Legal]
  by_cases hlabel : label = ""
  · rw [if_neg (not_not_intro hlabel), if_pos hlabel, ← hagrees.inLoop, ← hagrees.inSwitch]
    cases context.inLoop <;> cases context.inSwitch <;> simp [errorAt]
  · rw [if_pos hlabel, if_neg hlabel, ControlContext.findLabel, hagrees.labels,
      ← @findLabel_targets_isSome label frames false]
    cases (labelTargets false frames).find? (·.name = label) <;> simp [errorAt]

theorem analyzeContinueStatement_ok_iff (hagrees : context.Agrees false frames)
    (hnodup : (labelNames frames).Nodup) :
    analyzeContinueStatement context pos label = .ok () ↔
      Occurrence.Legal ⟨.continue label, frames⟩ ∧ Occurrence.Direct ⟨.continue label, frames⟩ := by
  rw [analyzeContinueStatement, Occurrence.Legal, Occurrence.Direct]
  by_cases hlabel : label = ""
  · rw [if_neg (not_not_intro hlabel), if_pos hlabel, ← hagrees.inLoop]
    cases context.inLoop <;> simp [errorAt, hlabel]
  · have hallows := @findLabel_targets_allows label frames false hnodup
    have hset : inLabelSet label frames ∧ (label ≠ "" → onLoop label frames) ↔
        onLoop label frames :=
      ⟨fun hboth => hboth.2 hlabel, fun hloop => ⟨inLabelSet_of_onLoop hloop, fun _ => hloop⟩⟩
    rw [if_pos hlabel, if_neg hlabel, hset, ControlContext.findLabel, hagrees.labels]
    simp only [Bool.false_eq_true, false_and, false_or] at hallows
    rw [← hallows]
    cases (labelTargets false frames).find? (·.name = label) with
    | none => simp [errorAt]
    | some target => cases htarget : target.allowsContinue <;> simp [errorAt, htarget]

theorem enterLabel_eq_some_iff {statement : Statement} {inner : ControlContext}
    (hagrees : context.Agrees false frames) :
    context.enterLabel label statement = some inner ↔
      label ∉ labelNames frames ∧
        { context with labels := ⟨label, isLoopStatement statement⟩ :: context.labels } = inner := by
  rw [ControlContext.enterLabel, ControlContext.findLabel, hagrees.labels]
  by_cases hlabel : label ∈ labelNames frames
  · rw [if_pos (findLabel_targets_isSome.mpr hlabel)]
    simp [hlabel]
  · rw [if_neg (mt findLabel_targets_isSome.mp hlabel), Option.some.injEq]
    simp [hlabel]

theorem ControlContext.Agrees.enterLabel {direct : Bool} (hagrees : context.Agrees false frames) :
    ControlContext.Agrees { context with labels := ⟨label, direct⟩ :: context.labels } direct
      (.label label :: frames) where
  inLoop := by simpa using hagrees.inLoop
  inSwitch := by simpa using hagrees.inSwitch
  labels := congrArg _ hagrees.labels

theorem ControlContext.Agrees.inside {direct : Bool} {frame : Frame}
    (hagrees : context.Agrees frame.isLoop frames)
    (hframe : frame ≠ .loop ∧ frame ≠ .switch ∧ ∀ name, frame ≠ .label name) :
    context.Agrees direct (frame :: frames) where
  inLoop := by
    rw [List.mem_cons, or_iff_right fun heq => hframe.1 heq.symm]
    exact hagrees.inLoop
  inSwitch := by
    rw [List.mem_cons, or_iff_right fun heq => hframe.2.1 heq.symm]
    exact hagrees.inSwitch
  labels := by
    cases frame with
    | label name => exact absurd rfl (hframe.2.2 name)
    | _ => exact hagrees.labels

theorem ControlContext.Agrees.enterLoop {direct : Bool} (hagrees : context.Agrees true frames) :
    context.enterLoop.Agrees direct (.loop :: frames) where
  inLoop := by simp [ControlContext.enterLoop]
  inSwitch := by simpa [ControlContext.enterLoop] using hagrees.inSwitch
  labels := hagrees.labels

theorem ControlContext.Agrees.enterSwitch {direct : Bool} (hagrees : context.Agrees false frames) :
    context.enterSwitch.Agrees direct (.switch :: frames) where
  inLoop := by simpa [ControlContext.enterSwitch] using hagrees.inLoop
  inSwitch := by simp [ControlContext.enterSwitch]
  labels := hagrees.labels

end Checks

def Occurrence.Passes (occurrence : Occurrence) : Prop := occurrence.Legal ∧ occurrence.Direct

theorem seq_eq_ok {first second : Except DiagnosticError Unit} :
    (do first; second) = .ok () ↔ first = .ok () ∧ second = .ok () := by
  cases first with
  | error error => simp [bind, Except.bind]
  | ok value => simp [bind, Except.bind]

theorem forall_append {occurrences more : List Occurrence} {check : Occurrence → Prop} :
    (∀ occurrence ∈ occurrences ++ more, check occurrence) ↔
      (∀ occurrence ∈ occurrences, check occurrence) ∧ ∀ occurrence ∈ more, check occurrence :=
  List.forall_mem_append

mutual

theorem analyzeStatement_ok_iff : ∀ (statement : Statement) (context : ControlContext)
    (frames : List Frame), context.Agrees (isLoopStatement statement) frames →
    (labelNames frames).Nodup →
    (analyzeStatement context statement = .ok () ↔
      ∀ occurrence ∈ occurrences frames statement, occurrence.Passes)
  | .exportDecl _ declaration _ _ _ _ _ _, context, frames, hagrees, hnodup =>
      analyzeOptionalStatement_ok_iff declaration context (.other :: frames)
        (fun _ => hagrees.inside ⟨nofun, nofun, nofun⟩) hnodup
  | .block _ statements, context, frames, hagrees, hnodup =>
      analyzeStatements_ok_iff statements context (.block :: frames)
        (fun _ => hagrees.inside ⟨nofun, nofun, nofun⟩) hnodup
  | .ifStatement _ _ consequence alternative, context, frames, hagrees, hnodup => by
      have hinside := fun direct =>
        @ControlContext.Agrees.inside context frames direct .other hagrees ⟨nofun, nofun, nofun⟩
      rw [analyzeStatement, seq_eq_ok, occurrences, forall_append,
        analyzeStatements_ok_iff consequence context _ hinside hnodup,
        analyzeStatements_ok_iff alternative context _ hinside hnodup]
  | .whileStatement _ _ body, context, frames, hagrees, hnodup
  | .doWhileStatement _ body _, context, frames, hagrees, hnodup
  | .forInStatement _ _ _ _ _ body, context, frames, hagrees, hnodup
  | .forOfStatement _ _ _ _ _ body _, context, frames, hagrees, hnodup =>
      analyzeStatements_ok_iff body context.enterLoop (.loop :: frames)
        (fun _ => hagrees.enterLoop) hnodup
  | .forStatement _ init _ update body, context, frames, hagrees, hnodup => by
      have hhead := fun direct =>
        @ControlContext.Agrees.inside context frames direct .head hagrees ⟨nofun, nofun, nofun⟩
      rw [analyzeStatement, seq_eq_ok, seq_eq_ok, occurrences, forall_append, forall_append,
        analyzeOptionalStatement_ok_iff init context _ hhead hnodup,
        analyzeOptionalStatement_ok_iff update context _ hhead hnodup,
        analyzeStatements_ok_iff body context.enterLoop (.loop :: frames)
          (fun _ => hagrees.enterLoop) hnodup]
  | .labeledStatement pos label statement, context, frames, hagrees, hnodup => by
      have hagrees : context.Agrees false frames := hagrees
      rw [analyzeStatement, occurrences, List.forall_mem_cons]
      by_cases hlabel : label ∈ labelNames frames
      · have hnone : context.enterLabel label statement = none := by
          refine Option.eq_none_iff_forall_ne_some.mpr fun inner hinner => ?_
          exact ((enterLabel_eq_some_iff hagrees).mp hinner).1 hlabel
        rw [hnone]
        refine iff_of_false nofun fun hpasses => ?_
        exact hpasses.1.1 hlabel
      · have hsome := (enterLabel_eq_some_iff hagrees).mpr
          ⟨hlabel, @rfl _ { context with
            labels := ⟨label, isLoopStatement statement⟩ :: context.labels }⟩
        rw [hsome]
        refine (analyzeStatement_ok_iff statement _ (.label label :: frames) hagrees.enterLabel
          (List.nodup_cons.mpr ⟨hlabel, hnodup⟩)).trans ?_
        exact (and_iff_right ⟨hlabel, trivial⟩).symm
  | .switchStatement _ _ cases default, context, frames, hagrees, hnodup => by
      have hinside := fun direct =>
        @ControlContext.Agrees.enterSwitch context frames direct hagrees
      rw [analyzeStatement, seq_eq_ok, occurrences, forall_append,
        analyzeSwitchCases_ok_iff cases _ _ hinside hnodup,
        analyzeStatements_ok_iff default _ _ hinside hnodup]
  | .breakStatement _ label, context, frames, hagrees, _ => by
      rw [analyzeStatement, occurrences, List.forall_mem_singleton,
        analyzeBreakStatement_ok_iff hagrees]
      exact (and_iff_left trivial).symm
  | .continueStatement _ label, context, frames, hagrees, hnodup => by
      rw [analyzeStatement, occurrences, List.forall_mem_singleton,
        analyzeContinueStatement_ok_iff hagrees hnodup]
      rfl
  | .tryStatement _ tryBody _ catchBody finallyBody, context, frames, hagrees, hnodup => by
      have hinside := fun direct =>
        @ControlContext.Agrees.inside context frames direct .other hagrees ⟨nofun, nofun, nofun⟩
      rw [analyzeStatement, seq_eq_ok, seq_eq_ok, occurrences, forall_append, forall_append,
        analyzeStatements_ok_iff tryBody context _ hinside hnodup,
        analyzeStatements_ok_iff catchBody context _ hinside hnodup,
        analyzeStatements_ok_iff finallyBody context _ hinside hnodup]
  | .empty _, _, _, _, _ | .variableDecl .., _, _, _, _ | .functionDecl .., _, _, _, _
  | .classDecl .., _, _, _, _ | .importDecl .., _, _, _, _ | .assignment .., _, _, _, _
  | .expressionStatement .., _, _, _, _ | .returnStatement .., _, _, _, _
  | .throwStatement .., _, _, _, _ | .debugger _, _, _, _, _ => by
      simp [analyzeStatement, occurrences]

theorem analyzeStatements_ok_iff : ∀ (statements : List Statement) (context : ControlContext)
    (frames : List Frame), (∀ direct, context.Agrees direct frames) → (labelNames frames).Nodup →
    (analyzeStatements context statements = .ok () ↔
      ∀ occurrence ∈ allOccurrences frames statements, occurrence.Passes)
  | [], _, _, _, _ => by simp [analyzeStatements, allOccurrences]
  | statement :: rest, context, frames, hagrees, hnodup => by
      rw [analyzeStatements, seq_eq_ok, allOccurrences, forall_append,
        analyzeStatement_ok_iff statement context frames (hagrees _) hnodup,
        analyzeStatements_ok_iff rest context frames hagrees hnodup]

theorem analyzeOptionalStatement_ok_iff : ∀ (option : Option Statement)
    (context : ControlContext) (frames : List Frame), (∀ direct, context.Agrees direct frames) →
    (labelNames frames).Nodup →
    (analyzeOptionalStatement context option = .ok () ↔
      ∀ occurrence ∈ optionalOccurrences frames option, occurrence.Passes)
  | none, _, _, _, _ => by simp [analyzeOptionalStatement, optionalOccurrences]
  | some statement, context, frames, hagrees, hnodup =>
      analyzeStatement_ok_iff statement context frames (hagrees _) hnodup

theorem analyzeSwitchCases_ok_iff : ∀ (cases : List SwitchCase) (context : ControlContext)
    (frames : List Frame), (∀ direct, context.Agrees direct frames) → (labelNames frames).Nodup →
    (analyzeSwitchCases context cases = .ok () ↔
      ∀ occurrence ∈ caseOccurrences frames cases, occurrence.Passes)
  | [], _, _, _, _ => by simp [analyzeSwitchCases, caseOccurrences]
  | ⟨_, consequent⟩ :: rest, context, frames, hagrees, hnodup => by
      rw [analyzeSwitchCases, seq_eq_ok, caseOccurrences, forall_append,
        analyzeStatements_ok_iff consequent context frames hagrees hnodup,
        analyzeSwitchCases_ok_iff rest context frames hagrees hnodup]

end

/-- The analyzer accepts a body when its labels and jumps are legal and no labelled continue goes
through another label of its loop. -/
theorem analyzeStatements_root_iff (statements : List Statement) :
    analyzeStatements rootContext statements = .ok () ↔
      ∀ occurrence ∈ allOccurrences [] statements, occurrence.Legal ∧ occurrence.Direct :=
  analyzeStatements_ok_iff statements rootContext [] rootContext_agrees List.nodup_nil

end Jayess.Semantic
