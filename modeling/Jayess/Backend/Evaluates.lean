import Jayess.Backend.EvaluationTraces
import Jayess.Backend.ExpressionSpec
import Jayess.Backend.FragmentPaths

/-!
# What the emitted code of an expression evaluates

The code of an expression is a fragment whose traces are those of the expression with the second
argument of each `apply` evaluated again.
-/

namespace Jayess.Backend

open Flow (Traces Path labels)
open Flow.Traces (seq choice)

variable {α β : Type} {context : Context}

/-- In this context the action appends a fragment with the given traces and leaves the context as it
was. -/
def Evaluates (context : Context) (action : ExprM α) (post : α → Prop) (traces : Traces Event) :
    Prop :=
  ∀ emitter value emitted, emitter.context = context → action emitter = .ok (value, emitted) →
    emitted.context = context ∧ post value ∧ ∃ fragment : Fragment,
      emitted.body = emitter.body ++ fragment.lines ∧ fragment.Plain ∧ fragment.traces = traces

abbrev Does (context : Context) (action : ExprM α) (traces : Traces Event) : Prop :=
  Evaluates context action (fun _ => True) traces

namespace Evaluates

variable {action : ExprM α} {next : α → ExprM β} {post : α → Prop} {post' : β → Prop}
  {first second traces : Traces Event}

theorem step (haction : Evaluates context action post first)
    (hnext : ∀ value, post value → Evaluates context (next value) post' second) :
    Evaluates context (action >>= next) post' (seq first second) := by
  intro emitter result emitted hcontext hrun
  obtain ⟨value, middle, hfirst, hsecond⟩ := bind_eq_ok.mp hrun
  obtain ⟨hmiddle, hpost, fragment, hbody, hplain, rfl⟩ := haction _ _ _ hcontext hfirst
  obtain ⟨hemitted, hpost', fragment', hbody', hplain', rfl⟩ :=
    hnext value hpost _ _ _ hmiddle hsecond
  refine ⟨hemitted, hpost', .seq fragment fragment', ?_, ⟨hplain, hplain'⟩, rfl⟩
  rw [hbody', hbody, Fragment.lines, List.append_assoc]

theorem done {value : α} (hpost : post value) : Evaluates context (pure value) post [[]] := by
  intro emitter result emitted hcontext hrun
  simp only [pure_eq_ok, Prod.mk.injEq] at hrun
  obtain ⟨rfl, rfl⟩ := hrun
  exact ⟨hcontext, hpost, .nil, by simp [Fragment.lines], trivial, rfl⟩

theorem last {make : α → β} (haction : Evaluates context action post traces)
    (hpost : ∀ value, post value → post' (make value)) :
    Evaluates context (do
      let value ← action
      return make value) post' traces := by
  have hstep := haction.step fun value hvalue =>
    (done (hpost value hvalue) : Evaluates context (pure (make value)) post' [[]])
  rwa [Flow.Traces.seq_nil] at hstep

theorem silently (haction : Evaluates context action post [[]])
    (hnext : ∀ value, post value → Evaluates context (next value) post' traces) :
    Evaluates context (action >>= next) post' traces := by
  have hstep := haction.step hnext
  rwa [Flow.Traces.nil_seq] at hstep

theorem fail {message : String} : Evaluates context (fail message) post traces :=
  fun _ _ _ _ hrun => absurd hrun fail_ne_ok

theorem withDiagnostic {pos : SourcePos} (haction : Evaluates context action post traces) :
    Evaluates context (withDiagnostic pos action) post traces :=
  fun emitter value emitted hcontext hrun =>
    haction emitter value emitted hcontext (withDiagnostic_eq_ok.mp hrun)

theorem get {next : ExpressionEmitter → ExprM β}
    (hnext : ∀ emitter : ExpressionEmitter, emitter.context = context →
      Evaluates context (next emitter) post' traces) :
    Evaluates context (get >>= next) post' traces := by
  intro emitter result emitted hcontext hrun
  obtain ⟨value, middle, hget, hsecond⟩ := bind_eq_ok.mp hrun
  obtain ⟨rfl, rfl⟩ := by simpa only [get_eq_ok, Prod.mk.injEq] using hget
  exact hnext emitter hcontext emitter result emitted hcontext hsecond

theorem unless_fail {condition : Prop} [Decidable condition] {message : String}
    (haction : ¬condition → Evaluates context action post traces) :
    Evaluates context (do
      if condition then Backend.fail message
      action) post traces := by
  intro emitter value emitted hcontext hrun
  obtain ⟨hcondition, hrun⟩ := unless_fail_run hrun
  exact haction hcondition _ _ _ hcontext hrun

end Evaluates

theorem ofExcept_evaluates {result : Except EmitError α} :
    Evaluates context (ofExcept result) (fun value => result = .ok value) [[]] := by
  intro emitter value emitted hcontext hrun
  obtain ⟨hresult, rfl⟩ := ofExcept_run hrun
  exact ⟨hcontext, hresult, .nil, by simp [Fragment.lines], trivial, rfl⟩

variable {symbol name property : String} {emitter : ExpressionEmitter} {value : Operand}
    {pos : SourcePos} {operand : Expression} {isPrivate optional : Bool}
    {emitTarget : ExprM Operand} {arguments thisAndRest : Traces Event}
    {emitArgs : ExprM (List RuntimeCallArg)} {emitThisAndRest : ExprM (Operand × Operand)}

theorem emitRuntimeCall_does {resultType : String} {args : List RuntimeCallArg} :
    Does context (emitRuntimeCall resultType symbol args) (called symbol) := by
  intro emitter value emitted hcontext hrun
  obtain ⟨rfl, rfl⟩ := emitRuntimeCall_run hrun
  exact ⟨hcontext, trivial, .plain (.call emitter.valueIndex resultType symbol args), rfl, rfl, rfl⟩

theorem emitRuntimeVoidCall_does {args : List RuntimeCallArg} :
    Does context (emitRuntimeVoidCall symbol args) (called symbol) := by
  intro emitter value emitted hcontext hrun
  obtain rfl := emitRuntimeVoidCall_run hrun
  exact ⟨hcontext, trivial, .plain (.voidCall symbol args), rfl, rfl, rfl⟩

theorem emitRuntimeLiteral_does (literal : RuntimeLiteral) :
    Does context (emitRuntimeLiteral literal) (called (runtimeLiteralSymbol literal)) := by
  intro emitter value emitted hcontext hrun
  obtain ⟨-, declaration, -, rfl⟩ := emitRuntimeLiteral_eq hrun
  refine ⟨hcontext, trivial, ?_⟩
  cases literal with
  | number number =>
      let args : List RuntimeCallArg := [⟨"double", .double number⟩]
      let symbol := "jayess_value_from_number"
      exact ⟨.seq (.plain (.call emitter.valueIndex runtimeValueIRType symbol args))
        (.plain (.legacyCall emitter.valueIndex runtimeValueIRType symbol args)), rfl, ⟨rfl, rfl⟩,
        rfl⟩
  | _ => exact ⟨.plain _, rfl, rfl, rfl⟩

theorem emitRuntimeUndefined_does :
    Does context emitRuntimeUndefined (called "jayess_value_undefined") :=
  emitRuntimeLiteral_does .undefined

theorem emitRuntimeString_does {value : String} :
    Does context (emitRuntimeString value) (called "jayess_value_from_string_copy") :=
  emitRuntimeLiteral_does (.string value)

theorem loadLocal_does : Does context (loadLocal name) (context.loads name) := by
  intro emitter value emitted hcontext hrun
  subst hcontext
  obtain ⟨slot, hslot, rfl, rfl⟩ := loadLocal_run hrun
  refine ⟨rfl, trivial, .plain (.load emitter.valueIndex slot), rfl, rfl, ?_⟩
  simp [Context.loads, ExpressionEmitter.context, hslot, Fragment.traces, lineObservation, once]

theorem storeLocal_does :
    Does context (storeLocal name value) (context.stores name) := by
  intro emitter result emitted hcontext hrun
  subst hcontext
  obtain ⟨slot, hslot, rfl⟩ := storeLocal_run hrun
  refine ⟨rfl, trivial, .plain (.store value slot), rfl, rfl, ?_⟩
  simp [Context.stores, ExpressionEmitter.context, hslot, Fragment.traces, lineObservation, once]

structure Targets (context : Context) (expression : Expression) (target : AssignmentTarget) :
    Prop where
  load : Does context target.load (targetLoad context expression)
  store : ∀ value, Does context (target.store value) (targetStore context expression)
  delete : Does context target.delete (targetDelete expression)

theorem resolveLocal_evaluates :
    Evaluates context (resolveLocal name) (Targets context (.identifier pos name)) [[]] := by
  intro emitter target emitted hcontext hrun
  obtain ⟨rfl, rfl⟩ := resolveLocal_run hrun
  refine ⟨hcontext, ?_, .nil, by simp [Fragment.lines], trivial, rfl⟩
  exact ⟨loadLocal_does, fun _ => storeLocal_does, .fail⟩

theorem resolveMember_evaluates {pos : SourcePos} {target : Expression} {property : String}
    {isPrivate optional : Bool} {emitTarget : ExprM Operand} {traces : Traces Event}
    (htarget : Does context emitTarget traces) :
    Evaluates context (resolveMember isPrivate optional emitTarget property)
      (Targets context (.member pos target property isPrivate optional))
      (seq traces (called "jayess_value_from_string_copy")) := by
  refine .unless_fail fun _ => .unless_fail fun _ => htarget.step fun object _ => ?_
  refine emitRuntimeString_does.last fun key _ => ?_
  exact ⟨emitRuntimeCall_does, fun _ => emitRuntimeVoidCall_does, emitRuntimeCall_does⟩

theorem resolveIndex_evaluates {pos : SourcePos} {target index : Expression} {optional : Bool}
    {emitTarget emitIndex : ExprM Operand} {traces indexTraces : Traces Event}
    (htarget : Does context emitTarget traces) (hindex : Does context emitIndex indexTraces) :
    Evaluates context (resolveIndex optional emitTarget emitIndex)
      (Targets context (.index pos target index optional)) (seq traces indexTraces) := by
  refine .unless_fail fun _ => htarget.step fun object _ => ?_
  refine hindex.last fun key _ => ?_
  exact ⟨emitRuntimeCall_does, fun _ => emitRuntimeVoidCall_does, emitRuntimeCall_does⟩

def Took (captured : CapturedExpression) (traces : Traces Event) : Prop :=
  ∃ fragment : Fragment, captured.lines = fragment.lines ∧ fragment.Plain ∧ fragment.traces = traces

theorem took_nil : Took ⟨[], value⟩ [[]] := ⟨.nil, rfl, trivial, rfl⟩

theorem captureExpression_evaluates {emit : ExprM Operand} {traces : Traces Event}
    (hemit : Does context emit traces) :
    Evaluates context (captureExpression emit) (fun captured => Took captured traces) [[]] := by
  intro emitter captured emitted hcontext hrun
  unfold captureExpression at hrun
  split at hrun
  · simp at hrun
  · rename_i value middle hmiddle
    obtain ⟨hmiddleContext, -, fragment, hbody, hplain, htraces⟩ := hemit _ _ _ hcontext hmiddle
    obtain ⟨rfl, rfl⟩ := by simpa using hrun
    refine ⟨hmiddleContext, ⟨fragment, by simp [hbody], hplain, htraces⟩, .nil, ?_, trivial, rfl⟩
    simp [hbody, Fragment.lines]

theorem emitCapturedBranchValue_does {stem : String} {condition : Operand}
    {trueBranch falseBranch : CapturedExpression} {onTrue onFalse : Traces Event}
    (htrue : Took trueBranch onTrue) (hfalse : Took falseBranch onFalse) :
    Does context (emitCapturedBranchValue stem condition trueBranch falseBranch)
      (choice (.decide true) (.decide false) onTrue onFalse) := by
  obtain ⟨fragment, hlines, hplain, rfl⟩ := htrue
  obtain ⟨fragment', hlines', hplain', rfl⟩ := hfalse
  intro emitter value emitted hcontext hrun
  simp only [emitCapturedBranchValue, nextBlockLabel, nextValueName, appendLines, bind_eq_ok,
    Except.ok.injEq, Prod.mk.injEq, pure_eq_ok] at hrun
  obtain ⟨trueLabel, _, ⟨-, rfl⟩, falseLabel, _, ⟨-, rfl⟩, endLabel, _, ⟨-, rfl⟩, result, _,
    ⟨rfl, rfl⟩, _, _, ⟨-, rfl⟩, _, _, ⟨-, rfl⟩, _, _, ⟨-, rfl⟩, _, _, ⟨-, rfl⟩, _, _, ⟨-, rfl⟩, rfl,
    rfl⟩ := hrun
  let frame : BranchFrame :=
    ⟨condition, trueLabel, falseLabel, endLabel, emitter.valueIndex, trueBranch.value,
      falseBranch.value⟩
  refine ⟨hcontext, trivial, .branch frame fragment fragment', ?_, ⟨hplain, hplain'⟩, rfl⟩
  simp [frame, Fragment.lines, hlines, hlines']

theorem emitConditionalExpression_does {emitCondition emitConsequent emitAlternative : ExprM Operand}
    {condition consequent alternative : Traces Event} (hcondition : Does context emitCondition condition)
    (hconsequent : Does context emitConsequent consequent)
    (halternative : Does context emitAlternative alternative) :
    Does context (emitConditionalExpression emitCondition emitConsequent emitAlternative)
      (seq condition (seq (called "jayess_value_truthy")
        (choice (.decide true) (.decide false) consequent alternative))) := by
  refine hcondition.step fun _ _ => emitRuntimeCall_does.step fun _ _ => ?_
  refine (captureExpression_evaluates hconsequent).silently fun trueBranch htrue => ?_
  refine (captureExpression_evaluates halternative).silently fun falseBranch hfalse => ?_
  exact emitCapturedBranchValue_does htrue hfalse

theorem emitLogicalExpression_does {operator : LogicalOperator} {emitLeft emitRight : ExprM Operand}
    {left right : Traces Event} (hleft : Does context emitLeft left)
    (hright : Does context emitRight right) :
    Does context (emitLogicalExpression operator emitLeft emitRight)
      (seq left (seq (called "jayess_value_truthy")
        (match operator with
          | .and => choice (.decide true) (.decide false) right [[]]
          | .or => choice (.decide true) (.decide false) [[]] right))) := by
  refine hleft.step fun _ _ => emitRuntimeCall_does.step fun _ _ => ?_
  refine (captureExpression_evaluates hright).silently fun rightBranch hright => ?_
  cases operator with
  | and => exact emitCapturedBranchValue_does hright took_nil
  | or => exact emitCapturedBranchValue_does took_nil hright

theorem emitNullishCoalesceExpression_does {emitLeft emitRight : ExprM Operand}
    {left right : Traces Event} (hleft : Does context emitLeft left)
    (hright : Does context emitRight right) :
    Does context (emitNullishCoalesceExpression emitLeft emitRight)
      (seq left (seq (called "jayess_value_is_nullish")
        (choice (.decide true) (.decide false) right [[]]))) := by
  refine hleft.step fun _ _ => emitRuntimeCall_does.step fun _ _ => ?_
  refine (captureExpression_evaluates hright).silently fun rightBranch hright => ?_
  exact emitCapturedBranchValue_does hright took_nil

theorem emitUpdateExpression_does {operator : UpdateOperator} {isPrefix : Bool}
    {target : Expression} {resolve : ExprM AssignmentTarget} {traces : Traces Event}
    (hresolve : Evaluates context resolve (Targets context target) traces) :
    Does context (emitUpdateExpression operator isPrefix resolve)
      (seq traces (seq (targetLoad context target)
        (seq (called (updateSymbol operator)) (targetStore context target)))) := by
  refine hresolve.step fun resolved htarget => htarget.load.step fun previous _ => ?_
  refine emitRuntimeCall_does.step fun next _ => ?_
  exact (htarget.store next).last fun _ _ => trivial

theorem emitBinaryOperands_does {emitLeft emitRight : ExprM Operand} {left right : Traces Event}
    (hleft : Does context emitLeft left) (hright : Does context emitRight right) :
    Does context (emitBinaryOperands symbol emitLeft emitRight)
      (seq left (seq right (called symbol))) :=
  hleft.step fun _ _ => hright.step fun _ _ => emitRuntimeCall_does

theorem literal_does {result : Except EmitError RuntimeLiteral} :
    Does context (do
      let literal ← ofExcept result
      emitRuntimeLiteral literal) (literalEvaluation result) := by
  refine ofExcept_evaluates.silently fun literal hliteral => ?_
  rw [hliteral]
  exact emitRuntimeLiteral_does literal

theorem foldedComparison_does {result : Except EmitError BitValue} :
    Does context (do
      let value ← ofExcept result
      emitRuntimeLiteral (.boolean value)) (called "jayess_value_from_boolean") :=
  ofExcept_evaluates.silently fun value _ => emitRuntimeLiteral_does (.boolean value)

theorem emitBigIntBitNotExpression_does :
    Does context (emitBigIntBitNotExpression operand) (foldedUnaryEvaluation .bitNot operand) := by
  unfold emitBigIntBitNotExpression
  split
  · split
    · exact emitRuntimeLiteral_does _
    · exact fun _ _ _ _ hrun => by simp [ofExcept] at hrun
  · exact .fail

theorem emitNumericUnaryExpression_does {operator : UnaryOperator} :
    Does context (emitNumericUnaryExpression operator operand)
      (called "jayess_value_from_number") := by
  unfold emitNumericUnaryExpression
  split
  · split
    · exact emitRuntimeLiteral_does _
    · exact .fail
  · exact .fail

theorem emitNegateExpression_does :
    Does context (emitNegateExpression operand) (foldedUnaryEvaluation .negate operand) := by
  unfold emitNegateExpression
  split
  · split
    · exact emitRuntimeLiteral_does _
    · exact fun _ _ _ _ hrun => by simp [ofExcept] at hrun
  · rename_i hother
    have hfolded : foldedUnaryEvaluation .negate operand = called "jayess_value_from_number" := by
      unfold foldedUnaryEvaluation
      split
      · contradiction
      · contradiction
      · exact absurd rfl (hother _ _)
      · rfl
    rw [hfolded]
    exact emitNumericUnaryExpression_does

theorem emitBooleanNotExpression_does :
    Does context (emitBooleanNotExpression operand) (foldedUnaryEvaluation .not operand) := by
  unfold emitBooleanNotExpression
  split
  · exact emitRuntimeLiteral_does _
  · exact .fail

theorem emitRuntimeString_ok (value : String) (emitter : ExpressionEmitter) :
    ∃ result, emitRuntimeString value emitter = .ok result := ⟨_, rfl⟩

theorem loadLocal_isOk_iff :
    (∃ result, loadLocal name emitter = .ok result) ↔ (emitter.locals name).isSome := by
  cases hslot : emitter.locals name with
  | none => simp [loadLocal, hslot]
  | some slot =>
      have hload : ∃ result, (do
          let result ← nextValueName
          appendLines [.load result slot]
          return .named result : ExprM Operand) emitter = .ok result := ⟨_, rfl⟩
      simpa only [loadLocal, hslot, Option.isSome_some, iff_true] using hload

theorem emitIdentifier_isOk_iff :
    (∃ result, emitExpression (.identifier pos name) emitter = .ok result) ↔
      (emitter.locals name).isSome := by
  rw [emitExpression]
  simp only [withDiagnostic_eq_ok]
  exact loadLocal_isOk_iff

theorem resolveMember_isOk_iff :
    (∃ result, resolveMember isPrivate optional emitTarget property emitter = .ok result) ↔
      optional = false ∧ isPrivate = false ∧ ∃ result, emitTarget emitter = .ok result := by
  unfold resolveMember
  cases optional with
  | true => simp [bind_eq_ok]
  | false =>
      cases isPrivate with
      | true => simp [bind_eq_ok]
      | false =>
          constructor
          · rintro ⟨result, hrun⟩
            obtain ⟨value, middle, htarget, -⟩ := bind_eq_ok.mp hrun
            exact ⟨rfl, rfl, _, htarget⟩
          · rintro ⟨-, -, ⟨value, middle⟩, htarget⟩
            obtain ⟨⟨key, named⟩, hkey⟩ := emitRuntimeString_ok property middle
            refine ⟨(propertyTarget value key, named), bind_eq_ok.mpr ⟨value, middle, htarget, ?_⟩⟩
            exact bind_eq_ok.mpr ⟨key, named, hkey, rfl⟩

theorem stdlibPropertySymbol_identifier {target : Expression}
    (hsymbol : stdlibPropertySymbol emitter target property isPrivate optional = some symbol) :
    optional = false ∧ isPrivate = false ∧ ∃ pos name, target = .identifier pos name := by
  obtain ⟨moduleName, hmodule, -⟩ := Option.bind_eq_some_iff.mp hsymbol
  cases target with
  | identifier pos name => cases optional <;> cases isPrivate <;> simp_all [stdlibMemberModule]
  | _ => simp [stdlibMemberModule] at hmodule

theorem deletesProperty_member {object : Expression} :
    context.deletesProperty (.member pos object property isPrivate optional) =
      ((context.propertySymbol object property isPrivate optional).isNone ||
        (match object with
          | .identifier _ name => (context.slots name).isSome
          | _ => true)) := by
  cases object <;> rfl

theorem deletesProperty_of_resolved {right : Expression} {resolved : ExpressionEmitter}
    {target : AssignmentTarget} {result : Operand × ExpressionEmitter}
    (hresolve : resolveAssignmentTarget right emitter = .ok (target, resolved))
    (hdelete : target.delete resolved = .ok result) :
    emitter.context.deletesProperty right = true := by
  cases right with
  | identifier pos name =>
      rw [resolveAssignmentTarget] at hresolve
      obtain ⟨rfl, rfl⟩ := resolveLocal_run hresolve
      simp [AssignmentTarget.delete] at hdelete
  | member pos object property isPrivate optional =>
      rw [deletesProperty_member, Bool.or_eq_true]
      cases object with
      | identifier pos name =>
          rw [resolveAssignmentTarget] at hresolve
          obtain ⟨-, -, hobject⟩ := resolveMember_isOk_iff.mp ⟨_, hresolve⟩
          exact .inr (emitIdentifier_isOk_iff.mp hobject)
      | _ => exact .inr rfl
  | index pos object key optional => rfl
  | _ => simp [resolveAssignmentTarget] at hresolve

theorem resolve_of_deletesProperty {right : Expression} {result : Operand × ExpressionEmitter}
    (hdeletes : emitter.context.deletesProperty right = true)
    (hrun : emitExpression right emitter = .ok result) :
    ∃ target, resolveAssignmentTarget right emitter = .ok target := by
  cases right with
  | member pos object property isPrivate optional =>
      rw [resolveAssignmentTarget]
      rw [emitExpression, withDiagnostic_eq_ok, emitMemberExpression] at hrun
      obtain ⟨_, _, hget, hrun⟩ := bind_eq_ok.mp hrun
      obtain ⟨rfl, rfl⟩ := by simpa only [get_eq_ok, Prod.mk.injEq] using hget
      rw [deletesProperty_member, Bool.or_eq_true] at hdeletes
      cases hsymbol : stdlibPropertySymbol emitter object property isPrivate optional with
      | none =>
          rw [hsymbol] at hrun
          obtain ⟨target, resolved, hresolve, -⟩ := bind_eq_ok.mp hrun
          exact ⟨_, hresolve⟩
      | some symbol =>
          obtain ⟨hoptional, hprivate, pos, name, rfl⟩ := stdlibPropertySymbol_identifier hsymbol
          have hslot : (emitter.locals name).isSome := by
            rcases hdeletes with hnone | hslot
            · simp [ExpressionEmitter.context, hsymbol] at hnone
            · exact hslot
          exact resolveMember_isOk_iff.mpr ⟨hoptional, hprivate, emitIdentifier_isOk_iff.mpr hslot⟩
  | index pos object key optional =>
      rw [resolveAssignmentTarget]
      rw [emitExpression, withDiagnostic_eq_ok, emitIndexExpression] at hrun
      obtain ⟨target, resolved, hresolve, -⟩ := bind_eq_ok.mp hrun
      exact ⟨_, hresolve⟩
  | _ => simp [Context.deletesProperty] at hdeletes

theorem emitDeleteExpression_does {right : Expression}
    (hresolve : Evaluates context (resolveAssignmentTarget right) (Targets context right)
      (right.targetEvaluations true context))
    (hvalue : Does context (emitExpression right) (right.evaluations true context)) :
    Does context (emitDeleteExpression (resolveAssignmentTarget right) (emitExpression right))
      (if context.deletesProperty right then
        seq (right.targetEvaluations true context) (targetDelete right)
      else seq (right.evaluations true context) (called "jayess_value_delete_value")) := by
  intro emitter value emitted hcontext hrun
  unfold emitDeleteExpression at hrun
  split at hrun
  · rename_i target resolved hresolved
    rw [if_pos (hcontext ▸ deletesProperty_of_resolved hresolved hrun)]
    have hdelete := hresolve.step fun target htarget => htarget.delete
    exact hdelete emitter value emitted hcontext (bind_eq_ok.mpr ⟨_, _, hresolved, hrun⟩)
  · rename_i error hresolved
    have hdelete := hvalue.step fun value _ =>
      (emitRuntimeCall_does : Does context (emitRuntimeUnaryValue "jayess_value_delete_value" value) _)
    have hne : ¬context.deletesProperty right = true := by
      intro hdeletes
      obtain ⟨operand, middle, hoperand, -⟩ := bind_eq_ok.mp hrun
      obtain ⟨target, htarget⟩ := resolve_of_deletesProperty (hcontext ▸ hdeletes) hoperand
      rw [hresolved] at htarget
      simp at htarget
    rw [if_neg hne]
    exact hdelete emitter value emitted hcontext hrun

theorem emitMemberExpression_does (pos : SourcePos) {target : Expression} {traces : Traces Event}
    (htarget : Does context emitTarget traces) :
    Does context (emitMemberExpression target property isPrivate optional emitTarget)
      (match context.propertySymbol target property isPrivate optional with
        | some symbol => called symbol
        | none => seq traces
            (seq (called "jayess_value_from_string_copy") (called "jayess_value_get_property"))) := by
  refine .get fun emitter hcontext => ?_
  subst hcontext
  have hproperty : emitter.context.propertySymbol target property isPrivate optional =
    stdlibPropertySymbol emitter target property isPrivate optional := rfl
  rw [hproperty]
  cases stdlibPropertySymbol emitter target property isPrivate optional with
  | some symbol => exact emitRuntimeCall_does
  | none =>
      rw [← Flow.Traces.seq_assoc]
      have hresolve := @resolveMember_evaluates emitter.context pos target property isPrivate
        optional emitTarget traces htarget
      exact hresolve.step fun resolved hresolved => hresolved.load

theorem emitIndexExpression_does (pos : SourcePos) {target index : Expression} {optional : Bool}
    {emitTarget emitIndex : ExprM Operand} {traces indexTraces : Traces Event}
    (htarget : Does context emitTarget traces) (hindex : Does context emitIndex indexTraces) :
    Does context (emitIndexExpression optional emitTarget emitIndex)
      (seq traces (seq indexTraces (called "jayess_value_get_index"))) := by
  rw [← Flow.Traces.seq_assoc]
  have hresolve := @resolveIndex_evaluates context pos target index optional emitTarget emitIndex
    traces indexTraces htarget hindex
  exact hresolve.step fun resolved hresolved => hresolved.load

theorem emitFilled_does {emitNew : ExprM Operand} {emitAll : Operand → ExprM Unit}
    {new all : Traces Event} (hnew : Does context emitNew new)
    (hall : ∀ target, Does context (emitAll target) all) :
    Does context (do
      let target ← emitNew
      emitAll target
      return target) (seq new all) :=
  hnew.step fun target _ => (hall target).last fun _ _ => trivial

theorem emitCallArguments_does {emitAll : Operand → ExprM Unit} {all : Traces Event}
    (hall : ∀ target, Does context (emitAll target) all) :
    Does context (emitCallArguments emitAll) (seq (called "jayess_array_new") all) :=
  emitFilled_does emitRuntimeCall_does hall

theorem emitCallFunction_does {emitCallee emitArguments : ExprM Operand} {callee : Traces Event}
    (hcallee : Does context emitCallee callee)
    (harguments : Does context emitArguments (seq (called "jayess_array_new") arguments)) :
    Does context (emitCallFunction emitCallee emitArguments)
      (seq callee (seq (called "jayess_value_undefined") (seq (called "jayess_array_new")
        (seq arguments (called "jayess_call_function"))))) := by
  rw [← @Flow.Traces.seq_assoc _ _ arguments]
  exact hcallee.step fun _ _ => emitRuntimeUndefined_does.step fun _ _ =>
    harguments.step fun _ _ => emitRuntimeCall_does

theorem emitRuntimeValueArgsCall_does {args : Traces Event} (hargs : Does context emitArgs args) :
    Does context (emitRuntimeValueArgsCall symbol emitArgs) (seq args (called symbol)) :=
  hargs.step fun _ _ => emitRuntimeCall_does

theorem emitCallExpression_does {callee : String} {emitArguments : ExprM Operand}
    {args : Traces Event} (hargs : Does context emitArgs args)
    (harguments : Does context emitArguments (seq (called "jayess_array_new") arguments)) :
    Does context (emitCallExpression callee emitArgs emitArguments)
      (match context.callSymbol callee with
        | some symbol => seq args (called symbol)
        | none => seq (context.loads callee) (seq (called "jayess_value_undefined")
            (seq (called "jayess_array_new") (seq arguments (called "jayess_call_function"))))) := by
  refine .get fun emitter hcontext => ?_
  subst hcontext
  have hcall : emitter.context.callSymbol callee = stdlibLocalCallSymbol emitter callee := rfl
  rw [hcall]
  cases stdlibLocalCallSymbol emitter callee with
  | some symbol => exact emitRuntimeValueArgsCall_does hargs
  | none => exact emitCallFunction_does loadLocal_does harguments

theorem emitSuperConstructorCall_does {emitArguments : ExprM Operand}
    (harguments : Does context emitArguments (seq (called "jayess_array_new") arguments)) :
    Does context (emitSuperConstructorCall emitArguments)
      (seq (called "jayess_current_this") (seq (called "jayess_array_new")
        (seq arguments (called "jayess_class_construct_super")))) := by
  rw [← @Flow.Traces.seq_assoc _ _ arguments]
  exact emitRuntimeCall_does.step fun _ _ => harguments.step fun _ _ => emitRuntimeCall_does

theorem emitNewExpression_does {emitCallee emitArguments : ExprM Operand} {callee : Traces Event}
    (hcallee : Does context emitCallee callee)
    (harguments : Does context emitArguments (seq (called "jayess_array_new") arguments)) :
    Does context (emitNewExpression emitCallee emitArguments)
      (seq callee (seq (called "jayess_array_new")
        (seq arguments (called "jayess_class_construct")))) := by
  rw [← @Flow.Traces.seq_assoc _ _ arguments]
  exact emitBinaryOperands_does hcallee harguments

theorem emitCallableHelperInvoke_does {target : Traces Event}
    (htarget : Does context emitTarget target)
    (hthisAndRest : Does context emitThisAndRest thisAndRest) :
    Does context (emitCallableHelperInvoke symbol emitTarget emitThisAndRest)
      (seq target (seq thisAndRest (called symbol))) :=
  htarget.step fun _ _ => hthisAndRest.step fun _ _ => emitRuntimeCall_does

theorem emitApplyInvoke_does {emitApplied : Option (ExprM Operand)} {target applied : Traces Event}
    (htarget : Does context emitTarget target)
    (hthisAndRest : Does context emitThisAndRest thisAndRest)
    (happlied : ∀ emit ∈ emitApplied, Does context emit applied)
    (hnone : emitApplied = none → applied = [[]]) :
    Does context (emitApplyInvoke emitTarget emitThisAndRest emitApplied)
      (seq target (seq thisAndRest (seq applied (called "jayess_apply_function")))) := by
  refine htarget.step fun _ _ => hthisAndRest.step fun pair _ => ?_
  cases emitApplied with
  | none =>
      rw [hnone rfl, Flow.Traces.nil_seq]
      exact emitRuntimeCall_does
  | some emit => exact (happlied emit rfl).step fun _ _ => emitRuntimeCall_does

theorem emitMethodInvoke_does {emitArguments : ExprM Operand} {target : Traces Event}
    (htarget : Does context emitTarget target)
    (harguments : Does context emitArguments (seq (called "jayess_array_new") arguments)) :
    Does context (emitMethodInvoke emitTarget property emitArguments)
      (seq target (seq (called "jayess_value_from_string_copy")
        (seq (called "jayess_value_get_property") (seq (called "jayess_array_new")
          (seq arguments (called "jayess_call_function")))))) := by
  rw [← @Flow.Traces.seq_assoc _ _ arguments]
  exact htarget.step fun _ _ => emitRuntimeString_does.step fun _ _ =>
    emitRuntimeCall_does.step fun _ _ => harguments.step fun _ _ => emitRuntimeCall_does

theorem emitClosureCaptures_does {closure : Operand} (captures : List Lifetime.ClosureCapture) :
    Does context (captures.forM fun capture => emitClosureCapture closure capture.binding)
      (context.capturing (captures.map (·.binding))) := by
  induction captures with
  | nil => exact .done trivial
  | cons capture rest ih =>
      have hcapture : Does context (emitClosureCapture closure capture.binding)
          (seq (context.loads capture.binding) (seq (called "jayess_value_from_string_copy")
            (called "jayess_closure_environment_set"))) :=
        loadLocal_does.step fun _ _ => emitRuntimeString_does.step fun _ _ =>
          emitRuntimeVoidCall_does
      have hstep := hcapture.step fun _ _ => ih
      rwa [Flow.Traces.seq_assoc, Flow.Traces.seq_assoc] at hstep

theorem emitFunctionExpression_does :
    Does context (emitFunctionExpression pos) (context.creatingFunction pos) := by
  refine .get fun emitter hcontext => ?_
  subst hcontext
  have henvironment : emitter.context.environment pos = closureEnvironmentFor emitter pos := rfl
  rw [Context.creatingFunction, henvironment]
  cases closureEnvironmentFor emitter pos with
  | none => exact emitRuntimeCall_does
  | some environment =>
      have hclosure : Does emitter.context (emitClosureEnvironment environment)
          (seq (called "jayess_closure_environment_new")
            (emitter.context.capturing (environment.captures.map (·.binding)))) :=
        emitRuntimeCall_does.step fun _ _ =>
          (emitClosureCaptures_does environment.captures).last fun _ _ => trivial
      have hfunction := hclosure.step fun closure _ =>
        (emitRuntimeCall_does : Does emitter.context
          (emitRuntimeValueCall "jayess_function_new_with_closure" [⟨"i8*", closure⟩]) _)
      rwa [Flow.Traces.seq_assoc] at hfunction

/-- The traces of a called member. -/
def memberInvokeTraces (context : Context) (object : Expression) (property : String)
    (isPrivate optional : Bool) (target values arguments thisAndRest applied : Traces Event) :
    Traces Event :=
  match processStreamSymbol object property with
  | some symbol => seq values (called symbol)
  | none =>
    match context.memberSymbol object property isPrivate optional with
    | some symbol => seq values (called symbol)
    | none =>
      seq target
        (match property with
          | "bind" => seq thisAndRest (called "jayess_bind_function")
          | "call" => seq thisAndRest (called "jayess_call_function")
          | "apply" => seq thisAndRest (seq applied (called "jayess_apply_function"))
          | _ => seq (called "jayess_value_from_string_copy")
              (seq (called "jayess_value_get_property") (seq (called "jayess_array_new")
                (seq arguments (called "jayess_call_function")))))

theorem emitMemberInvoke_does {object : Expression} {emitArguments : ExprM Operand}
    {emitApplied : Option (ExprM Operand)} {target values applied : Traces Event}
    (htarget : Does context emitTarget target) (hvalues : Does context emitArgs values)
    (harguments : Does context emitArguments (seq (called "jayess_array_new") arguments))
    (hthisAndRest : Does context emitThisAndRest thisAndRest)
    (happlied : ∀ emit ∈ emitApplied, Does context emit applied)
    (hnone : emitApplied = none → applied = [[]]) :
    Does context
      (emitMemberInvoke object property isPrivate optional emitTarget emitArgs emitArguments
        emitThisAndRest emitApplied)
      (memberInvokeTraces context object property isPrivate optional target values arguments
        thisAndRest applied) := by
  refine .unless_fail fun _ => .unless_fail fun _ => ?_
  unfold memberInvokeTraces
  cases processStreamSymbol object property with
  | some symbol => exact emitRuntimeValueArgsCall_does hvalues
  | none =>
      refine .get fun emitter hcontext => ?_
      subst hcontext
      have hmember : emitter.context.memberSymbol object property isPrivate optional =
        stdlibMemberInvokeSymbol emitter object property isPrivate optional := rfl
      rw [hmember]
      cases stdlibMemberInvokeSymbol emitter object property isPrivate optional with
      | some symbol => exact emitRuntimeValueArgsCall_does hvalues
      | none =>
          dsimp only
          split
          · exact emitCallableHelperInvoke_does htarget hthisAndRest
          · exact emitCallableHelperInvoke_does htarget hthisAndRest
          · exact emitApplyInvoke_does htarget hthisAndRest happlied hnone
          · first
              | exact emitMethodInvoke_does htarget harguments
              | split
                · contradiction
                · contradiction
                · contradiction
                · exact emitMethodInvoke_does htarget harguments

theorem emitAppend_does {emit : ExprM Operand} {target : Operand} {emitRest : ExprM Unit}
    {traces rest : Traces Event} (hemit : Does context emit traces)
    (hrest : Does context emitRest rest) :
    Does context (do
      let value ← emit
      emitRuntimeVoidCall symbol [valueArg target, valueArg value]
      emitRest) (seq traces (seq (called symbol) rest)) :=
  hemit.step fun _ _ => emitRuntimeVoidCall_does.step fun _ _ => hrest

theorem emitProperty_does {emitKey emitValue : ExprM Operand} {object : Operand}
    {emitRest : ExprM Unit} {key value rest : Traces Event} (hkey : Does context emitKey key)
    (hvalue : Does context emitValue value) (hrest : Does context emitRest rest) :
    Does context (do
      let keyValue ← emitKey
      let propertyValue ← emitValue
      emitRuntimePropertyStore object keyValue propertyValue
      emitRest) (seq key (seq value (seq (called "jayess_value_set_property") rest))) :=
  hkey.step fun _ _ => hvalue.step fun _ _ => emitRuntimeVoidCall_does.step fun _ _ => hrest

def MemberTargetDoes (context : Context) : Expression → Prop
  | .member _ target _ _ _ => Does context (emitExpression target) (target.evaluations true context)
  | _ => True

theorem emitInvokeExpression_does {callee : Expression} {arguments : List Expression}
    (hcallee : Does context (emitExpression callee) (callee.evaluations true context))
    (hmember : MemberTargetDoes context callee)
    (hvalues : Does context (runtimeValueArgs arguments) (valuesEvaluations true context arguments))
    (harguments : ∀ array,
      Does context (emitArguments arguments array) (argumentsEvaluations true context arguments))
    (hthisAndRest : Does context (emitThisAndRestArguments arguments)
      (thisAndRestEvaluations true context arguments)) (happlied :
      (∀ emit ∈ emitAppliedArgument arguments,
        Does context emit (appliedEvaluations true context arguments)) ∧
      (emitAppliedArgument arguments = none → appliedEvaluations true context arguments = [[]])) :
    Does context (emitExpression (.invoke pos callee arguments optional))
      ((Expression.invoke pos callee arguments optional).evaluations true context) := by
  have hall := emitCallArguments_does harguments
  cases optional with
  | true => cases callee <;> exact .withDiagnostic .fail
  | false =>
      cases callee with
      | superExpression pos => exact .withDiagnostic (emitSuperConstructorCall_does hall)
      | member pos target property isPrivate optional =>
          exact .withDiagnostic
            (emitMemberInvoke_does hmember hvalues hall hthisAndRest happlied.1 happlied.2)
      | _ => exact .withDiagnostic (emitCallFunction_does hcallee hall)

section Walk

variable (context)

mutual

theorem emitExpression_does : ∀ expression : Expression,
    Does context (emitExpression expression) (expression.evaluations true context)
  | .comma _ left right => .withDiagnostic <|
      (emitExpression_does left).step fun _ _ => emitExpression_does right
  | .unary _ operator right => .withDiagnostic <| by
      cases operator with
      | void => exact (emitExpression_does right).step fun _ _ => emitRuntimeUndefined_does
      | delete =>
          exact emitDeleteExpression_does (resolveAssignmentTarget_does right)
            (emitExpression_does right)
      | bitNot => exact emitBigIntBitNotExpression_does
      | negate => exact emitNegateExpression_does
      | positive => exact emitNumericUnaryExpression_does
      | not => exact emitBooleanNotExpression_does
  | .update _ _ target _ => .withDiagnostic <|
      emitUpdateExpression_does (resolveAssignmentTarget_does target)
  | .typeof _ value => .withDiagnostic <|
      (emitExpression_does value).step fun _ _ => emitRuntimeCall_does
  | .conditional _ condition consequent alternative => .withDiagnostic <|
      emitConditionalExpression_does (emitExpression_does condition)
        (emitExpression_does consequent) (emitExpression_does alternative)
  | .nullishCoalesce _ left right => .withDiagnostic <|
      emitNullishCoalesceExpression_does (emitExpression_does left) (emitExpression_does right)
  | .logical _ _ left right => .withDiagnostic <|
      emitLogicalExpression_does (emitExpression_does left) (emitExpression_does right)
  | .binary .. => .withDiagnostic literal_does
  | .comparison _ operator left right => .withDiagnostic <| by
      cases operator with
      | «in» => exact emitBinaryOperands_does (emitExpression_does left) (emitExpression_does right)
      | _ => exact foldedComparison_does
  | .instanceof _ left right => .withDiagnostic <|
      emitBinaryOperands_does (emitExpression_does left) (emitExpression_does right)
  | .objectLiteral _ properties => .withDiagnostic <|
      emitFilled_does emitRuntimeCall_does (emitObjectProperties_does properties)
  | .arrayLiteral _ elements => .withDiagnostic <|
      emitFilled_does emitRuntimeCall_does (emitArrayElements_does elements)
  | .member pos target _ _ _ => .withDiagnostic <|
      emitMemberExpression_does pos (emitExpression_does target)
  | .index pos target index optional => .withDiagnostic <|
      @emitIndexExpression_does context pos target index optional _ _ _ _
        (emitExpression_does target) (emitExpression_does index)
  | .call _ _ arguments => .withDiagnostic <|
      emitCallExpression_does (runtimeValueArgs_does arguments)
        (emitCallArguments_does (emitArguments_does arguments))
  | .invoke _ callee arguments optional =>
      emitInvokeExpression_does (emitExpression_does callee) (memberTarget_does callee)
        (runtimeValueArgs_does arguments) (emitArguments_does arguments)
        (emitThisAndRestArguments_does arguments) (emitAppliedArgument_does arguments)
  | .newExpression _ callee arguments => .withDiagnostic <|
      emitNewExpression_does (emitExpression_does callee)
        (emitCallArguments_does (emitArguments_does arguments))
  | .thisExpression _ | .superExpression _ | .newTarget _ =>
      .withDiagnostic emitRuntimeCall_does
  | .functionExpression .. => .withDiagnostic emitFunctionExpression_does
  | .identifier .. => .withDiagnostic loadLocal_does
  | .numberLiteral .. | .bigIntLiteral .. | .stringLiteral .. | .templateLiteral ..
  | .booleanLiteral .. | .nullLiteral .. | .undefinedLiteral .. | .importMeta ..
  | .await .. | .yield .. => .withDiagnostic literal_does
  | .spread _ value => .withDiagnostic <| by
      intro emitter result emitted _ hrun
      simp [emitASTRuntimeLiteral, runtimeLiteralFromAST, ofExcept, bind_eq_ok] at hrun

theorem memberTarget_does : ∀ callee : Expression, MemberTargetDoes context callee
  | .member _ target _ _ _ => emitExpression_does target
  | .identifier .. | .thisExpression .. | .superExpression .. | .numberLiteral ..
  | .bigIntLiteral .. | .stringLiteral .. | .templateLiteral .. | .booleanLiteral ..
  | .nullLiteral .. | .undefinedLiteral .. | .importMeta .. | .newExpression ..
  | .newTarget .. | .binary .. | .comparison .. | .logical .. | .nullishCoalesce ..
  | .conditional .. | .comma .. | .unary .. | .update .. | .typeof .. | .await ..
  | .yield .. | .instanceof .. | .call .. | .invoke .. | .index ..
  | .objectLiteral .. | .arrayLiteral .. | .spread .. | .functionExpression .. => trivial

theorem resolveAssignmentTarget_does : ∀ target : Expression,
    Evaluates context (resolveAssignmentTarget target) (Targets context target)
      (target.targetEvaluations true context)
  | .identifier .. => resolveLocal_evaluates
  | .member _ target _ _ _ => resolveMember_evaluates (emitExpression_does target)
  | .index _ target index _ =>
      resolveIndex_evaluates (emitExpression_does target) (emitExpression_does index)
  | .thisExpression .. | .superExpression .. | .numberLiteral ..
  | .bigIntLiteral .. | .stringLiteral .. | .templateLiteral .. | .booleanLiteral ..
  | .nullLiteral .. | .undefinedLiteral .. | .importMeta .. | .newExpression ..
  | .newTarget .. | .binary .. | .comparison .. | .logical .. | .nullishCoalesce ..
  | .conditional .. | .comma .. | .unary .. | .update .. | .typeof .. | .await ..
  | .yield .. | .instanceof .. | .call .. | .invoke ..
  | .objectLiteral .. | .arrayLiteral .. | .spread .. | .functionExpression .. => .fail

theorem emitArguments_does : ∀ (arguments : List Expression) (array : Operand),
    Does context (emitArguments arguments array) (argumentsEvaluations true context arguments)
  | [], _ => .done trivial
  | argument :: rest, array => by
      have hrest := emitArguments_does rest array
      cases argument with
      | spread pos value => exact emitAppend_does (emitExpression_does value) hrest
      | _ => exact emitAppend_does (emitExpression_does _) hrest

theorem emitThisAndRestArguments_does : ∀ arguments : List Expression,
    Does context (emitThisAndRestArguments arguments)
      (thisAndRestEvaluations true context arguments)
  | [] => emitRuntimeUndefined_does.step fun _ _ => emitRuntimeCall_does.last fun _ _ => trivial
  | first :: arguments =>
      (emitExpression_does first).step fun _ _ =>
        (emitCallArguments_does (emitArguments_does arguments)).last fun _ _ => trivial

theorem emitAppliedArgument_does : ∀ arguments : List Expression,
    (∀ emit ∈ emitAppliedArgument arguments,
      Does context emit (appliedEvaluations true context arguments)) ∧
    (emitAppliedArgument arguments = none → appliedEvaluations true context arguments = [[]])
  | [] | [_] => ⟨by simp [emitAppliedArgument], fun _ => rfl⟩
  | first :: applied :: rest => by
      refine ⟨?_, by simp [emitAppliedArgument]⟩
      rintro _ ⟨rfl⟩
      exact emitExpression_does applied

theorem runtimeValueArgs_does : ∀ arguments : List Expression,
    Does context (runtimeValueArgs arguments) (valuesEvaluations true context arguments)
  | [] => .done trivial
  | argument :: rest =>
      (emitExpression_does argument).step fun _ _ =>
        (runtimeValueArgs_does rest).last fun _ _ => trivial

theorem emitArrayElements_does : ∀ (elements : List (Option Expression)) (array : Operand),
    Does context (emitArrayElements elements array) (elementsEvaluations true context elements)
  | [], _ => .done trivial
  | none :: rest, array =>
      emitRuntimeVoidCall_does.step fun _ _ => emitArrayElements_does rest array
  | some element :: rest, array => by
      have hrest := emitArrayElements_does rest array
      cases element with
      | spread pos value => exact emitAppend_does (emitExpression_does value) hrest
      | _ => exact emitAppend_does (emitExpression_does _) hrest

theorem emitObjectProperties_does : ∀ (properties : List ObjectProperty) (object : Operand),
    Does context (emitObjectProperties properties object)
      (propertiesEvaluations true context properties)
  | [], _ => .done trivial
  | ⟨key, keyExpr, value, computed, spread⟩ :: rest, object => by
      have hvalue := emitExpression_does value
      have hrest := emitObjectProperties_does rest object
      cases spread with
      | true => cases keyExpr <;> cases computed <;> exact emitAppend_does hvalue hrest
      | false =>
          cases keyExpr with
          | none =>
              cases computed with
              | true => exact emitProperty_does .fail hvalue hrest
              | false => exact emitProperty_does emitRuntimeString_does hvalue hrest
          | some keyExpr =>
              cases computed with
              | true => exact emitProperty_does (emitExpression_does keyExpr) hvalue hrest
              | false => exact emitProperty_does emitRuntimeString_does hvalue hrest

end

end Walk

end Jayess.Backend
