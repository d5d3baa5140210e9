import Jayess.Backend.Evaluates
import Jayess.Backend.StatementEmitter

/-!
# What the parts of a statement declare

Most parts of a statement leave the locals and the tables of imports as they are.
-/

namespace Jayess.Backend

open Flow (Traces)

variable {α β : Type}

/-- A state with an expression emitter in it. -/
class HasExpressions (σ : Type) where
  expressions : σ → ExpressionEmitter

instance : HasExpressions ExpressionEmitter := ⟨id⟩

instance : HasExpressions StatementEmitter := ⟨StatementEmitter.expressions⟩

open HasExpressions (expressions)

structure Declared (names : List String) (emitter emitted : ExpressionEmitter) : Prop where
  tables : emitted.stdlibTables = emitter.stdlibTables
  slots : ∀ name, (emitted.locals name).isSome = true ↔
    (emitter.locals name).isSome = true ∨ name ∈ names

def Declares {σ : Type} [HasExpressions σ] (names : List String)
    (action : StateT σ (Except EmitError) α) : Prop :=
  ∀ emitter value emitted, action emitter = .ok (value, emitted) →
    Declared names (expressions emitter) (expressions emitted)

def Quiet {σ : Type} [HasExpressions σ] (action : StateT σ (Except EmitError) α) : Prop :=
  ∀ emitter value emitted, action emitter = .ok (value, emitted) →
    (expressions emitted).stdlibTables = (expressions emitter).stdlibTables ∧
      (expressions emitted).locals = (expressions emitter).locals

namespace Quiet

section Rules

variable {σ : Type} [HasExpressions σ] {action : StateT σ (Except EmitError) α}
  {next : α → StateT σ (Except EmitError) β}

theorem pure {value : α} : Quiet (Pure.pure value : StateT σ (Except EmitError) α) := by
  intro emitter result emitted hrun
  simp only [pure_eq_ok, Prod.mk.injEq] at hrun
  rw [hrun.2]
  exact ⟨rfl, rfl⟩

theorem bind (haction : Quiet action) (hnext : ∀ value, Quiet (next value)) :
    Quiet (action >>= next) := by
  intro emitter result emitted hrun
  obtain ⟨value, middle, hfirst, hsecond⟩ := bind_eq_ok.mp hrun
  have hbefore := haction _ _ _ hfirst
  have hafter := hnext value _ _ _ hsecond
  exact ⟨hafter.1.trans hbefore.1, hafter.2.trans hbefore.2⟩

theorem fail {message : String} : Quiet (Backend.fail message : StateT σ (Except EmitError) α) :=
  fun _ _ _ hrun => absurd hrun fail_ne_ok

theorem get {next : σ → StateT σ (Except EmitError) β} (hnext : ∀ emitter, Quiet (next emitter)) :
    Quiet (MonadState.get >>= next) := by
  intro emitter result emitted hrun
  obtain ⟨value, middle, hget, hsecond⟩ := bind_eq_ok.mp hrun
  obtain ⟨rfl, rfl⟩ := by simpa only [get_eq_ok, Prod.mk.injEq] using hget
  exact hnext emitter _ _ _ hsecond

theorem changes {change : σ → σ}
    (htables : ∀ emitter,
      (expressions (change emitter)).stdlibTables = (expressions emitter).stdlibTables)
    (hlocals : ∀ emitter, (expressions (change emitter)).locals = (expressions emitter).locals) :
    Quiet (modify change : StateT σ (Except EmitError) Unit) := by
  intro emitter result emitted hrun
  simp only [modify_eq_ok, Prod.mk.injEq] at hrun
  rw [← hrun.2]
  exact ⟨htables emitter, hlocals emitter⟩

theorem unless_fail {condition : Prop} [Decidable condition] {message : String}
    (haction : Quiet action) :
    Quiet (do
      if condition then Backend.fail message
      action) := by
  intro emitter value emitted hrun
  exact haction _ _ _ (unless_fail_run hrun).2

theorem forM {items : List α} {body : α → StateT σ (Except EmitError) Unit}
    (hbody : ∀ item, Quiet (body item)) : Quiet (items.forM body) := by
  induction items with
  | nil => exact pure
  | cons item rest ih => exact (hbody item).bind fun _ => ih

theorem declares (haction : Quiet action) : Declares [] action := by
  intro emitter value emitted hrun
  obtain ⟨htables, hlocals⟩ := haction _ _ _ hrun
  exact ⟨htables, fun name => by simp [hlocals]⟩

end Rules

theorem expr {action : ExprM α} (haction : Quiet action) : Quiet (Backend.expr action) := by
  intro emitter value emitted hrun
  unfold Backend.expr at hrun
  split at hrun
  · rename_i result expressions hresult
    obtain ⟨rfl, rfl⟩ := by simpa using hrun
    exact haction _ _ _ hresult
  · simp at hrun

end Quiet

namespace Declares

section Rules

variable {σ : Type} [HasExpressions σ] {names more : List String}
  {action : StateT σ (Except EmitError) α} {next : α → StateT σ (Except EmitError) β}

theorem bind (haction : Declares names action) (hnext : ∀ value, Declares more (next value)) :
    Declares (names ++ more) (action >>= next) := by
  intro emitter result emitted hrun
  obtain ⟨value, middle, hfirst, hsecond⟩ := bind_eq_ok.mp hrun
  have hbefore := haction _ _ _ hfirst
  have hafter := hnext value _ _ _ hsecond
  refine ⟨hafter.tables.trans hbefore.tables, fun name => ?_⟩
  rw [hafter.slots, hbefore.slots, List.mem_append, or_assoc]

theorem after (haction : Quiet action) (hnext : ∀ value, Declares more (next value)) :
    Declares more (action >>= next) :=
  haction.declares.bind hnext

theorem before (haction : Declares names action) (hnext : ∀ value, Quiet (next value)) :
    Declares names (action >>= next) := by
  have hboth := haction.bind fun value => (hnext value).declares
  rwa [List.append_nil] at hboth

theorem fail {message : String} : Declares names (Backend.fail message >>= next) := by
  intro emitter value emitted hrun
  obtain ⟨_, _, hfail, -⟩ := bind_eq_ok.mp hrun
  exact absurd hfail fail_ne_ok

theorem unless_fail {condition : Prop} [Decidable condition] {message : String}
    (haction : Declares names action) :
    Declares names (do
      if condition then Backend.fail message
      action) := by
  intro emitter value emitted hrun
  by_cases hcondition : condition
  · rw [if_pos hcondition] at hrun
    exact fail emitter value emitted hrun
  · rw [if_neg hcondition] at hrun
    exact haction _ _ _ hrun

end Rules

theorem expr {names : List String} {action : ExprM α} (haction : Declares names action) :
    Declares names (Backend.expr action) := by
  intro emitter value emitted hrun
  unfold Backend.expr at hrun
  split at hrun
  · rename_i result expressions hresult
    obtain ⟨rfl, rfl⟩ := by simpa using hrun
    exact haction _ _ _ hresult
  · simp at hrun

end Declares

theorem Evaluates.quiet {action : ExprM α} {post : α → Prop} {traces : Context → Traces Event}
    (haction : ∀ context, Evaluates context action post (traces context)) : Quiet action := by
  intro emitter value emitted hrun
  have hcontext := (haction emitter.context _ _ _ rfl hrun).1
  exact ⟨congrArg Context.tables hcontext, congrArg Context.slots hcontext⟩

/-! ## Expressions, locals and patterns -/

theorem emitExpression_quiet (expression : Expression) : Quiet (emitExpression expression) :=
  Evaluates.quiet fun context => emitExpression_does context expression

theorem resolveAssignmentTarget_quiet (target : Expression) :
    Quiet (resolveAssignmentTarget target) := by
  intro emitter value emitted hrun
  have hcontext := (resolveAssignmentTarget_does emitter.context target _ _ _ rfl hrun).1
  exact ⟨congrArg Context.tables hcontext, congrArg Context.slots hcontext⟩

variable {symbol name source : String} {pos : SourcePos} {pattern : Option BindingPattern}
    {value : Option Expression}

theorem emitRuntimeCall_quiet {resultType : String} {args : List RuntimeCallArg} :
    Quiet (emitRuntimeCall resultType symbol args) :=
  Evaluates.quiet fun _ => emitRuntimeCall_does

theorem emitRuntimeVoidCall_quiet {args : List RuntimeCallArg} :
    Quiet (emitRuntimeVoidCall symbol args) :=
  Evaluates.quiet fun _ => emitRuntimeVoidCall_does

theorem emitRuntimeLiteral_quiet (literal : RuntimeLiteral) : Quiet (emitRuntimeLiteral literal) :=
  Evaluates.quiet fun _ => emitRuntimeLiteral_does literal

theorem loadLocal_quiet : Quiet (loadLocal name) :=
  Evaluates.quiet fun _ => loadLocal_does

theorem store_quiet {target : AssignmentTarget} {value : Operand} : Quiet (target.store value) := by
  cases target with
  | localSlot name => exact Evaluates.quiet fun _ => storeLocal_does
  | runtimeSet getter setter deleter object key => exact emitRuntimeVoidCall_quiet

theorem appendLines_quiet {lines : List Line} : Quiet (appendLines lines) := by
  intro emitter value emitted hrun
  obtain ⟨-, rfl⟩ := by simpa only [appendLines, Except.ok.injEq, Prod.mk.injEq] using hrun
  exact ⟨rfl, rfl⟩

theorem recordScopedLocal_quiet : Quiet (recordScopedLocal name) := by
  refine .changes (fun emitter => ?_) fun emitter => ?_ <;>
  · obtain ⟨_, _, _, _, _, _, _, _, _, _, scopes, _⟩ := emitter
    cases scopes with
    | nil => rfl
    | cons scope outer => dsimp only; split <;> rfl

theorem bindLocal_declares {value : Operand} :
    Declares [name] (bindLocal name value) := by
  refine .unless_fail (.after ?_ fun slot => .before ?_ fun _ => appendLines_quiet)
  · intro emitter slot emitted hrun
    obtain ⟨-, rfl⟩ := by simpa only [nextLocalSlot, Except.ok.injEq, Prod.mk.injEq] using hrun
    exact ⟨rfl, rfl⟩
  · intro emitter result emitted hrun
    simp only [modify_eq_ok, Prod.mk.injEq] at hrun
    rw [← hrun.2]
    refine ⟨rfl, fun other => ?_⟩
    change (Function.update emitter.locals name (some slot) other).isSome = true ↔ _
    by_cases heq : other = name
    · simp [heq]
    · rw [Function.update_of_ne heq]
      simp [heq, expressions]

theorem declareLocal_declares {value : Operand} :
    Declares [name] (declareLocal name value) :=
  .after recordScopedLocal_quiet fun _ => bindLocal_declares

mutual

theorem declareBindingTargets_declares : ∀ (pattern : Option BindingPattern) (value : Operand),
    Declares (patternNames pattern) (declareBindingTargets pattern value)
  | none, _ => Quiet.pure.declares
  | some pattern, value => declarePatternTargets_declares pattern value

theorem declarePatternTargets_declares : ∀ (pattern : BindingPattern) (value : Operand),
    Declares (collectBindingNames pattern) (declarePatternTargets pattern value)
  | .name name, _ => by
      by_cases hname : name = ""
      · refine .after recordScopedLocal_quiet fun _ => ?_
        rw [bindLocal, if_pos hname]
        exact .fail
      · rw [collectBindingNames, if_neg hname]
        exact declareLocal_declares
  | .default pattern _, value => declareBindingTargets_declares pattern value
  | .rest pattern, value => declareBindingTargets_declares pattern value
  | .array elements, value => declareElementTargets_declares elements value
  | .object properties, value => declarePropertyTargets_declares properties value

theorem declareElementTargets_declares :
    ∀ (elements : List (Option BindingPattern)) (value : Operand),
      Declares (elementNames elements) (declareElementTargets elements value)
  | [], _ => Quiet.pure.declares
  | element :: rest, value =>
      (declareBindingTargets_declares element value).bind fun _ =>
        declareElementTargets_declares rest value

theorem declarePropertyTargets_declares :
    ∀ (properties : List ObjectBindingProperty) (value : Operand),
      Declares (propertyNames properties) (declarePropertyTargets properties value)
  | [], _ => Quiet.pure.declares
  | ⟨_, _, pattern, _, _⟩ :: rest, value =>
      (declareBindingTargets_declares pattern value).bind fun _ =>
        declarePropertyTargets_declares rest value

end

theorem emitPropertyKey_quiet {owner key : String} {computed : Bool} (keyExpr : Option Expression) :
    Quiet (emitPropertyKey owner key computed (keyExpr.map emitExpression)) := by
  cases computed with
  | false => exact emitRuntimeLiteral_quiet _
  | true =>
      cases keyExpr with
      | none => exact .fail
      | some keyExpr => exact emitExpression_quiet keyExpr

theorem emitArrayPart_quiet {element : BindingPattern} {source : Operand} {index : Nat} :
    Quiet (emitArrayPart element source index) := by
  unfold emitArrayPart
  split
  · exact emitRuntimeCall_quiet
  · exact (emitRuntimeLiteral_quiet _).bind fun _ => emitRuntimeCall_quiet

theorem emitObjectPart_quiet {key : String} {keyExpr : Option Expression} {computed isRest : Bool}
    {source : Operand} : Quiet (emitObjectPart key keyExpr computed isRest source) := by
  unfold emitObjectPart
  split
  · exact emitRuntimeCall_quiet
  · exact (emitPropertyKey_quiet keyExpr).bind fun _ =>
      (emitRuntimeLiteral_quiet _).bind fun _ => emitRuntimeCall_quiet

mutual

theorem emitDestructureToPattern_quiet : ∀ (pattern : Option BindingPattern) (source : Operand),
    Quiet (emitDestructureToPattern pattern source)
  | none, _ => .pure
  | some pattern, source => emitDestructure_quiet pattern source

theorem emitDestructure_quiet : ∀ (pattern : BindingPattern) (source : Operand),
    Quiet (emitDestructure pattern source)
  | .name name, _ => by
      have hresolve : Quiet (resolveLocal name) :=
        resolveAssignmentTarget_quiet (.identifier ⟨0, 0⟩ name)
      exact hresolve.bind fun _ => store_quiet
  | .default pattern value, _ =>
      (emitExpression_quiet value).bind fun _ => emitRuntimeCall_quiet.bind fun _ =>
        emitDestructureToPattern_quiet pattern _
  | .rest pattern, source => emitDestructureToPattern_quiet pattern source
  | .array elements, source => emitArrayDestructure_quiet elements source 0
  | .object properties, source => emitObjectDestructure_quiet properties source

theorem emitArrayDestructure_quiet :
    ∀ (elements : List (Option BindingPattern)) (source : Operand) (index : Nat),
      Quiet (emitArrayDestructure elements source index)
  | [], _, _ => .pure
  | none :: rest, source, index => emitArrayDestructure_quiet rest source (index + 1)
  | some element :: rest, source, index =>
      emitArrayPart_quiet.bind fun _ => (emitDestructure_quiet element _).bind fun _ =>
        emitArrayDestructure_quiet rest source (index + 1)

theorem emitObjectDestructure_quiet :
    ∀ (properties : List ObjectBindingProperty) (source : Operand),
      Quiet (emitObjectDestructure properties source)
  | [], _ => .pure
  | ⟨_, _, pattern, _, _⟩ :: rest, source =>
      emitObjectPart_quiet.bind fun _ => (emitDestructureToPattern_quiet pattern _).bind fun _ =>
        emitObjectDestructure_quiet rest source

end

theorem emitLifetimeCall_quiet : Quiet (emitLifetimeCall symbol name) := by
  refine .get fun emitter => ?_
  split
  · exact (Quiet.expr loadLocal_quiet).bind fun _ => .expr emitRuntimeVoidCall_quiet
  · exact .pure

theorem emitCleanupList_quiet {cleanups : List String} : Quiet (emitCleanupList cleanups) :=
  .forM fun _ => emitLifetimeCall_quiet

theorem emitCleanupsUntil_quiet {boundary : Nat} : Quiet (emitCleanupsUntil boundary) :=
  .get fun _ => .forM fun _ => emitCleanupList_quiet

theorem pushLifetimeCleanup_quiet : Quiet (pushLifetimeCleanup name) := by
  refine .changes (fun emitter => ?_) fun emitter => ?_ <;>
  · obtain ⟨_, _, _, _, _, _, _, _, _, _, _, cleanupScopes, _⟩ := emitter
    cases cleanupScopes with
    | nil => rfl
    | cons scope outer => dsimp only; split <;> rfl

theorem registerLifetimes_quiet {plan : Lifetime.Plan} {names : List String} :
    Quiet (registerLifetimes plan pos names) := by
  refine .forM fun name => ?_
  have hextended : Quiet (do
      if hasExtendedLifetime plan name pos then emitLifetimeCall "jayess_value_retain" name) := by
    split
    · exact emitLifetimeCall_quiet
    · exact .pure
  dsimp only
  split
  · exact pushLifetimeCleanup_quiet.bind fun _ => hextended
  · exact hextended

theorem registerDeclarationLifetime_quiet :
    Quiet (registerDeclarationLifetime pos pattern) := by
  refine .get fun emitter => ?_
  split
  · exact .pure
  · exact registerLifetimes_quiet

theorem emitOptionalValue_quiet (value : Option Expression) : Quiet (emitOptionalValue value) := by
  cases value with
  | none => exact .pure
  | some value => exact emitExpression_quiet value

theorem emitPatternSource_quiet {value : Operand} : Quiet (emitPatternSource value) := by
  unfold emitPatternSource
  split
  · exact emitRuntimeLiteral_quiet _
  · exact .pure

theorem bindingName_eq_some (hname : bindingName pattern = some name) :
    patternNames pattern = [name] := by
  unfold bindingName at hname
  split at hname
  · rename_i bound
    by_cases hbound : bound = ""
    · simp [hbound] at hname
    · obtain rfl : bound = name := by simpa [hbound] using hname
      rw [patternNames, collectBindingNames, if_neg hbound]
  · cases hname

theorem emitBindingDeclaration_declares {value : Operand} :
    Declares (patternNames pattern) (emitBindingDeclaration pattern value) := by
  unfold emitBindingDeclaration
  split
  · rename_i name hname
    rw [bindingName_eq_some hname]
    exact declareLocal_declares
  · exact .after emitPatternSource_quiet fun _ =>
      (declareBindingTargets_declares pattern .undef).before fun _ =>
        emitDestructureToPattern_quiet pattern _

theorem emitVariableDeclaration_declares :
    Declares (patternNames pattern) (emitVariableDeclaration pos pattern value) :=
  .after (.expr (emitOptionalValue_quiet value)) fun _ =>
    (Declares.expr emitBindingDeclaration_declares).before fun _ =>
      registerDeclarationLifetime_quiet

theorem emitFunctionDeclaration_declares :
    Declares [name] (emitFunctionDeclaration name) :=
  .unless_fail (.after emitRuntimeCall_quiet fun _ => declareLocal_declares)

theorem emitFunctionCall_quiet {args : Operand → List RuntimeCallArg} :
    Quiet (emitFunctionCall symbol args) :=
  emitRuntimeCall_quiet.bind fun _ => emitRuntimeVoidCall_quiet

theorem emitKeyedMember_quiet {classValue key : Operand}
    {field getter setter isPrivate isStatic : Bool} :
    Quiet (emitKeyedMember classValue key value field getter setter isPrivate isStatic) := by
  unfold emitKeyedMember
  split
  · refine Quiet.bind ?_ fun _ => emitRuntimeVoidCall_quiet
    cases value with
    | none => exact emitRuntimeLiteral_quiet _
    | some value => exact emitExpression_quiet value
  · split
    · exact (emitRuntimeLiteral_quiet _).bind fun _ => emitFunctionCall_quiet
    · exact emitFunctionCall_quiet

theorem emitClassMember_quiet {classValue : Operand} (member : ClassMember) :
    Quiet (emitClassMember classValue member) := by
  cases member
  rw [emitClassMember]
  split
  · exact emitFunctionCall_quiet
  · split
    · exact emitFunctionCall_quiet
    · exact (emitPropertyKey_quiet _).bind fun _ => emitKeyedMember_quiet

theorem emitClassBase_quiet {base : Operand} (superClass : Option Expression) :
    Quiet (emitClassBase base superClass) := by
  cases superClass with
  | none => exact .pure
  | some superClass => exact (emitExpression_quiet superClass).bind fun _ => emitRuntimeCall_quiet

theorem emitClassDeclaration_declares {superClass : Option Expression} {members : List ClassMember}
    :
    Declares [name] (emitClassDeclaration name superClass members) :=
  .unless_fail <| .after (emitRuntimeLiteral_quiet _) fun _ => .after emitRuntimeCall_quiet fun _ =>
    .after (emitClassBase_quiet superClass) fun _ => declareLocal_declares.before fun _ =>
      (Quiet.forM emitClassMember_quiet).bind fun _ => emitRuntimeVoidCall_quiet

theorem emitAssignmentStatement_quiet {target value : Expression} {operator : AssignmentOperator} :
    Quiet (emitAssignmentStatement target operator value) :=
  .unless_fail <| (resolveAssignmentTarget_quiet target).bind fun _ =>
    (emitExpression_quiet value).bind fun _ => store_quiet

theorem emitCondition_quiet (condition : Expression) : Quiet (emitCondition condition) :=
  (emitExpression_quiet condition).bind fun _ => emitRuntimeCall_quiet

theorem emitLoopCondition_quiet (condition : Option Expression) :
    Quiet (emitLoopCondition condition) := by
  cases condition with
  | none => exact .pure
  | some condition => exact emitCondition_quiet condition

theorem emitCaseTest_quiet {discriminant : Operand} {test : Expression} :
    Quiet (emitCaseTest discriminant test) :=
  (emitExpression_quiet test).bind fun _ => emitRuntimeCall_quiet

theorem prepareForEachTarget_declares {target : Expression} :
    Declares (patternNames pattern) (prepareForEachTarget pos pattern target) := by
  cases pattern with
  | none =>
      exact ((Quiet.expr (resolveAssignmentTarget_quiet target)).bind fun _ => .pure).declares
  | some pattern =>
      exact (Declares.expr (declareBindingTargets_declares (some pattern) .undef)).before fun _ =>
        registerDeclarationLifetime_quiet.bind fun _ => .pure

theorem emitIteratorStep_quiet {iterator : Operand} : Quiet (emitIteratorStep iterator) :=
  emitRuntimeCall_quiet.bind fun _ => emitRuntimeCall_quiet.bind fun _ => .pure

theorem emitIteratorAssign_quiet {next : Operand} {target : ForEachTarget} :
    Quiet (emitIteratorAssign next target) := by
  refine emitRuntimeCall_quiet.bind fun value => ?_
  cases target with
  | pattern declared => exact emitDestructureToPattern_quiet (some declared) value
  | assignment target => exact store_quiet

theorem bindCaught_quiet {pattern : BindingPattern} {caught : Operand} :
    Quiet (bindCaught pos pattern caught) :=
  (Quiet.expr (emitDestructureToPattern_quiet (some pattern) caught)).bind fun _ =>
    registerDeclarationLifetime_quiet

theorem runtimeStringArgs_quiet : ∀ values : List String, Quiet (runtimeStringArgs values)
  | [] => .pure
  | value :: rest => by
      have hvalue : Quiet (do
          let lowered ← emitRuntimeString value
          return valueArg lowered) :=
        (emitRuntimeLiteral_quiet _).bind fun _ => .pure
      rw [runtimeStringArgs, List.mapM_cons]
      exact hvalue.bind fun _ => (runtimeStringArgs_quiet rest).bind fun _ => .pure

theorem emitRuntimeStringValueCall_quiet {values : List String} :
    Quiet (emitRuntimeStringValueCall symbol values) :=
  (runtimeStringArgs_quiet values).bind fun _ => emitRuntimeCall_quiet

theorem emitRuntimeStringVoidCall_quiet {values : List String} :
    Quiet (emitRuntimeStringVoidCall symbol values) :=
  (runtimeStringArgs_quiet values).bind fun _ => emitRuntimeVoidCall_quiet

theorem emitModuleExportBinding_quiet {localName exported : String} :
    Quiet (emitModuleExportBinding localName exported) := by
  unfold emitModuleExportBinding
  split
  · exact .pure
  · exact emitRuntimeStringVoidCall_quiet

theorem emitModuleReexport_quiet {names : List String} :
    Quiet (emitModuleReexport symbol source names) :=
  emitRuntimeStringVoidCall_quiet.bind fun _ => emitRuntimeStringVoidCall_quiet

theorem emitExportSpecifier_quiet (specifier : ExportSpecifier) :
    Quiet (emitExportSpecifier source specifier) := by
  unfold emitExportSpecifier
  split
  · exact emitModuleReexport_quiet
  · exact emitModuleExportBinding_quiet

theorem emitDefaultExport_quiet {value : Expression} : Quiet (emitDefaultExport value) :=
  (emitExpression_quiet value).bind fun _ =>
    (emitRuntimeLiteral_quiet _).bind fun _ => emitRuntimeVoidCall_quiet

theorem emitExports_quiet {declaration : Option Statement} {specifiers : List ExportSpecifier}
    {isDefault all : Bool} {namespaceName : String} :
    Quiet (emitExports declaration value specifiers source isDefault all namespaceName) := by
  unfold emitExports
  split
  · exact emitDefaultExport_quiet
  · split
    · exact emitModuleReexport_quiet
    · split
      · exact emitModuleReexport_quiet
      · split
        · exact .forM fun _ => emitModuleExportBinding_quiet
        · exact .forM emitExportSpecifier_quiet

end Jayess.Backend
