import Jayess.Backend.DirectCalls
import Jayess.Backend.Ending
import Jayess.Backend.Sites

/-!
# The direct calls of statements
-/

namespace Jayess.Backend

abbrev CallWalk := StdlibTables → List DirectCall × StdlibTables

namespace CallWalk

def nothing : CallWalk := fun tables => ([], tables)

def makes (calls : StdlibTables → List DirectCall) : CallWalk := fun tables => (calls tables, tables)

def imports (source : String) : List ImportSpecifier → CallWalk
  | [], tables => ([], tables)
  | specifier :: rest, tables => imports source rest (tables.record source specifier)

def andThen (first second : CallWalk) : CallWalk := fun tables =>
  ((first tables).1 ++ (second (first tables).2).1, (second (first tables).2).2)

end CallWalk

end Jayess.Backend

namespace Jayess

open Backend CallWalk

def optionDirectCalls (value : Option Expression) (tables : StdlibTables) : List DirectCall :=
  match value with
  | none => []
  | some expression => expression.directCalls tables

def keyDirectCalls (computed : Bool) (keyExpr : Option Expression) (tables : StdlibTables) :
    List DirectCall :=
  if computed then optionDirectCalls keyExpr tables else []

mutual

def patternDirectCalls (tables : StdlibTables) : Option BindingPattern → List DirectCall
  | none => []
  | some pattern => pattern.directCalls tables

def BindingPattern.directCalls (tables : StdlibTables) : BindingPattern → List DirectCall
  | .name _ => []
  | .default pattern value => value.directCalls tables ++ patternDirectCalls tables pattern
  | .rest pattern => patternDirectCalls tables pattern
  | .array elements => elementPatternDirectCalls tables elements
  | .object properties => propertyPatternDirectCalls tables properties

def elementPatternDirectCalls (tables : StdlibTables) :
    List (Option BindingPattern) → List DirectCall
  | [] => []
  | element :: rest => patternDirectCalls tables element ++ elementPatternDirectCalls tables rest

def propertyPatternDirectCalls (tables : StdlibTables) :
    List ObjectBindingProperty → List DirectCall
  | [] => []
  | ⟨_, keyExpr, pattern, computed, isRest⟩ :: rest =>
      keyDirectCalls (computed && !isRest) keyExpr tables ++
        (patternDirectCalls tables pattern ++ propertyPatternDirectCalls tables rest)

end

def ClassMember.directCalls (tables : StdlibTables) : ClassMember → List DirectCall
  | ⟨_, keyExpr, _, _, value, computed, staticBlock, isConstructor, field, _, _, _, _⟩ =>
      if isConstructor || staticBlock then []
      else keyDirectCalls computed keyExpr tables ++
        if field then optionDirectCalls value tables else []

def prepareCalls (pattern : Option BindingPattern) (target : Expression) : CallWalk :=
  match pattern with
  | none => makes target.directCalls
  | some _ => nothing

mutual

/-- The direct calls of a statement as they are emitted: the condition of a loop after its body, the
tests of a switch after its clauses, the body of a do-while loop twice unless it returns. -/
def Statement.callWalk (start : Ending) : Statement → CallWalk
  | .variableDecl _ _ _ pattern value =>
      (makes (optionDirectCalls value)).andThen (makes (patternDirectCalls · pattern))
  | .classDecl _ _ superClass members =>
      (makes (optionDirectCalls superClass)).andThen
        (makes fun tables => members.flatMap (ClassMember.directCalls tables))
  | .importDecl _ source specifiers sideEffect =>
      if sideEffect then nothing else imports source specifiers
  | .exportDecl _ declaration value _ _ _ _ _ =>
      (optionCallWalk start declaration).andThen (makes (optionDirectCalls value))
  | .assignment _ target _ value => (makes target.directCalls).andThen (makes value.directCalls)
  | .block _ statements => allCallWalk start statements
  | .ifStatement _ condition consequence alternative =>
      (makes condition.directCalls).andThen ((allCallWalk .cleared consequence).andThen
        (allCallWalk .cleared alternative))
  | .whileStatement _ condition body =>
      (allCallWalk .cleared body).andThen (makes condition.directCalls)
  | .doWhileStatement _ body condition =>
      (allCallWalk start body).andThen
        (if (allEnding start body).returnsHere then nothing
        else (allCallWalk .cleared body).andThen (makes condition.directCalls))
  | .forStatement _ init condition update body =>
      (optionCallWalk start init).andThen ((allCallWalk .cleared body).andThen
        ((optionCallWalk .cleared update).andThen (makes (optionDirectCalls condition))))
  | .forInStatement _ _ pattern target source body
  | .forOfStatement _ _ pattern target source body _ =>
      (makes source.directCalls).andThen ((prepareCalls pattern target).andThen
        ((allCallWalk .cleared body).andThen (makes (patternDirectCalls · pattern))))
  | .switchStatement _ discriminant cases default =>
      (makes discriminant.directCalls).andThen ((casesCallWalk cases).andThen
        ((allCallWalk .cleared default).andThen (makes (testsDirectCalls · cases))))
  | .labeledStatement _ _ statement => statement.callWalk start
  | .expressionStatement _ expression => makes expression.directCalls
  | .returnStatement _ value => makes (optionDirectCalls value)
  | .throwStatement _ value => makes value.directCalls
  | .tryStatement _ tryBody catchPattern catchBody finallyBody =>
      (allCallWalk .cleared tryBody).andThen
        ((if catchBody.isEmpty then nothing
          else (makes (patternDirectCalls · catchPattern)).andThen
            (allCallWalk .cleared catchBody)).andThen
          (allCallWalk .cleared finallyBody))
  | .empty _ | .functionDecl .. | .breakStatement .. | .continueStatement .. | .debugger _ =>
      nothing

def allCallWalk (start : Ending) : List Statement → CallWalk
  | [] => nothing
  | statement :: rest =>
      (statement.callWalk start).andThen (allCallWalk (statement.ending start) rest)

def optionCallWalk (start : Ending) : Option Statement → CallWalk
  | none => nothing
  | some statement => statement.callWalk start

def casesCallWalk : List SwitchCase → CallWalk
  | [] => nothing
  | ⟨_, consequent⟩ :: rest => (allCallWalk .cleared consequent).andThen (casesCallWalk rest)

def testsDirectCalls (tables : StdlibTables) : List SwitchCase → List DirectCall
  | [] => []
  | ⟨test, _⟩ :: rest => test.directCalls tables ++ testsDirectCalls tables rest

end

/-- The direct calls of a program. -/
def directCalls (statements : List Statement) : List DirectCall :=
  (allCallWalk .cleared statements .empty).1

end Jayess

namespace Jayess.Backend

variable {tables : StdlibTables} {calls more : List DirectCall}

/-! ## Declarations and patterns -/

variable {name symbol source : String} {pattern : Option BindingPattern} {pos : SourcePos}
    {value : Option Expression} {classValue : Operand} {specifier : ImportSpecifier}

theorem recordScopedLocal_makes : Makes tables (recordScopedLocal name) [] := by
  refine .changes (fun emitter => ?_) (fun emitter => ?_) fun emitter => ?_ <;>
  · obtain ⟨_, _, _, _, _, _, _, _, _, _, scopes, _⟩ := emitter
    cases scopes with
    | nil => rfl
    | cons scope outer => dsimp only; split <;> rfl

theorem bindLocal_makes {value : Operand} :
    Makes tables (bindLocal name value) [] := by
  refine .unless_fail fun _ => nextLocalSlot_makes.fixed fun slot _ => ?_
  refine Signs.fixed (.changes (fun _ => rfl) (fun _ => rfl) fun _ => rfl) fun _ _ => ?_
  exact appendLines_makes (by simp [Line.declaration?])

theorem declareLocal_makes {value : Operand} :
    Makes tables (declareLocal name value) [] :=
  recordScopedLocal_makes.fixed fun _ _ => bindLocal_makes

mutual

theorem declareBindingTargets_makes : ∀ (pattern : Option BindingPattern) (value : Operand),
    Makes tables (declareBindingTargets pattern value) []
  | none, _ => .done trivial
  | some pattern, value => declarePatternTargets_makes pattern value

theorem declarePatternTargets_makes : ∀ (pattern : BindingPattern) (value : Operand),
    Makes tables (declarePatternTargets pattern value) []
  | .name _, _ => declareLocal_makes
  | .default pattern _, value => declareBindingTargets_makes pattern value
  | .rest pattern, value => declareBindingTargets_makes pattern value
  | .array elements, value => declareElementTargets_makes elements value
  | .object properties, value => declarePropertyTargets_makes properties value

theorem declareElementTargets_makes : ∀ (elements : List (Option BindingPattern))
    (value : Operand), Makes tables (declareElementTargets elements value) []
  | [], _ => .done trivial
  | element :: rest, value =>
      (declareBindingTargets_makes element value).fixed fun _ _ =>
        declareElementTargets_makes rest value

theorem declarePropertyTargets_makes : ∀ (properties : List ObjectBindingProperty)
    (value : Operand), Makes tables (declarePropertyTargets properties value) []
  | [], _ => .done trivial
  | ⟨_, _, pattern, _, _⟩ :: rest, value =>
      (declareBindingTargets_makes pattern value).fixed fun _ _ =>
        declarePropertyTargets_makes rest value

end

theorem emitPropertyKey_makes {owner key : String} {computed : Bool}
    (keyExpr : Option Expression) :
    Makes tables (emitPropertyKey owner key computed (keyExpr.map emitExpression))
      (keyDirectCalls computed keyExpr tables) := by
  cases computed with
  | false => exact emitRuntimeString_makes
  | true =>
      cases keyExpr with
      | none => exact .fail
      | some keyExpr => exact emitExpression_makes tables keyExpr

theorem emitArrayPart_makes {element : BindingPattern} {source : Operand} {index : Nat} :
    Makes tables (emitArrayPart element source index) [] := by
  have hindex : ("jayess_destructure_array_index", runtimeValueIRType,
      [runtimeValueIRType, "i32", runtimeValueIRType]) ∈ specialSignatures := by
    simp [specialSignatures]
  have hrest : ("jayess_destructure_array_rest", runtimeValueIRType,
      [runtimeValueIRType, "i32"]) ∈ specialSignatures := by simp [specialSignatures]
  unfold emitArrayPart
  split
  · exact emitRuntimeCall_makes (hasSignature_special hrest)
  · exact emitRuntimeUndefined_makes.fixed fun _ _ =>
      emitRuntimeCall_makes (hasSignature_special hindex)

theorem emitObjectPart_makes {key : String} {keyExpr : Option Expression} {computed isRest : Bool}
    {source : Operand} :
    Makes tables (emitObjectPart key keyExpr computed isRest source)
      (keyDirectCalls (computed && !isRest) keyExpr tables) := by
  cases isRest with
  | true =>
      rw [Bool.not_true, Bool.and_false]
      exact emitUnary_makes (by simp [unarySymbols])
  | false =>
      rw [Bool.not_false, Bool.and_true]
      have hproperty : "jayess_destructure_property" ∈ ternarySymbols := by simp [ternarySymbols]
      exact (emitPropertyKey_makes keyExpr).fixed fun _ _ =>
        emitRuntimeUndefined_makes.fixed fun _ _ =>
          emitRuntimeCall_makes (hasSignature_ternary hproperty)

mutual

theorem emitDestructureToPattern_makes : ∀ (pattern : Option BindingPattern) (source : Operand),
    Makes tables (emitDestructureToPattern pattern source) (patternDirectCalls tables pattern)
  | none, _ => .done trivial
  | some pattern, source => emitDestructure_makes pattern source

theorem emitDestructure_makes : ∀ (pattern : BindingPattern) (source : Operand),
    Makes tables (emitDestructure pattern source) (pattern.directCalls tables)
  | .name _, _ => resolveLocal_resolves.fixed fun _ htarget => htarget.store_makes
  | .default pattern value, _ =>
      (emitExpression_makes tables value).step fun _ _ =>
        (emitBinary_makes (by simp [binarySymbols])).step fun _ _ =>
          emitDestructureToPattern_makes pattern _
  | .rest pattern, source => emitDestructureToPattern_makes pattern source
  | .array elements, source => emitArrayDestructure_makes elements source 0
  | .object properties, source => emitObjectDestructure_makes properties source

theorem emitArrayDestructure_makes : ∀ (elements : List (Option BindingPattern))
    (source : Operand) (index : Nat), Makes tables (emitArrayDestructure elements source index)
      (elementPatternDirectCalls tables elements)
  | [], _, _ => .done trivial
  | none :: rest, source, index => emitArrayDestructure_makes rest source (index + 1)
  | some element :: rest, source, index =>
      emitArrayPart_makes.step fun _ _ => (emitDestructure_makes element _).step fun _ _ =>
        emitArrayDestructure_makes rest source (index + 1)

theorem emitObjectDestructure_makes : ∀ (properties : List ObjectBindingProperty)
    (source : Operand), Makes tables (emitObjectDestructure properties source)
      (propertyPatternDirectCalls tables properties)
  | [], _ => .done trivial
  | ⟨_, _, pattern, _, _⟩ :: rest, source =>
      emitObjectPart_makes.step fun _ _ => (emitDestructureToPattern_makes pattern _).step
        fun _ _ => emitObjectDestructure_makes rest source

end

theorem emitPatternSource_makes {value : Operand} : Makes tables (emitPatternSource value) [] := by
  unfold emitPatternSource
  split
  · exact emitRuntimeUndefined_makes
  · exact .done trivial

theorem bindingName_directCalls (hname : bindingName pattern = some name) :
    patternDirectCalls tables pattern = [] := by
  unfold bindingName at hname
  split at hname
  · rfl
  · cases hname

theorem emitBindingDeclaration_makes {value : Operand} :
    Makes tables (emitBindingDeclaration pattern value) (patternDirectCalls tables pattern) := by
  unfold emitBindingDeclaration
  cases hname : bindingName pattern with
  | some name =>
      rw [bindingName_directCalls hname]
      exact declareLocal_makes
  | none =>
      exact emitPatternSource_makes.step fun _ _ => (declareBindingTargets_makes pattern _).step
        fun _ _ => emitDestructureToPattern_makes pattern _

theorem emitOptionalValue_makes (value : Option Expression) :
    Makes tables (emitOptionalValue value) (optionDirectCalls value tables) := by
  cases value with
  | none => exact .done trivial
  | some value => exact emitExpression_makes tables value

theorem emitLifetimeCall_makes (hsymbol : symbol ∈ unaryVoidSymbols) :
    Makes tables (emitLifetimeCall symbol name) [] := by
  refine .get fun emitter _ => ?_
  split
  · exact Signs.fixed (.expr loadLocal_makes) fun _ _ =>
      .expr (emitRuntimeVoidCall_makes (hasSignature_unaryVoid hsymbol))
  · exact .done trivial

theorem emitCleanupList_makes {cleanups : List String} :
    Makes tables (emitCleanupList cleanups) [] :=
  .forM_fixed fun _ _ => emitLifetimeCall_makes (by simp [unaryVoidSymbols])

theorem emitCleanupsUntil_makes {boundary : Nat} :
    Makes tables (emitCleanupsUntil boundary) [] :=
  .get fun _ _ => .forM_fixed fun _ _ => emitCleanupList_makes

theorem pushLifetimeCleanup_makes :
    Makes tables (pushLifetimeCleanup name) [] := by
  refine .changes (fun emitter => ?_) (fun emitter => ?_) fun emitter => ?_ <;>
  · obtain ⟨_, _, _, _, _, _, _, _, _, _, _, cleanupScopes, _⟩ := emitter
    cases cleanupScopes with
    | nil => rfl
    | cons scope outer => dsimp only; split <;> rfl

theorem registerLifetimes_makes {plan : Lifetime.Plan} {names : List String} :
    Makes tables (registerLifetimes plan pos names) [] := by
  refine .forM_fixed fun name _ => ?_
  have hextended : Makes tables (do
      if hasExtendedLifetime plan name pos then emitLifetimeCall "jayess_value_retain" name :
        StmtM Unit) [] := by
    split
    · exact emitLifetimeCall_makes (by simp [unaryVoidSymbols])
    · exact .done trivial
  dsimp only
  split
  · exact pushLifetimeCleanup_makes.fixed fun _ _ => hextended
  · exact hextended

theorem registerDeclarationLifetime_makes :
    Makes tables (registerDeclarationLifetime pos pattern) [] := by
  refine .get fun emitter _ => ?_
  split
  · exact .done trivial
  · exact registerLifetimes_makes

theorem emitVariableDeclaration_makes :
    Makes tables (emitVariableDeclaration pos pattern value)
      (optionDirectCalls value tables ++ patternDirectCalls tables pattern) :=
  Signs.step (.expr (emitOptionalValue_makes value)) fun _ _ =>
    Signs.fixed (.expr emitBindingDeclaration_makes) fun _ _ => registerDeclarationLifetime_makes

theorem emitFunctionDeclaration_makes :
    Makes tables (emitFunctionDeclaration name) [] :=
  .unless_fail fun _ => emitRuntimeFunctionNew_makes.fixed fun _ _ => declareLocal_makes

theorem emitFunctionCall_makes {args : Operand → List RuntimeCallArg}
    (hfixed : ∀ function, HasSignature symbol "void" ((args function).map (·.irType))) :
    Makes tables (emitFunctionCall symbol args) [] :=
  emitRuntimeFunctionNew_makes.fixed fun function _ =>
    emitRuntimeVoidCall_makes (hfixed function)

theorem emitClassField_makes {key : Operand} {isPrivate isStatic : Bool} :
    Makes tables (emitClassField classValue key value isPrivate isStatic)
      (optionDirectCalls value tables) := by
  have hvalue : Makes tables (emitFieldValue value) (optionDirectCalls value tables) := by
    cases value with
    | none => exact emitRuntimeUndefined_makes
    | some value => exact emitExpression_makes tables value
  refine hvalue.fixed fun _ _ => emitRuntimeVoidCall_makes (hasSignature_ternaryVoid ?_)
  cases isPrivate <;> cases isStatic <;> simp [ternaryVoidSymbols]

theorem emitClassAccessor_makes {key : Operand} {getter : Bool} :
    Makes tables (emitClassAccessor classValue key getter) [] := by
  have haccessor : ("jayess_class_define_accessor", "void", values 4) ∈ specialSignatures := by
    simp [specialSignatures]
  refine emitRuntimeUndefined_makes.fixed fun _ _ => emitFunctionCall_makes fun function => ?_
  cases getter <;> exact hasSignature_special haccessor

theorem emitKeyedMember_makes {key : Operand} {field getter setter isPrivate isStatic : Bool} :
    Makes tables (emitKeyedMember classValue key value field getter setter isPrivate isStatic)
      (if field then optionDirectCalls value tables else []) := by
  unfold emitKeyedMember
  cases field with
  | true => exact emitClassField_makes
  | false =>
      rw [if_neg Bool.false_ne_true, if_neg Bool.false_ne_true]
      split
      · exact emitClassAccessor_makes
      · refine emitFunctionCall_makes fun function => hasSignature_ternaryVoid ?_
        cases isPrivate <;> simp [ternaryVoidSymbols]

theorem emitClassMember_makes (member : ClassMember) :
    Makes tables (emitClassMember classValue member) (member.directCalls tables) := by
  obtain ⟨_, keyExpr, _, _, value, computed, staticBlock, isConstructor, field, _, _, _, _⟩ := member
  rw [emitClassMember, ClassMember.directCalls]
  cases isConstructor with
  | true =>
      exact emitFunctionCall_makes fun _ => hasSignature_binaryVoid (by simp [binaryVoidSymbols])
  | false =>
      cases staticBlock with
      | true =>
          exact emitFunctionCall_makes fun _ =>
            hasSignature_binaryVoid (by simp [binaryVoidSymbols])
      | false => exact (emitPropertyKey_makes keyExpr).step fun _ _ => emitKeyedMember_makes

theorem emitClassBase_makes {base : Operand} (superClass : Option Expression) :
    Makes tables (emitClassBase base superClass) (optionDirectCalls superClass tables) := by
  cases superClass with
  | none => exact .done trivial
  | some superClass =>
      exact (emitExpression_makes tables superClass).fixed fun _ _ =>
        emitBinary_makes (by simp [binarySymbols])

theorem emitClassDeclaration_makes {superClass : Option Expression} {members : List ClassMember} :
    Makes tables (emitClassDeclaration name superClass members)
      (optionDirectCalls superClass tables ++ members.flatMap (ClassMember.directCalls tables)) := by
  have hnew : "jayess_class_new" ∈ unarySymbols := by simp [unarySymbols]
  have hblocks : "jayess_class_run_static_blocks" ∈ unaryVoidSymbols := by simp [unaryVoidSymbols]
  refine .unless_fail fun _ => emitRuntimeString_makes.step fun _ _ => ?_
  refine (emitRuntimeCall_makes (hasSignature_unary hnew)).step fun _ _ => ?_
  refine (emitClassBase_makes superClass).step fun classValue _ => ?_
  refine declareLocal_makes.step fun _ _ => ?_
  refine Signs.fixed (.forM fun member _ => emitClassMember_makes member) fun _ _ => ?_
  exact emitRuntimeVoidCall_makes (hasSignature_unaryVoid hblocks)

theorem emitAssignmentStatement_makes {target value : Expression} {operator : AssignmentOperator} :
    Makes tables (emitAssignmentStatement target operator value)
      (target.directCalls tables ++ value.directCalls tables) :=
  .unless_fail fun _ => (resolveAssignmentTarget_resolves tables target).step fun _ htarget =>
    (emitExpression_makes tables value).fixed fun _ _ => htarget.store_makes

theorem emitCondition_makes (condition : Expression) :
    Makes tables (emitCondition condition) (condition.directCalls tables) :=
  (emitExpression_makes tables condition).fixed fun _ _ => emitTruthiness_makes

theorem emitLoopCondition_makes (condition : Option Expression) :
    Makes tables (emitLoopCondition condition) (optionDirectCalls condition tables) := by
  cases condition with
  | none => exact .done trivial
  | some condition => exact emitCondition_makes condition

theorem emitCaseTest_makes {discriminant : Operand} {test : Expression} :
    Makes tables (emitCaseTest discriminant test) (test.directCalls tables) := by
  have hequal : ("jayess_value_strict_equal", "i1", values 2) ∈ specialSignatures := by
    simp [specialSignatures]
  exact (emitExpression_makes tables test).fixed fun _ _ =>
    emitRuntimeCall_makes (hasSignature_special hequal)

def ForEachTarget.Fixed (pattern : Option BindingPattern) : ForEachTarget → Prop
  | .pattern declared => pattern = some declared
  | .assignment target => pattern = none ∧ target.Fixed

theorem prepareForEachTarget_signs {target : Expression} :
    Signs tables tables (prepareForEachTarget pos pattern target) (ForEachTarget.Fixed pattern)
      (prepareCalls pattern target tables).1 := by
  cases pattern with
  | none =>
      exact Signs.fixed (.expr (resolveAssignmentTarget_resolves tables target)) fun _ htarget =>
        .done ⟨rfl, htarget⟩
  | some pattern =>
      exact Signs.fixed (.expr (declareBindingTargets_makes (some pattern) .undef)) fun _ _ =>
        registerDeclarationLifetime_makes.fixed fun _ _ => .done rfl

theorem emitIteratorStep_makes {iterator : Operand} :
    Makes tables (emitIteratorStep iterator) [] := by
  have hdone : ("jayess_iterator_done", "i1", values 1) ∈ specialSignatures := by
    simp [specialSignatures]
  refine (emitUnary_makes (by simp [unarySymbols])).fixed fun _ _ => ?_
  exact (emitRuntimeCall_makes (hasSignature_special hdone)).fixed fun _ _ => .done trivial

theorem emitIteratorAssign_makes {next : Operand} {target : ForEachTarget}
    (htarget : target.Fixed pattern) :
    Makes tables (emitIteratorAssign next target) (patternDirectCalls tables pattern) := by
  refine Signs.step (emitUnary_makes (by simp [unarySymbols])) fun value _ => ?_
  cases target with
  | pattern declared =>
      obtain rfl : pattern = some declared := htarget
      exact emitDestructureToPattern_makes (some declared) value
  | assignment target =>
      obtain ⟨rfl, hfixed⟩ := htarget
      exact hfixed.store_makes

theorem bindCaught_makes {pattern : BindingPattern} {caught : Operand} :
    Makes tables (bindCaught pos pattern caught) (pattern.directCalls tables) :=
  Signs.fixed (.expr (emitDestructureToPattern_makes (some pattern) caught)) fun _ _ =>
    registerDeclarationLifetime_makes

theorem runtimeStringArgs_passes : ∀ strings : List String,
    Signs tables tables (runtimeStringArgs strings) (PassesValues strings.length) []
  | [] => .done rfl
  | text :: rest => by
      have htext : Signs tables tables (do
          let lowered ← emitRuntimeString text
          return valueArg lowered) (fun arg => arg.irType = runtimeValueIRType) [] :=
        emitRuntimeString_makes.fixed fun _ _ => .done rfl
      rw [runtimeStringArgs, List.mapM_cons]
      refine htext.fixed fun arg harg => (runtimeStringArgs_passes rest).fixed fun args hargs => ?_
      exact .done (congrArg₂ List.cons harg hargs)

theorem emitRuntimeStringValueCall_makes {strings : List String}
    (hfixed : HasSignature symbol runtimeValueIRType (values strings.length)) :
    Makes tables (emitRuntimeStringValueCall symbol strings) [] := by
  refine (runtimeStringArgs_passes strings).fixed fun args hargs => emitRuntimeCall_makes ?_
  rwa [show args.map (·.irType) = values strings.length from hargs]

theorem emitRuntimeStringVoidCall_makes {strings : List String}
    (hfixed : HasSignature symbol "void" (values strings.length)) :
    Makes tables (emitRuntimeStringVoidCall symbol strings) [] := by
  refine (runtimeStringArgs_passes strings).fixed fun args hargs => emitRuntimeVoidCall_makes ?_
  rwa [show args.map (·.irType) = values strings.length from hargs]

theorem emitModuleInitialize_makes :
    Makes tables (emitModuleInitialize source) [] :=
  emitRuntimeStringVoidCall_makes (hasSignature_unaryVoid (by simp [unaryVoidSymbols]))

theorem registerStdlibImport_signs :
    Signs tables (tables.record source specifier) (registerStdlibImport source specifier)
      (fun _ => True) [] := by
  intro emitter value emitted htables hsigned hrun
  rw [StdlibTables.record]
  unfold registerStdlibImport at hrun
  cases hbinding : stdlibBindingForImport source specifier with
  | none =>
      rw [hbinding] at hrun
      obtain ⟨-, rfl⟩ := Prod.mk.inj (pure_eq_ok.mp hrun)
      exact ⟨htables, trivial, .of_eq hsigned rfl rfl⟩
  | some binding =>
      rw [hbinding] at hrun
      dsimp only at hrun ⊢
      subst htables
      by_cases hnamespace : specifier.isNamespace = true
      · rw [if_pos hnamespace, registerStdlibNamespace, modify_eq_ok, Prod.mk.injEq] at hrun
        obtain ⟨-, rfl⟩ := hrun
        rw [if_pos hnamespace]
        split <;> exact ⟨rfl, trivial, .of_eq hsigned rfl rfl⟩
      · rw [if_neg hnamespace, registerStdlibBinding, modify_eq_ok, Prod.mk.injEq] at hrun
        obtain ⟨-, rfl⟩ := hrun
        rw [if_neg hnamespace]
        split <;> exact ⟨rfl, trivial, .of_eq hsigned rfl rfl⟩

theorem emitImportedBinding_makes :
    Makes tables (emitImportedBinding source specifier) [] := by
  refine emitRuntimeStringValueCall_makes (hasSignature_ternary ?_)
  split
  · simp [ternarySymbols]
  · split
    · simp [ternarySymbols]
    · split <;> simp [ternarySymbols]

theorem emitImportSpecifier_signs :
    Signs tables (tables.record source specifier) (emitImportSpecifier source specifier)
      (fun _ => True) [] := by
  refine registerStdlibImport_signs.fixed fun _ _ => emitImportedBinding_makes.fixed fun _ _ => ?_
  split
  · exact declareLocal_makes
  · exact .done trivial

theorem emitImports_signs {source : String} : ∀ (specifiers : List ImportSpecifier)
    {tables : StdlibTables},
    Signs tables (CallWalk.imports source specifiers tables).2
      (specifiers.forM (emitImportSpecifier source)) (fun _ => True) []
  | [], _ => .done trivial
  | _ :: rest, _ => emitImportSpecifier_signs.fixed fun _ _ => emitImports_signs rest

theorem emitImportDeclaration_signs {specifiers : List ImportSpecifier} :
    Signs tables (CallWalk.imports source specifiers tables).2
      (emitImportDeclaration source specifiers false) (fun _ => True) [] :=
  emitModuleInitialize_makes.fixed fun _ _ => emitImports_signs specifiers

theorem emitModuleExportBinding_makes {localName exported : String} :
    Makes tables (emitModuleExportBinding localName exported) [] := by
  unfold emitModuleExportBinding
  split
  · exact .done trivial
  · exact emitRuntimeStringVoidCall_makes (hasSignature_binaryVoid (by simp [binaryVoidSymbols]))

theorem emitModuleReexport_makes {names : List String}
    (hfixed : HasSignature symbol "void" (values (names.length + 1))) :
    Makes tables (emitModuleReexport symbol source names) [] :=
  emitModuleInitialize_makes.fixed fun _ _ => emitRuntimeStringVoidCall_makes hfixed

theorem emitExportSpecifier_makes (specifier : ExportSpecifier) :
    Makes tables (emitExportSpecifier source specifier) [] := by
  unfold emitExportSpecifier
  split
  · exact emitModuleReexport_makes (hasSignature_ternaryVoid (by simp [ternaryVoidSymbols]))
  · exact emitModuleExportBinding_makes

theorem emitDefaultExport_makes {value : Expression} :
    Makes tables (emitDefaultExport value) (value.directCalls tables) := by
  have hvalue : "jayess_module_export_value" ∈ binaryVoidSymbols := by simp [binaryVoidSymbols]
  exact (emitExpression_makes tables value).fixed fun _ _ => emitRuntimeString_makes.fixed
    fun _ _ => emitRuntimeVoidCall_makes (hasSignature_binaryVoid hvalue)

theorem emitExports_makes {declaration : Option Statement} {specifiers : List ExportSpecifier}
    {isDefault all : Bool} {namespaceName : String} :
    Makes tables (emitExports declaration value specifiers source isDefault all namespaceName)
      (optionDirectCalls value tables) := by
  unfold emitExports
  cases value with
  | some value => exact emitDefaultExport_makes
  | none =>
      dsimp only
      split
      · exact emitModuleReexport_makes (hasSignature_unaryVoid (by simp [unaryVoidSymbols]))
      · split
        · exact emitModuleReexport_makes (hasSignature_binaryVoid (by simp [binaryVoidSymbols]))
        · split
          · exact .forM_fixed fun _ _ => emitModuleExportBinding_makes
          · exact .forM_fixed fun specifier _ => emitExportSpecifier_makes specifier

end Jayess.Backend
