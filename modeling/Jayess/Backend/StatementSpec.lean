import Jayess.Backend.ExpressionSpec
import Jayess.Backend.StatementEmitter

/-!
# The specification of declarations

One rule for each function that emits the straight part of a statement: bindings and patterns,
functions, classes, modules and assignments.
-/

namespace Jayess.Backend

variable {available : Set Name}

abbrev EmitsDeclaration (available : Set Name) (shape : Shape) (action : ExprM Unit) : Prop :=
  Emits true available action (Gives (fun _ _ => True) available shape)

theorem Scope.restore_record (scope : Scope) (locals : String → Option LocalSlot) (name : String)
    (slot : Option LocalSlot) :
    (scope.record name (locals name)).restore (Function.update locals name slot) =
      scope.restore locals := by
  funext other
  unfold Scope.restore Scope.record
  by_cases heq : other = name
  · subst heq
    cases hscope : scope other with
    | none => simp [hscope]
    | some previous => simp [hscope]
  · by_cases hscope : (scope name).isSome = true
    · rw [if_pos hscope, Function.update_of_ne heq]
    · rw [if_neg hscope, Function.update_of_ne heq, Function.update_of_ne heq]

variable {name symbol : String} {source classValue : Operand} {value : Option Expression}
    {specifier : ImportSpecifier}

theorem declareLocal_eq {emitter emitted : ExpressionEmitter} {value : Operand} {result : Unit}
    (hrun : declareLocal name value emitter = .ok (result, emitted)) :
    name ≠ "" ∧ emitted = { emitter with
      slotIndex := emitter.slotIndex + 1
      locals := Function.update emitter.locals name (some ⟨emitter.slotIndex⟩)
      scopes := match emitter.scopes with
        | scope :: outer => scope.record name (emitter.locals name) :: outer
        | [] => []
      body := emitter.body ++ [.alloca ⟨emitter.slotIndex⟩, .store value ⟨emitter.slotIndex⟩] } := by
  obtain ⟨_, recorded, hrecord, hbind⟩ := bind_eq_ok.mp hrun
  obtain ⟨hname, hbind⟩ := unless_fail_run hbind
  refine ⟨hname, ?_⟩
  obtain ⟨_, _, _, _, _, _, _, _, _, _, scopes, _⟩ := emitter
  rw [recordScopedLocal, modify_eq_ok, Prod.mk.injEq] at hrecord
  obtain ⟨-, rfl⟩ := hrecord
  simp only [nextLocalSlot, appendLines, bind_eq_ok, modify_eq_ok, Except.ok.injEq,
    Prod.mk.injEq] at hbind
  obtain ⟨_, _, ⟨rfl, rfl⟩, _, _, ⟨-, rfl⟩, -, rfl⟩ := hbind
  cases scopes <;> simp [hname]

theorem declareLocal_emits {value : Operand} (hvalue : value.In available) :
    EmitsDeclaration available .straight (declareLocal name value) := by
  intro emitter result emitted hlocals hrun
  obtain ⟨-, rfl⟩ := declareLocal_eq hrun
  refine ⟨.seq (.plain (.alloca ⟨emitter.slotIndex⟩)) (.plain (.store value ⟨emitter.slotIndex⟩)),
    ⟨rfl, .seq .alloca (.act rfl rfl), ⟨by simp [Fragment.Closed, Line.uses], ?_⟩, ?_, ?_, rfl⟩,
    trivial, rfl⟩
  · intro other hother
    rw [Line.uses, List.mem_cons] at hother
    rcases hother with rfl | hother
    · exact Or.inr (by simp [Fragment.exports, Line.defs])
    · exact Or.inl (hvalue other hother)
  · intro other slot hslot
    have hslot : Function.update emitter.locals name (some ⟨emitter.slotIndex⟩) other =
      some slot := hslot
    by_cases heq : other = name
    · subst heq
      obtain rfl : ⟨emitter.slotIndex⟩ = slot := by simpa using hslot
      exact Or.inr (Or.inl (by simp [Fragment.exports, Line.defs]))
    · rw [Function.update_of_ne heq] at hslot
      exact Or.inl (hlocals other slot hslot)
  · refine ⟨fun hnil => by simp [hnil], fun scope outer hscopes => ?_⟩
    refine ⟨scope.record name (emitter.locals name), by simp [hscopes], ?_⟩
    exact Scope.restore_record scope emitter.locals name _

mutual

theorem declareBindingTargets_emits : ∀ (pattern : Option BindingPattern) {value : Operand}
    (available : Set Name), value.In available →
    EmitsDeclaration available .straight (declareBindingTargets pattern value)
  | none, _, _, _ => .done trivial
  | some pattern, _, available, hvalue => declarePatternTargets_emits pattern available hvalue

theorem declarePatternTargets_emits : ∀ (pattern : BindingPattern) {value : Operand}
    (available : Set Name), value.In available →
    EmitsDeclaration available .straight (declarePatternTargets pattern value)
  | .name _, _, _, hvalue => declareLocal_emits hvalue
  | .default pattern _, _, available, hvalue =>
      declareBindingTargets_emits pattern available hvalue
  | .rest pattern, _, available, hvalue => declareBindingTargets_emits pattern available hvalue
  | .array elements, _, available, hvalue => declareElementTargets_emits elements available hvalue
  | .object properties, _, available, hvalue =>
      declarePropertyTargets_emits properties available hvalue

theorem declareElementTargets_emits : ∀ (elements : List (Option BindingPattern))
    {value : Operand} (available : Set Name), value.In available →
    EmitsDeclaration available .straight (declareElementTargets elements value)
  | [], _, _, _ => .done trivial
  | element :: rest, _, available, hvalue => by
      rw [← Shape.straight.append_straight]
      exact (declareBindingTargets_emits element available hvalue).step fun larger _ hlarger _ =>
        declareElementTargets_emits rest larger (hvalue.mono hlarger)

theorem declarePropertyTargets_emits : ∀ (properties : List ObjectBindingProperty)
    {value : Operand} (available : Set Name), value.In available →
    EmitsDeclaration available .straight (declarePropertyTargets properties value)
  | [], _, _, _ => .done trivial
  | ⟨_, _, pattern, _, _⟩ :: rest, _, available, hvalue => by
      rw [← Shape.straight.append_straight]
      exact (declareBindingTargets_emits pattern available hvalue).step fun larger _ hlarger _ =>
        declarePropertyTargets_emits rest larger (hvalue.mono hlarger)

end

theorem emitRuntimeArrayIndex_emits {index : Nat} (hsource : source.In available) :
    EmitsValue available .straight (emitRuntimeArrayIndex source index) := by
  rw [← Shape.straight.append_straight]
  refine emitRuntimeUndefined_emits.step fun larger fallback hlarger hfallback => ?_
  have hindex : (Operand.int index).In larger := .constant rfl
  exact emitRuntimeCall_emits (by simpa using ⟨hsource.mono hlarger, hindex, hfallback⟩)

theorem emitRuntimeArrayRest_emits {start : Nat} (hsource : source.In available) :
    EmitsValue available .straight (emitRuntimeArrayRest source start) := by
  have hstart : (Operand.int start).In available := .constant rfl
  exact emitRuntimeCall_emits (by simpa using ⟨hsource, hstart⟩)

theorem emitRuntimePropertyDestructure_emits {key : Operand} (hsource : source.In available)
    (hkey : key.In available) :
    EmitsValue available .straight (emitRuntimePropertyDestructure source key) := by
  rw [← Shape.straight.append_straight]
  refine emitRuntimeUndefined_emits.step fun larger fallback hlarger hfallback => ?_
  exact emitRuntimeCall_emits
    (by simpa using ⟨hsource.mono hlarger, hkey.mono hlarger, hfallback⟩)

theorem emitPart_emits {emitPart : ExprM Operand} {emitPattern : Operand → ExprM Unit}
    {emitRest : ExprM Unit} {partShape shape restShape : Shape} (hsource : source.In available)
    (hpart : EmitsValue available partShape emitPart)
    (hpattern : ∀ larger part, part.In larger → EmitsLines larger shape (emitPattern part))
    (hrest : ∀ larger, source.In larger → EmitsLines larger restShape emitRest) :
    EmitsLines available (partShape.append (shape.append restShape)) (do
      let part ← emitPart
      emitPattern part
      emitRest) := by
  refine hpart.step fun larger part hlarger hpart => ?_
  exact (hpattern larger part hpart).step fun final _ hfinal _ =>
    hrest final (hsource.mono (hlarger.trans hfinal))

theorem emitOptionalKey_emits {owner key : String} {keyExpr : Option Expression}
    {computed : Bool} :
    EmitsValue available (if computed then optionShape keyExpr else .straight)
      (emitPropertyKey owner key computed (keyExpr.map emitExpression)) := by
  cases keyExpr with
  | none => simpa [optionShape] using emitNoKey_emits computed
  | some keyExpr => exact emitPropertyKey_emits (emitExpression_emits keyExpr available)

theorem emitObjectPart_emits {key : String} {keyExpr : Option Expression} {computed isRest : Bool}
    (hsource : source.In available) :
    EmitsValue available (if computed && !isRest then optionShape keyExpr else .straight)
      (emitObjectPart key keyExpr computed isRest source) := by
  cases isRest with
  | true =>
      rw [Bool.not_true, Bool.and_false, if_neg Bool.false_ne_true]
      exact emitRuntimeUnaryValue_emits hsource
  | false =>
      rw [Bool.not_false, Bool.and_true,
        ← (if computed then optionShape keyExpr else .straight : Shape).append_straight]
      exact emitOptionalKey_emits.step fun larger keyValue hlarger hkey =>
        emitRuntimePropertyDestructure_emits (hsource.mono hlarger) hkey

theorem emitArrayPart_emits {element : BindingPattern} {index : Nat} (hsource : source.In available)
    :
    EmitsValue available .straight (emitArrayPart element source index) := by
  cases element with
  | rest pattern => exact emitRuntimeArrayRest_emits hsource
  | _ => exact emitRuntimeArrayIndex_emits hsource

mutual

theorem emitDestructureToPattern_emits : ∀ (pattern : Option BindingPattern) {source : Operand}
    (available : Set Name), source.In available →
    EmitsLines available (patternShape pattern) (emitDestructureToPattern pattern source)
  | none, _, _, _ => .done trivial
  | some pattern, _, available, hsource => emitDestructure_emits pattern available hsource

theorem emitDestructure_emits : ∀ (pattern : BindingPattern) {source : Operand}
    (available : Set Name), source.In available →
    EmitsLines available pattern.shape (emitDestructure pattern source)
  | .name _, _, available, hsource => by
      rw [BindingPattern.shape, ← Shape.straight.append_straight]
      exact resolveLocal_emits.step fun larger target hlarger htarget =>
        store_emits htarget (hsource.mono hlarger)
  | .default pattern value, _, available, hsource => by
      refine (emitExpression_emits value available).step fun larger fallback hlarger hfallback => ?_
      rw [← (patternShape pattern).straight_append]
      refine (emitRuntimeBinaryValue_emits (hsource.mono hlarger) hfallback).step
        fun final result _ hresult => ?_
      exact emitDestructureToPattern_emits pattern final hresult
  | .rest pattern, _, available, hsource => emitDestructureToPattern_emits pattern available hsource
  | .array elements, _, available, hsource => emitArrayDestructure_emits elements available hsource
  | .object properties, _, available, hsource =>
      emitObjectDestructure_emits properties available hsource

theorem emitArrayDestructure_emits : ∀ (elements : List (Option BindingPattern))
    {source : Operand} {index : Nat} (available : Set Name), source.In available →
    EmitsLines available (elementPatternsShape elements)
      (emitArrayDestructure elements source index)
  | [], _, _, _, _ => .done trivial
  | none :: rest, _, _, available, hsource => emitArrayDestructure_emits rest available hsource
  | some element :: rest, _, _, _, hsource => by
      rw [elementPatternsShape, ← Shape.straight_append (Shape.append _ _)]
      exact emitPart_emits hsource (emitArrayPart_emits hsource)
        (fun larger _ hpart => emitDestructure_emits element larger hpart)
        (fun larger hsource => emitArrayDestructure_emits rest larger hsource)

theorem emitObjectDestructure_emits : ∀ (properties : List ObjectBindingProperty)
    {source : Operand} (available : Set Name), source.In available →
    EmitsLines available (propertyPatternsShape properties)
      (emitObjectDestructure properties source)
  | [], _, _, _ => .done trivial
  | ⟨_, _, pattern, _, _⟩ :: rest, _, _, hsource =>
      emitPart_emits hsource (emitObjectPart_emits hsource)
        (fun larger _ hpart => emitDestructureToPattern_emits pattern larger hpart)
        (fun larger hsource => emitObjectDestructure_emits rest larger hsource)

end

theorem emitPatternSource_emits {value : Operand} (hvalue : value.In available) :
    EmitsValue available .straight (emitPatternSource value) := by
  unfold emitPatternSource
  split
  · exact emitRuntimeUndefined_emits
  · exact .done hvalue

theorem emitBindingDeclaration_emits {pattern : Option BindingPattern} {value : Operand}
    (hvalue : value.In available) :
    EmitsDeclaration available (patternShape pattern) (emitBindingDeclaration pattern value) := by
  unfold emitBindingDeclaration
  split
  · rename_i name hname
    have hstraight : patternShape pattern = .straight := by
      unfold bindingName at hname
      split at hname
      · rfl
      · simp at hname
    rw [hstraight]
    exact declareLocal_emits hvalue
  · rw [← (patternShape pattern).straight_append]
    refine (emitPatternSource_emits hvalue).declaring.step fun larger source _ hsource => ?_
    rw [← (patternShape pattern).straight_append]
    have hundef : Operand.undef.In larger := .constant rfl
    refine (declareBindingTargets_emits pattern larger hundef).step fun final _ hfinal _ => ?_
    exact (emitDestructureToPattern_emits pattern final (hsource.mono hfinal)).declaring

theorem emitOptionalValue_emits (value : Option Expression) (available : Set Name) :
    EmitsValue available (optionShape value) (emitOptionalValue value) := by
  cases value with
  | none => exact .done (.constant rfl)
  | some value => exact emitExpression_emits value available

/-! ## Functions, classes and modules -/

theorem emitFunctionDeclaration_emits :
    EmitsDeclaration available .straight (emitFunctionDeclaration name) := by
  refine .unless_fail ?_
  rw [← Shape.straight.append_straight]
  exact emitRuntimeFunctionNew_emits.declaring.step fun larger value _ hvalue =>
    declareLocal_emits hvalue

theorem emitFunctionCall_emits {args : Operand → List RuntimeCallArg}
    (hargs : ∀ larger function, available ⊆ larger → function.In larger →
      ArgsIn larger (args function)) :
    EmitsLines available .straight (emitFunctionCall symbol args) := by
  rw [← Shape.straight.append_straight]
  exact emitRuntimeFunctionNew_emits.step fun larger function hlarger hfunction =>
    emitRuntimeVoidCall_emits (hargs larger function hlarger hfunction)

theorem emitFieldValue_emits (value : Option Expression) (available : Set Name) :
    EmitsValue available (optionShape value) (emitFieldValue value) := by
  cases value with
  | none => exact emitRuntimeUndefined_emits
  | some value => exact emitExpression_emits value available

theorem emitClassField_emits {key : Operand} {isPrivate isStatic : Bool}
    (hclass : classValue.In available) (hkey : key.In available) :
    EmitsLines available (optionShape value)
      (emitClassField classValue key value isPrivate isStatic) := by
  rw [← (optionShape value).append_straight]
  refine (emitFieldValue_emits value available).step fun larger fieldValue hlarger hvalue => ?_
  exact emitRuntimeVoidCall_emits (by simpa using ⟨hclass.mono hlarger, hkey.mono hlarger, hvalue⟩)

theorem emitClassAccessor_emits {key : Operand} {getter : Bool} (hclass : classValue.In available)
    (hkey : key.In available) :
    EmitsLines available .straight (emitClassAccessor classValue key getter) := by
  rw [← Shape.straight.append_straight]
  refine emitRuntimeUndefined_emits.step fun larger missing hlarger hmissing => ?_
  refine emitFunctionCall_emits fun final function hfinal hfunction => ?_
  have hclass := hclass.mono (hlarger.trans hfinal)
  have hkey := hkey.mono (hlarger.trans hfinal)
  have hmissing := hmissing.mono hfinal
  split
  · simpa using ⟨hclass, hkey, hfunction, hmissing⟩
  · simpa using ⟨hclass, hkey, hmissing, hfunction⟩

theorem emitKeyedMember_emits {key : Operand} {field getter setter isPrivate isStatic : Bool}
    (hclass : classValue.In available) (hkey : key.In available) :
    EmitsLines available (if field then optionShape value else .straight)
      (emitKeyedMember classValue key value field getter setter isPrivate isStatic) := by
  unfold emitKeyedMember
  cases field with
  | true => exact emitClassField_emits hclass hkey
  | false =>
      simp only [Bool.false_eq_true, if_false]
      split
      · exact emitClassAccessor_emits hclass hkey
      · exact emitFunctionCall_emits fun larger method hlarger hmethod => by
          simpa using ⟨hclass.mono hlarger, hkey.mono hlarger, hmethod⟩

theorem emitClassMember_emits (hclass : classValue.In available) (member : ClassMember) :
    EmitsLines available member.shape (emitClassMember classValue member) := by
  obtain ⟨name, keyExpr, params, body, value, computed, staticBlock, isConstructor, field, getter,
    setter, isPrivate, isStatic⟩ := member
  have hcall : ∀ symbol, EmitsLines available .straight
      (emitFunctionCall symbol fun function => [valueArg classValue, valueArg function]) :=
    fun symbol => emitFunctionCall_emits fun larger function hlarger hfunction => by
      simpa using ⟨hclass.mono hlarger, hfunction⟩
  unfold emitClassMember ClassMember.shape
  cases isConstructor with
  | true => exact hcall _
  | false =>
      cases staticBlock with
      | true => exact hcall _
      | false =>
          exact emitOptionalKey_emits.step fun larger key hlarger hkey =>
            emitKeyedMember_emits (hclass.mono hlarger) hkey

theorem emitClassMembers_emits (members : List ClassMember) :
    ∀ {available : Set Name}, classValue.In available →
      EmitsLines available (membersShape members) (members.forM (emitClassMember classValue)) := by
  induction members with
  | nil => exact fun _ => .done trivial
  | cons member rest ih =>
      intro available hclass
      exact (emitClassMember_emits hclass member).step fun larger _ hlarger _ =>
        ih (hclass.mono hlarger)

theorem emitClassBase_emits {base : Operand} {superClass : Option Expression}
    (hbase : base.In available) :
    EmitsValue available (optionShape superClass) (emitClassBase base superClass) := by
  cases superClass with
  | none => exact .done hbase
  | some superClass =>
      rw [optionShape, ← superClass.shape.append_straight]
      exact (emitExpression_emits superClass available).step fun larger value hlarger hvalue =>
        emitRuntimeBinaryValue_emits (hbase.mono hlarger) hvalue

theorem emitClassDeclaration_emits {superClass : Option Expression} {members : List ClassMember} :
    EmitsDeclaration available ((optionShape superClass).append (membersShape members))
      (emitClassDeclaration name superClass members) := by
  refine .unless_fail ?_
  rw [← Shape.straight_append (Shape.append _ _)]
  refine emitRuntimeString_emits.declaring.step fun named nameValue _ hname => ?_
  rw [← Shape.straight_append (Shape.append _ _)]
  have hargs : ArgsIn named [valueArg nameValue] := argsIn_cons.mpr ⟨hname, argsIn_nil⟩
  refine (emitRuntimeCall_emits hargs).declaring.step fun based base _ hbase => ?_
  refine (emitClassBase_emits hbase).declaring.step fun larger classValue _ hclass => ?_
  rw [← (membersShape members).straight_append]
  refine (declareLocal_emits hclass).step fun declared _ hdeclared _ => ?_
  have hclass := hclass.mono hdeclared
  rw [← (membersShape members).append_straight]
  refine (emitClassMembers_emits members hclass).declaring.step fun final _ hfinal _ => ?_
  exact (emitRuntimeVoidCall_emits (by simpa using hclass.mono hfinal)).declaring

theorem runtimeStringArgs_emits (values : List String) : ∀ {available : Set Name},
    EmitsArgs available .straight (runtimeStringArgs values) := by
  unfold runtimeStringArgs
  induction values with
  | nil => exact .done argsIn_nil
  | cons value rest ih =>
      intro available
      rw [List.mapM_cons, bind_assoc, ← Shape.straight.append_straight]
      refine emitRuntimeString_emits.step fun larger lowered _ hlowered => ?_
      rw [pure_bind, ← Shape.straight.append_straight]
      refine ih.step fun final args hfinal hargs => ?_
      exact .done (argsIn_cons.mpr ⟨hlowered.mono hfinal, hargs⟩)

theorem emitRuntimeStringValueCall_emits {values : List String} :
    EmitsValue available .straight (emitRuntimeStringValueCall symbol values) := by
  rw [← Shape.straight.append_straight]
  exact (runtimeStringArgs_emits values).step fun larger args _ hargs => emitRuntimeCall_emits hargs

theorem emitRuntimeStringVoidCall_emits {values : List String} :
    EmitsLines available .straight (emitRuntimeStringVoidCall symbol values) := by
  rw [← Shape.straight.append_straight]
  exact (runtimeStringArgs_emits values).step fun larger args _ hargs =>
    emitRuntimeVoidCall_emits hargs

theorem Emits.register {action : ExprM Unit}
    (haction : ∀ emitter value emitted, action emitter = .ok (value, emitted) →
      emitted.body = emitter.body ∧ emitted.counters = emitter.counters ∧
        emitted.locals = emitter.locals ∧ emitted.scopes = emitter.scopes ∧
        emitted.lifetimePlan = emitter.lifetimePlan) :
    EmitsLines available .straight action := by
  intro emitter value emitted hlocals hrun
  obtain ⟨hbody, hcounters, hlocalsEq, hscopes, hplan⟩ := haction emitter value emitted hrun
  refine ⟨.nil, ⟨?_, ?_, trivial, ?_, .of_eq ⟨hlocalsEq, hscopes⟩, hplan⟩, trivial, rfl⟩
  · simp [Fragment.lines, hbody]
  · rw [hcounters]
    exact .nil
  · exact fun name slot hslot => Or.inl (hlocals name slot (hlocalsEq ▸ hslot))

theorem registerStdlibImport_emits {source : String} :
    EmitsLines available .straight (registerStdlibImport source specifier) := by
  unfold registerStdlibImport
  cases stdlibBindingForImport source specifier with
  | none => exact .done trivial
  | some binding =>
      refine .register fun emitter value emitted hrun => ?_
      dsimp only at hrun
      by_cases hnamespace : specifier.isNamespace = true
      · rw [if_pos hnamespace, registerStdlibNamespace, modify_eq_ok, Prod.mk.injEq] at hrun
        obtain ⟨-, rfl⟩ := hrun
        split <;> exact ⟨rfl, rfl, rfl, rfl, rfl⟩
      · rw [if_neg hnamespace, registerStdlibBinding, modify_eq_ok, Prod.mk.injEq] at hrun
        obtain ⟨-, rfl⟩ := hrun
        split <;> exact ⟨rfl, rfl, rfl, rfl, rfl⟩

theorem emitImportedBinding_emits {source : String} :
    EmitsValue available .straight (emitImportedBinding source specifier) :=
  emitRuntimeStringValueCall_emits

theorem emitImportSpecifier_emits {source : String} :
    EmitsDeclaration available .straight (emitImportSpecifier source specifier) := by
  rw [← Shape.straight.append_straight]
  refine registerStdlibImport_emits.declaring.step fun registered _ _ _ => ?_
  rw [← Shape.straight.append_straight]
  refine emitImportedBinding_emits.declaring.step fun larger value _ hvalue => ?_
  by_cases hname : importedLocalName specifier ≠ ""
  · rw [if_pos hname]
    exact declareLocal_emits hvalue
  · rw [if_neg hname]
    exact .done trivial

theorem emitImportDeclaration_emits {source : String} {specifiers : List ImportSpecifier}
    {sideEffect : Bool} :
    EmitsDeclaration available .straight
      (emitImportDeclaration source specifiers sideEffect) := by
  rw [← Shape.straight.append_straight]
  refine emitRuntimeStringVoidCall_emits.declaring.step fun larger _ _ _ => ?_
  split
  · exact .done trivial
  · exact .forM fun final _ specifier _ => emitImportSpecifier_emits

theorem emitModuleExportBinding_emits {localName exported : String} :
    EmitsLines available .straight (emitModuleExportBinding localName exported) := by
  unfold emitModuleExportBinding
  split
  · exact .done trivial
  · exact emitRuntimeStringVoidCall_emits

theorem emitModuleReexport_emits {source : String} {names : List String} :
    EmitsLines available .straight (emitModuleReexport symbol source names) := by
  rw [← Shape.straight.append_straight]
  exact emitRuntimeStringVoidCall_emits.step fun larger _ _ _ => emitRuntimeStringVoidCall_emits

theorem emitDefaultExport_emits (value : Expression) :
    EmitsLines available value.shape (emitDefaultExport value) := by
  rw [← value.shape.append_straight]
  refine (emitExpression_emits value available).step fun larger emitted _ hemitted => ?_
  rw [← Shape.straight.append_straight]
  refine emitRuntimeString_emits.step fun final exportedValue hfinal hexported => ?_
  exact emitRuntimeVoidCall_emits (by simpa using ⟨hexported, hemitted.mono hfinal⟩)

theorem emitExports_emits {declaration : Option Statement} {specifiers : List ExportSpecifier}
    {source : String} {isDefault all : Bool} {namespaceName : String} :
    EmitsLines available (optionShape value)
      (emitExports declaration value specifiers source isDefault all namespaceName) := by
  cases value with
  | some value => exact emitDefaultExport_emits value
  | none =>
      unfold emitExports
      dsimp only
      split
      · exact emitModuleReexport_emits
      · split
        · exact emitModuleReexport_emits
        · split
          · exact .forM fun larger _ localName _ => emitModuleExportBinding_emits
          · refine .forM fun larger _ specifier _ => ?_
            unfold emitExportSpecifier
            split
            · exact emitModuleReexport_emits
            · exact emitModuleExportBinding_emits

theorem emitAssignmentStatement_emits {target value : Expression}
    {operator : AssignmentOperator} :
    EmitsLines available (target.shape.append value.shape)
      (emitAssignmentStatement target operator value) := by
  refine .unless_fail ?_
  refine (resolveAssignmentTarget_emits target available).step
    fun larger assignment _ hassignment => ?_
  rw [← value.shape.append_straight]
  exact (emitExpression_emits value larger).step fun final result hfinal hresult =>
    store_emits (hassignment.mono hfinal) hresult

theorem emitCondition_emits (condition : Expression) (available : Set Name) :
    EmitsValue available condition.shape (emitCondition condition) := by
  rw [← condition.shape.append_straight]
  exact (emitExpression_emits condition available).step fun larger value _ hvalue =>
    emitTruthiness_emits hvalue

end Jayess.Backend
