import Jayess.Backend.EvaluationOrder
import Jayess.Backend.Machine
import Jayess.Runtime.ClassLayout

/-!
# The calls that define a class
-/

open Jayess.Runtime (ClassLayout)

namespace Jayess

/-- What a member is, by the flags that `emitClassMember` looks at, in its order. -/
inductive MemberKind where
  | constructor | staticBlock | field | getter | setter | method
deriving DecidableEq, Repr

namespace ClassMember

def kind : ClassMember → MemberKind
  | ⟨_, _, _, _, _, _, staticBlock, isConstructor, field, getter, setter, _, _⟩ =>
      if isConstructor then .constructor
      else if staticBlock then .staticBlock
      else if field then .field
      else if getter then .getter
      else if setter then .setter
      else .method

def name : ClassMember → String
  | ⟨name, _, _, _, _, _, _, _, _, _, _, _, _⟩ => name

def value : ClassMember → Option Expression
  | ⟨_, _, _, _, value, _, _, _, _, _, _, _, _⟩ => value

def computed : ClassMember → Bool
  | ⟨_, _, _, _, _, computed, _, _, _, _, _, _, _⟩ => computed

def isPrivate : ClassMember → Bool
  | ⟨_, _, _, _, _, _, _, _, _, _, _, isPrivate, _⟩ => isPrivate

def isStatic : ClassMember → Bool
  | ⟨_, _, _, _, _, _, _, _, _, _, _, _, isStatic⟩ => isStatic

end ClassMember

namespace Backend

variable {Value Function : Type*}

structure ClassCall where
  symbol : String
  args : List Operand
deriving DecidableEq, Repr

def Line.classCall? (classValue : Operand) : Line → Option ClassCall
  | .voidCall symbol args =>
      match args.map (·.value) with
      | [] => none
      | target :: rest => if target = classValue then some ⟨symbol, rest⟩ else none
  | _ => none

def classCalls (classValue : Operand) (lines : List Line) : List ClassCall :=
  lines.filterMap (Line.classCall? classValue)

theorem classCalls_append {classValue : Operand} (lines more : List Line) :
    classCalls classValue (lines ++ more) = classCalls classValue lines ++ classCalls classValue more :=
  List.filterMap_append

/-- What the registers of the code hold when it runs: values, the property keys these are converted to,
and functions; undefined is none. -/
structure Registers (Value Function : Type*) where
  value : Operand → Value
  key : Operand → String
  function : Operand → Option Function

namespace ClassCall

variable (registers : Registers Value Function)

def defineMethod (key method : Operand) (layout : ClassLayout Value Function) :
    ClassLayout Value Function :=
  match registers.function method with
  | some method => layout.defineMethod (registers.key key) method
  | none => layout

def definePrivateMethod (key method : Operand) (layout : ClassLayout Value Function) :
    ClassLayout Value Function :=
  match registers.function method with
  | some method => layout.definePrivateMethod (registers.key key) method
  | none => layout

/-- The operation of the runtime class behind a call. -/
def run (call : ClassCall) (layout : ClassLayout Value Function) : ClassLayout Value Function :=
  match call.symbol, call.args with
  | "jayess_class_define_constructor", [constructor] =>
      layout.defineConstructor (registers.function constructor)
  | "jayess_class_define_static_block", [block] => layout.defineStaticBlock (registers.function block)
  | "jayess_class_define_field", [key, value] =>
      layout.defineField (registers.key key) (registers.value value)
  | "jayess_class_define_private_field", [key, value] =>
      layout.definePrivateField (registers.key key) (registers.value value)
  | "jayess_class_define_static_field", [key, value] =>
      layout.defineStaticField (registers.key key) (registers.value value)
  | "jayess_class_define_accessor", [key, getter, setter] =>
      layout.defineAccessor (registers.key key) (registers.function getter) (registers.function setter)
  | "jayess_class_define_method", [key, method] => defineMethod registers key method layout
  | "jayess_class_define_private_method", [key, method] => definePrivateMethod registers key method layout
  | "jayess_class_run_static_blocks", [] => layout.runStaticBlocks.1
  | _, _ => layout

end ClassCall

def runCalls (registers : Registers Value Function) (calls : List ClassCall)
    (layout : ClassLayout Value Function) : ClassLayout Value Function :=
  calls.foldl (fun layout call => call.run registers layout) layout

def Created (lines : List Line) (operand : Operand) : Prop :=
  ∃ result type, operand = .named result ∧ .call result type "jayess_function_new" [] ∈ lines

def Missing (lines : List Line) (operand : Operand) : Prop :=
  ∃ result type, operand = .named result ∧ .call result type "jayess_value_undefined" [] ∈ lines

section Mono

variable {lines larger : List Line} {operand : Operand}

theorem Created.mono (hcreated : Created lines operand) (hsub : lines ⊆ larger) :
    Created larger operand := by
  obtain ⟨result, type, rfl, hmem⟩ := hcreated
  exact ⟨result, type, rfl, hsub hmem⟩

theorem Missing.mono (hmissing : Missing lines operand) (hsub : lines ⊆ larger) :
    Missing larger operand := by
  obtain ⟨result, type, rfl, hmem⟩ := hmissing
  exact ⟨result, type, rfl, hsub hmem⟩

end Mono

def fieldSymbol (isPrivate isStatic : Bool) : String :=
  if isPrivate then "jayess_class_define_private_field"
  else if isStatic then "jayess_class_define_static_field"
  else "jayess_class_define_field"

def methodSymbol (isPrivate : Bool) : String :=
  if isPrivate then "jayess_class_define_private_method" else "jayess_class_define_method"

/-- The one call that defines a member. -/
def DefinedBy (lines : List Line) (member : ClassMember) (call : ClassCall) : Prop :=
  match member.kind with
  | .constructor =>
      ∃ constructor, Created lines constructor ∧
        call = ⟨"jayess_class_define_constructor", [constructor]⟩
  | .staticBlock =>
      ∃ block, Created lines block ∧ call = ⟨"jayess_class_define_static_block", [block]⟩
  | .field => ∃ key value, call = ⟨fieldSymbol member.isPrivate member.isStatic, [key, value]⟩
  | .getter =>
      ∃ key getter setter, Created lines getter ∧ Missing lines setter ∧
        call = ⟨"jayess_class_define_accessor", [key, getter, setter]⟩
  | .setter =>
      ∃ key getter setter, Missing lines getter ∧ Created lines setter ∧
        call = ⟨"jayess_class_define_accessor", [key, getter, setter]⟩
  | .method => ∃ key method, Created lines method ∧ call = ⟨methodSymbol member.isPrivate, [key, method]⟩

theorem DefinedBy.mono {lines larger : List Line} {member : ClassMember} {call : ClassCall}
    (hdefined : DefinedBy lines member call) (hsub : lines ⊆ larger) : DefinedBy larger member call := by
  unfold DefinedBy at hdefined ⊢
  cases hkind : member.kind with
  | constructor | staticBlock =>
      rw [hkind] at hdefined
      obtain ⟨function, hcreated, hcall⟩ := hdefined
      exact ⟨function, hcreated.mono hsub, hcall⟩
  | field =>
      rw [hkind] at hdefined
      exact hdefined
  | getter =>
      rw [hkind] at hdefined
      obtain ⟨key, getter, setter, hgetter, hsetter, hcall⟩ := hdefined
      exact ⟨key, getter, setter, hgetter.mono hsub, hsetter.mono hsub, hcall⟩
  | setter =>
      rw [hkind] at hdefined
      obtain ⟨key, getter, setter, hgetter, hsetter, hcall⟩ := hdefined
      exact ⟨key, getter, setter, hgetter.mono hsub, hsetter.mono hsub, hcall⟩
  | method =>
      rw [hkind] at hdefined
      obtain ⟨key, method, hmethod, hcall⟩ := hdefined
      exact ⟨key, method, hmethod.mono hsub, hcall⟩

section Emitter

variable {register : Nat} {emitter emitted : ExpressionEmitter}

theorem Numbered.le_of_exports {counters final : Counters} {fragment : Fragment}
    (hnumbered : Numbered counters fragment final) {index : Nat}
    (hindex : .value index ∈ fragment.exports) : counters.value ≤ index := by
  induction hnumbered with
  | nil => exact absurd hindex (Set.notMem_empty _)
  | act _ hdefs => simp [Fragment.exports, hdefs] at hindex
  | define _ hdefs =>
      obtain rfl : index = _ := by simpa [Fragment.exports, hdefs] using hindex
      exact Nat.le_refl _
  | alloca => simp [Fragment.exports, Line.defs] at hindex
  | seq hfirst _ ihfirst ihsecond =>
      rcases hindex with hindex | hindex
      · exact ihfirst hindex
      · exact hfirst.value_le.trans (ihsecond hindex)
  | branch htrue hfalse _ _ _ hresult =>
      obtain rfl : index = _ := by simpa [Fragment.exports] using hindex
      rw [hresult]
      exact htrue.value_le.trans hfalse.value_le

theorem classCall_eq_none {line : Line} (huses : .value register ∉ line.uses) :
    line.classCall? (.named register) = none := by
  cases line with
  | voidCall symbol args =>
      cases args with
      | nil => rfl
      | cons arg rest =>
          have hne : arg.value ≠ .named register := by
            intro heq
            refine huses (List.mem_flatMap.mpr ⟨arg, List.mem_cons_self, ?_⟩)
            rw [heq]
            exact List.mem_singleton_self _
          exact if_neg hne
  | _ => rfl

theorem Numbered.classCalls_eq_nil {counters final : Counters} {fragment : Fragment}
    {available : Set Name} (hnumbered : Numbered counters fragment final)
    (hclosed : fragment.Closed available) (havailable : .value register ∉ available)
    (hregister : register < counters.value) : classCalls (.named register) fragment.lines = [] := by
  induction hnumbered generalizing available with
  | nil => rfl
  | act | define | alloca =>
      refine List.filterMap_cons_none (classCall_eq_none fun hmem => ?_)
      exact havailable (hclosed _ hmem)
  | seq hfirst _ ihfirst ihsecond =>
      rw [Fragment.lines, classCalls_append, ihfirst hclosed.1 havailable hregister, List.nil_append]
      refine ihsecond hclosed.2 ?_ (hregister.trans_le hfirst.value_le)
      rintro (hmem | hmem)
      · exact havailable hmem
      · exact absurd (hfirst.le_of_exports hmem) (Nat.not_le.mpr hregister)
  | branch htrue _ _ _ _ _ ihtrue ihfalse =>
      have hontrue := ihtrue hclosed.2.1 havailable hregister
      have honfalse := ihfalse hclosed.2.2.1 havailable (hregister.trans_le htrue.value_le)
      rw [Fragment.lines]
      simp only [classCalls_append, hontrue, honfalse]
      rfl

structure AppendsCalls (register : Nat) (calls : List ClassCall) (emitter : ExpressionEmitter)
    (lines : List Line) (emitted : ExpressionEmitter) : Prop where
  body : emitted.body = emitter.body ++ lines
  calls_eq : classCalls (.named register) lines = calls
  value_le : emitter.valueIndex ≤ emitted.valueIndex

theorem AppendsCalls.trans {middle : ExpressionEmitter} {calls more : List ClassCall}
    {lines lines' : List Line} (hfirst : AppendsCalls register calls emitter lines middle)
    (hsecond : AppendsCalls register more middle lines' emitted) :
    AppendsCalls register (calls ++ more) emitter (lines ++ lines') emitted where
  body := by rw [hsecond.body, hfirst.body, List.append_assoc]
  calls_eq := by rw [classCalls_append, hfirst.calls_eq, hsecond.calls_eq]
  value_le := hfirst.value_le.trans hsecond.value_le

theorem Emits.appendsCalls {α : Type} {declares : Bool} {action : ExprM α} {value : α}
    {post : Set Name → α → Fragment → Prop}
    (hemits : ∀ available, Emits declares available action (post available))
    (hregister : register < emitter.valueIndex) (hrun : action emitter = .ok (value, emitted)) :
    ∃ lines, AppendsCalls register [] emitter lines emitted := by
  have hlocals : LocalsIn {name | name ≠ .value register} emitter := fun _ _ _ => by simp
  obtain ⟨fragment, hemission, -⟩ := hemits _ _ _ _ hlocals hrun
  exact ⟨fragment.lines, hemission.body,
    hemission.numbered.classCalls_eq_nil hemission.closed (by simp) hregister,
    hemission.numbered.value_le⟩

theorem emitClassCall_appends {symbol : String} (args : List Operand)
    (hrun : emitRuntimeVoidCall symbol (valueArg (.named register) :: args.map valueArg) emitter =
      .ok ((), emitted)) :
    AppendsCalls register [⟨symbol, args⟩] emitter
      [.voidCall symbol (valueArg (.named register) :: args.map valueArg)] emitted := by
  obtain rfl := emitRuntimeVoidCall_run hrun
  have hvalues : (args.map valueArg).map (·.value) = args := by
    rw [List.map_map]
    exact List.map_id args
  have hcall : (Line.voidCall symbol (valueArg (.named register) :: args.map valueArg)).classCall?
      (.named register) = some ⟨symbol, args⟩ := by
    rw [Line.classCall?, List.map_cons, hvalues]
    exact if_pos rfl
  exact ⟨rfl, List.filterMap_cons_some hcall, Nat.le_refl _⟩

theorem emitRuntimeFunctionNew_appends {function : Operand} (register : Nat)
    (hrun : emitRuntimeFunctionNew emitter = .ok (function, emitted)) :
    ∃ lines, AppendsCalls register [] emitter lines emitted ∧ Created lines function := by
  simp only [emitRuntimeFunctionNew, emitRuntimeValueCall, emitRuntimeCall, nextValueName, addDeclaration,
    appendLines, bind_eq_ok, Except.ok.injEq, Prod.mk.injEq, pure_eq_ok] at hrun
  obtain ⟨_, _, ⟨rfl, rfl⟩, _, _, ⟨-, rfl⟩, _, _, ⟨-, rfl⟩, rfl, rfl⟩ := hrun
  exact ⟨_, ⟨rfl, rfl, Nat.le_succ _⟩, _, _, rfl, List.mem_singleton_self _⟩

theorem emitRuntimeUndefined_appends {missing : Operand} (register : Nat)
    (hrun : emitRuntimeUndefined emitter = .ok (missing, emitted)) :
    ∃ lines, AppendsCalls register [] emitter lines emitted ∧ Missing lines missing := by
  obtain ⟨rfl, hbody, hcounters, -⟩ := emitRuntimeLiteral_run hrun
  have hindex := congrArg Counters.value hcounters
  exact ⟨_, ⟨hbody, rfl, (Nat.le_succ _).trans hindex.ge⟩, _, _, rfl, List.mem_singleton_self _⟩

theorem emitFunctionCall_appends {symbol : String} (args : Operand → List Operand)
    (hrun : emitFunctionCall symbol
      (fun function => valueArg (.named register) :: (args function).map valueArg) emitter =
        .ok ((), emitted)) :
    ∃ lines function, AppendsCalls register [⟨symbol, args function⟩] emitter lines emitted ∧
      Created lines function := by
  obtain ⟨function, middle, hfunction, hcall⟩ := bind_eq_ok.mp hrun
  obtain ⟨lines, happends, hcreated⟩ := emitRuntimeFunctionNew_appends register hfunction
  exact ⟨_, function, happends.trans (emitClassCall_appends _ hcall),
    hcreated.mono (List.subset_append_left _ _)⟩

theorem emitClassField_appends {key : Operand} {value : Option Expression} {isPrivate isStatic : Bool}
    (hregister : register < emitter.valueIndex)
    (hrun : emitClassField (.named register) key value isPrivate isStatic emitter = .ok ((), emitted)) :
    ∃ lines value, AppendsCalls register [⟨fieldSymbol isPrivate isStatic, [key, value]⟩] emitter lines
      emitted := by
  obtain ⟨operand, middle, hvalue, hcall⟩ := bind_eq_ok.mp hrun
  obtain ⟨lines, happends⟩ :=
    Emits.appendsCalls (fun available => emitFieldValue_emits value available) hregister hvalue
  exact ⟨_, operand, happends.trans (emitClassCall_appends [key, operand] hcall)⟩

theorem emitClassAccessor_appends {key : Operand} {getter : Bool}
    (hrun : emitClassAccessor (.named register) key getter emitter = .ok ((), emitted)) :
    ∃ lines function missing, Created lines function ∧ Missing lines missing ∧
      AppendsCalls register [⟨"jayess_class_define_accessor",
        if getter then [key, function, missing] else [key, missing, function]⟩] emitter lines emitted := by
  obtain ⟨missing, middle, hmissing, hcall⟩ := bind_eq_ok.mp hrun
  obtain ⟨first, hfirst, hmissing⟩ := emitRuntimeUndefined_appends register hmissing
  have hcall' : emitFunctionCall "jayess_class_define_accessor" (fun function =>
      valueArg (.named register) ::
        (if getter then [key, function, missing] else [key, missing, function]).map valueArg) middle =
      .ok ((), emitted) := by
    rw [← hcall]
    cases getter <;> rfl
  obtain ⟨second, function, hsecond, hcreated⟩ := emitFunctionCall_appends _ hcall'
  exact ⟨_, function, missing, hcreated.mono (List.subset_append_right _ _),
    hmissing.mono (List.subset_append_left _ _), hfirst.trans hsecond⟩

theorem emitClassMember_appends (member : ClassMember) (hregister : register < emitter.valueIndex)
    (hrun : emitClassMember (.named register) member emitter = .ok ((), emitted)) :
    ∃ lines call, AppendsCalls register [call] emitter lines emitted ∧ DefinedBy lines member call := by
  obtain ⟨name, keyExpr, params, body, value, computed, staticBlock, isConstructor, field, getter, setter,
    isPrivate, isStatic⟩ := member
  rw [emitClassMember] at hrun
  cases isConstructor with
  | true =>
      obtain ⟨lines, constructor, happends, hcreated⟩ :=
        emitFunctionCall_appends (fun constructor => [constructor]) hrun
      exact ⟨lines, _, happends, constructor, hcreated, rfl⟩
  | false =>
  cases staticBlock with
  | true =>
      obtain ⟨lines, block, happends, hcreated⟩ :=
        emitFunctionCall_appends (fun block => [block]) hrun
      exact ⟨lines, _, happends, block, hcreated, rfl⟩
  | false =>
  obtain ⟨key, middle, hkey, hkeyed⟩ := bind_eq_ok.mp hrun
  obtain ⟨first, hfirst⟩ :=
    Emits.appendsCalls (fun _ => emitOptionalKey_emits) hregister hkey
  have hregister' := hregister.trans_le hfirst.value_le
  rw [emitKeyedMember] at hkeyed
  cases field with
  | true =>
      obtain ⟨second, operand, hsecond⟩ := emitClassField_appends hregister' hkeyed
      exact ⟨_, _, hfirst.trans hsecond, key, operand, rfl⟩
  | false =>
  cases getter with
  | true =>
      obtain ⟨second, function, missing, hcreated, hmissing, hsecond⟩ := emitClassAccessor_appends hkeyed
      refine ⟨_, _, hfirst.trans hsecond, key, function, missing, ?_, ?_, rfl⟩
      · exact hcreated.mono (List.subset_append_right _ _)
      · exact hmissing.mono (List.subset_append_right _ _)
  | false =>
  cases setter with
  | true =>
      obtain ⟨second, function, missing, hcreated, hmissing, hsecond⟩ := emitClassAccessor_appends hkeyed
      refine ⟨_, _, hfirst.trans hsecond, key, missing, function, ?_, ?_, rfl⟩
      · exact hmissing.mono (List.subset_append_right _ _)
      · exact hcreated.mono (List.subset_append_right _ _)
  | false =>
      obtain ⟨second, method, hsecond, hcreated⟩ :=
        emitFunctionCall_appends (fun method => [key, method]) hkeyed
      refine ⟨_, _, hfirst.trans hsecond, key, method, ?_, rfl⟩
      exact hcreated.mono (List.subset_append_right _ _)

theorem emitClassMembers_appends (members : List ClassMember) (hregister : register < emitter.valueIndex)
    (hrun : members.forM (emitClassMember (.named register)) emitter = .ok ((), emitted)) :
    ∃ lines calls, AppendsCalls register calls emitter lines emitted ∧
      List.Forall₂ (DefinedBy lines) members calls := by
  induction members generalizing emitter with
  | nil =>
      obtain ⟨-, rfl⟩ := Prod.mk.inj (pure_eq_ok.mp hrun)
      exact ⟨[], [], ⟨(List.append_nil _).symm, rfl, Nat.le_refl _⟩, .nil⟩
  | cons member rest ih =>
      obtain ⟨_, middle, hmember, hrest⟩ := bind_eq_ok.mp hrun
      obtain ⟨first, call, hfirst, hdefined⟩ := emitClassMember_appends member hregister hmember
      obtain ⟨second, calls, hsecond, hall⟩ := ih (hregister.trans_le hfirst.value_le) hrest
      refine ⟨first ++ second, call :: calls, hfirst.trans hsecond, .cons ?_ ?_⟩
      · exact hdefined.mono (List.subset_append_left _ _)
      · exact hall.imp fun _ _ hdefined => hdefined.mono (List.subset_append_right _ _)

end Emitter

end Backend

end Jayess
