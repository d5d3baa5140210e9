import Jayess.Backend.ClassDeclarations

/-!
# Initialisers of instance fields
-/

namespace Jayess.Backend

open Flow (Traces Path labels)
open Flow.Traces (seq Lengthens)

def isInstanceField (member : ClassMember) : Bool := member.kind = .field && !member.isStatic

def initialises (member : ClassMember) : Bool := isInstanceField member && member.value.isSome

def keyEvaluations (context : Context) (computed : Bool) (keyExpr : Option Expression) :
    Traces Event :=
  match computed, keyExpr with
  | true, some keyExpr => keyExpr.evaluations true context
  | true, none => [[]]
  | false, _ => called "jayess_value_from_string_copy"

def fieldEvaluations (context : Context) (value : Option Expression) (waits : Bool) : Traces Event :=
  match value with
  | none => called "jayess_value_undefined"
  | some value => if waits then [[]] else value.evaluations true context

/-- What is evaluated to define a member. Where `perClass` holds the instance fields are initialised too. -/
def memberEvaluations (context : Context) (perClass : Bool) : ClassMember → Traces Event
  | ⟨_, keyExpr, _, _, value, computed, staticBlock, isConstructor, field, getter, setter, isPrivate,
      isStatic⟩ =>
      if isConstructor then
        seq (called "jayess_function_new") (called "jayess_class_define_constructor")
      else if staticBlock then
        seq (called "jayess_function_new") (called "jayess_class_define_static_block")
      else
        seq (keyEvaluations context computed keyExpr)
          (if field then
            seq (fieldEvaluations context value (!perClass && !isStatic))
              (called (fieldSymbol isPrivate isStatic))
          else if getter || setter then
            seq (called "jayess_value_undefined")
              (seq (called "jayess_function_new") (called "jayess_class_define_accessor"))
          else seq (called "jayess_function_new") (called (methodSymbol isPrivate)))

def membersEvaluations (context : Context) (perClass : Bool) : List ClassMember → Traces Event
  | [] => [[]]
  | member :: rest =>
      seq (memberEvaluations context perClass member) (membersEvaluations context perClass rest)

def classEvaluations (context : Context) (perClass : Bool) (members : List ClassMember) : Traces Event :=
  seq (membersEvaluations context perClass members) (called "jayess_class_run_static_blocks")

/-- What JavaScript evaluates for each instance: the initialisers of the instance fields. -/
def instanceEvaluations (context : Context) : List ClassMember → Traces Event
  | [] => [[]]
  | member :: rest =>
      seq (if isInstanceField member then
          match member.value with
          | some value => value.evaluations true context
          | none => [[]]
        else [[]])
        (instanceEvaluations context rest)

/-- What `NewInstance` evaluates: it copies values from the tables. -/
def newInstanceEvaluations : Traces Event := [[]]

section Does

variable {context : Context} {classValue key : Operand}

theorem emitFunctionCall_does {symbol : String} {args : Operand → List RuntimeCallArg} :
    Does context (emitFunctionCall symbol args) (seq (called "jayess_function_new") (called symbol)) :=
  emitRuntimeCall_does.step fun _ _ => emitRuntimeVoidCall_does

theorem emitMemberKey_does {name : String} {computed : Bool} {keyExpr : Option Expression} :
    Does context (emitPropertyKey "class member" name computed (keyExpr.map emitExpression))
      (keyEvaluations context computed keyExpr) := by
  cases computed with
  | false => exact emitRuntimeString_does
  | true =>
      cases keyExpr with
      | none => exact .fail
      | some keyExpr => exact emitExpression_does context keyExpr

theorem emitClassField_does {value : Option Expression} {isPrivate isStatic : Bool} :
    Does context (emitClassField classValue key value isPrivate isStatic)
      (seq (fieldEvaluations context value false) (called (fieldSymbol isPrivate isStatic))) := by
  have hvalue : Does context (emitFieldValue value) (fieldEvaluations context value false) := by
    cases value with
    | none => exact emitRuntimeUndefined_does
    | some value => exact emitExpression_does context value
  exact hvalue.step fun _ _ => emitRuntimeVoidCall_does

theorem emitClassMember_does (member : ClassMember) :
    Does context (emitClassMember classValue member) (memberEvaluations context true member) := by
  obtain ⟨name, keyExpr, params, body, value, computed, staticBlock, isConstructor, field, getter, setter,
    isPrivate, isStatic⟩ := member
  rw [emitClassMember, memberEvaluations]
  cases isConstructor with
  | true => exact emitFunctionCall_does
  | false =>
  cases staticBlock with
  | true => exact emitFunctionCall_does
  | false =>
  refine emitMemberKey_does.step fun key _ => ?_
  rw [emitKeyedMember]
  cases field with
  | true => exact emitClassField_does
  | false =>
  cases haccessor : getter || setter with
  | true => exact emitRuntimeUndefined_does.step fun _ _ => emitFunctionCall_does
  | false => exact emitFunctionCall_does

theorem emitClassMembers_does (members : List ClassMember) :
    Does context (members.forM (emitClassMember classValue)) (membersEvaluations context true members) := by
  induction members with
  | nil => exact .done trivial
  | cons member rest ih => exact (emitClassMember_does member).step fun _ _ => ih

theorem emitClassRest_does (members : List ClassMember) :
    Does context (emitClassRest members classValue) (classEvaluations context true members) :=
  (emitClassMembers_does members).step fun _ _ => emitRuntimeVoidCall_does

end Does

section Lengthens

variable (emitter : ExpressionEmitter)

theorem same_evaluations (expression : Expression) :
    Lengthens true (expression.evaluations true emitter.context)
      (expression.evaluations true emitter.context) := by
  have hlengthens := evaluations_lengthens emitter expression
  exact .refl (List.length_pos_iff.mp hlengthens.length_pos) hlengthens.traces

theorem same_keyEvaluations (computed : Bool) (keyExpr : Option Expression) :
    Lengthens true (keyEvaluations emitter.context computed keyExpr)
      (keyEvaluations emitter.context computed keyExpr) := by
  cases computed with
  | false => exact same_called
  | true =>
      cases keyExpr with
      | none => exact .singleton []
      | some keyExpr => exact same_evaluations emitter keyExpr

theorem fieldEvaluations_lengthens (value : Option Expression) (isStatic : Bool) :
    Lengthens (!(!isStatic && value.isSome)) (fieldEvaluations emitter.context value (!isStatic))
      (fieldEvaluations emitter.context value false) := by
  cases value with
  | none =>
      rw [Option.isSome_none, Bool.and_false, Bool.not_false]
      exact same_called
  | some value =>
      cases isStatic with
      | true => exact same_evaluations emitter value
      | false =>
          have hsame := same_evaluations emitter value
          have hinsert := (Lengthens.singleton ([] : List Event)).insert hsame.traces
            (evaluations_busy true emitter.context value) (List.length_pos_iff.mp hsame.length_pos)
          rwa [Flow.Traces.nil_seq] at hinsert

theorem memberEvaluations_lengthens (member : ClassMember) :
    Lengthens (!initialises member) (memberEvaluations emitter.context false member)
      (memberEvaluations emitter.context true member) := by
  obtain ⟨name, keyExpr, params, body, value, computed, staticBlock, isConstructor, field, getter, setter,
    isPrivate, isStatic⟩ := member
  rw [memberEvaluations, memberEvaluations]
  have hfunction : ∀ symbol, Lengthens true (seq (called "jayess_function_new") (called symbol))
      (seq (called "jayess_function_new") (called symbol)) := fun symbol => same_called.after same_called
  cases isConstructor with
  | true => exact hfunction _
  | false =>
  cases staticBlock with
  | true => exact hfunction _
  | false =>
  cases field with
  | true =>
      have hcall : Lengthens true (called (fieldSymbol isPrivate isStatic))
          (called (fieldSymbol isPrivate isStatic)) := same_called
      exact ((fieldEvaluations_lengthens emitter value isStatic).before hcall).after
        (same_keyEvaluations emitter computed keyExpr)
  | false =>
  have hother : initialises ⟨name, keyExpr, params, body, value, computed, false, false, false, getter, setter,
      isPrivate, isStatic⟩ = false := by
    cases getter <;> cases setter <;> rfl
  rw [hother]
  refine Lengthens.after ?_ (same_keyEvaluations emitter computed keyExpr)
  cases getter || setter with
  | true => exact (hfunction _).after same_called
  | false => exact hfunction _

theorem membersEvaluations_lengthens (members : List ClassMember) :
    Lengthens (members.all fun member => !initialises member)
      (membersEvaluations emitter.context false members)
      (membersEvaluations emitter.context true members) := by
  induction members with
  | nil => exact .singleton []
  | cons member rest ih => exact (memberEvaluations_lengthens emitter member).seq ih

theorem classEvaluations_lengthens (members : List ClassMember) :
    Lengthens (members.all fun member => !initialises member)
      (classEvaluations emitter.context false members) (classEvaluations emitter.context true members) :=
  (membersEvaluations_lengthens emitter members).before same_called

end Lengthens

theorem emitClassRest_emits {available : Set Name} {classValue : Operand} (members : List ClassMember)
    (hclass : classValue.In available) :
    EmitsLines available ((membersShape members).append .straight) (emitClassRest members classValue) :=
  (emitClassMembers_emits members hclass).step fun _ _ hlarger _ =>
    emitRuntimeVoidCall_emits (argsIn_singleton (hclass.mono hlarger))

namespace ClassCode

variable (code : ClassCode)

theorem path_lines_iff (trace : List Event) : Path lineObservation code.lines code.lines trace [] ↔
    trace ∈ classEvaluations code.started.context true code.members := by
  obtain ⟨-, -, fragment, hbody, hplain, htraces⟩ :=
    emitClassRest_does code.members _ _ _ rfl code.rest_run
  have hclass : Operand.In Set.univ (.named code.register) := fun _ _ => Set.mem_univ _
  obtain ⟨numbered, hemission, -⟩ :=
    emitClassRest_emits code.members hclass _ _ _ (fun _ _ _ => Set.mem_univ _) code.rest_run
  have hlines : code.lines = fragment.lines := by
    rw [ClassCode.lines, hbody, List.drop_left]
  have hlines' : numbered.lines = fragment.lines :=
    List.append_cancel_left (hemission.body.symm.trans hbody)
  have hnodup : (labels fragment.lines).Nodup := hlines' ▸ hemission.numbered.labels_nodup
  rw [hlines, ← htraces]
  exact fragment.path_lines_iff hplain hnodup

/-- Defining the class evaluates no initialiser of an instance field, and making an instance evaluates them
all. -/
def InitialisesInstances : Prop :=
  (∀ trace, Path lineObservation code.lines code.lines trace [] ↔
      trace ∈ classEvaluations code.started.context false code.members) ∧
    ∀ trace, trace ∈ newInstanceEvaluations ↔
      trace ∈ instanceEvaluations code.started.context code.members

theorem instanceEvaluations_eq {context : Context} {members : List ClassMember}
    (hnone : ∀ member ∈ members, initialises member = false) :
    instanceEvaluations context members = newInstanceEvaluations := by
  induction members with
  | nil => rfl
  | cons member rest ih =>
      obtain ⟨hmember, hrest⟩ := List.forall_mem_cons.mp hnone
      rw [instanceEvaluations, ih hrest, newInstanceEvaluations, Flow.Traces.seq_nil]
      rw [initialises] at hmember
      cases hfield : isInstanceField member with
      | false => rfl
      | true =>
          rw [hfield, Bool.true_and, Option.isSome_eq_false_iff, Option.isNone_iff_eq_none] at hmember
          rw [hmember]
          rfl

theorem initialisesInstances_iff :
    code.InitialisesInstances ↔ ∀ member ∈ code.members, initialises member = false := by
  have hexact := (classEvaluations_lengthens code.started code.members).mem_iff_iff
  have hall : (code.members.all fun member => !initialises member) = true ↔
      ∀ member ∈ code.members, initialises member = false := by
    simp
  rw [InitialisesInstances]
  simp only [code.path_lines_iff]
  rw [hexact, hall]
  constructor
  · exact And.left
  · intro hnone
    refine ⟨hnone, fun trace => ?_⟩
    rw [instanceEvaluations_eq hnone]

end ClassCode

end Jayess.Backend
