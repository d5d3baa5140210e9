import Jayess.Backend.ClassInitialisers

/-!
# The class that a declaration defines

A class declaration defines the class of JavaScript where it has no getter and setter of one name, no static
member but public fields, and no initialiser of an instance field.
-/

namespace Jayess.Backend

variable {Value Function : Type*}

namespace ClassCode

/-- The class is the one JavaScript defines: a getter and a setter of one name are both there, static members
belong to the class itself, and instance fields are initialised for each instance. -/
structure Yields (code : ClassCode) (registers : Registers Value Function) (address : Nat) : Prop where
  accessors : code.AccessorsCoexist registers address
  statics : code.StaticsOnClass registers
  initialisers : code.InitialisesInstances

/-- The members that the emitted calls can express. -/
structure Expressible (code : ClassCode) (registers : Registers Value Function) : Prop where
  accessors : ∀ getter ∈ code.definitions, ∀ setter ∈ code.definitions,
    ¬ AccessorPair registers getter setter
  statics : ∀ definition ∈ code.definitions, definition.1.kind.isKeyed = true →
    definition.1.isStatic = true → definition.1.kind = .field ∧ definition.1.isPrivate = false
  initialisers : ∀ member ∈ code.members, initialises member = false

variable {code : ClassCode} {registers : Registers Value Function}

end ClassCode

/-- The code of a class without a superclass, as far as its members go. -/
def memberLines (name : String) (members : List ClassMember) : Option (Operand × List Line) :=
  match emitClassStart name none newExpressionEmitter with
  | .error _ => none
  | .ok (classValue, started) =>
      match emitClassRest members classValue started with
      | .error _ => none
      | .ok (_, emitted) => some (classValue, emitted.body.drop started.body.length)

theorem exists_code (name : String) {members : List ClassMember} {register : Nat} {lines : List Line}
    (hlines : memberLines name members = some (.named register, lines)) :
    ∃ code : ClassCode, code.members = members ∧ code.register = register ∧ code.lines = lines := by
  rw [memberLines] at hlines
  cases hstart : emitClassStart name none newExpressionEmitter with
  | error error =>
      rw [hstart] at hlines
      cases hlines
  | ok started =>
      obtain ⟨classValue, started⟩ := started
      rw [hstart] at hlines
      dsimp only at hlines
      cases hrest : emitClassRest members classValue started with
      | error error =>
          rw [hrest] at hlines
          cases hlines
      | ok emitted =>
          obtain ⟨_, emitted⟩ := emitted
          rw [hrest] at hlines
          obtain ⟨rfl, rfl⟩ := Prod.mk.inj (Option.some.inj hlines)
          have hrun : emitClassDeclaration name none members newExpressionEmitter = .ok ((), emitted) := by
            rw [emitClassDeclaration_eq]
            exact bind_eq_ok.mpr ⟨_, started, hstart, hrest⟩
          exact ⟨⟨name, none, members, newExpressionEmitter, started, register, emitted, hstart, hrun⟩, rfl, rfl,
            rfl⟩

def functionMember (name : String) (getter setter : Bool) : ClassMember :=
  ⟨name, none, [], [], none, false, false, false, false, getter, setter, false, false⟩

def namedRegisters (name : String) (functions : List Operand) : Registers Unit Unit where
  value _ := ()
  key _ := name
  function operand := if operand ∈ functions then some () else none

theorem namedRegisters_hold {code : ClassCode} {name : String} {functions : List Operand}
    (hcreated : ∀ result type, .call result type "jayess_function_new" [] ∈ code.lines →
      .named result ∈ functions)
    (hmissing : ∀ result type, .call result type "jayess_value_undefined" [] ∈ code.lines →
      .named result ∉ functions)
    (hnamed : ∀ member ∈ code.members, member.name = name) :
    (namedRegisters name functions).Hold code where
  created := by
    rintro operand ⟨result, type, rfl, hmem⟩
    rw [namedRegisters]
    dsimp only
    rw [if_pos (hcreated result type hmem)]
    exact Option.some_ne_none _
  missing := by
    rintro operand ⟨result, type, rfl, hmem⟩
    exact if_neg (hmissing result type hmem)
  named := by
    intro definition hmem _ _
    exact (hnamed _ (List.of_mem_zip hmem).1).symm

/-- The lines of `get name() {}` and `set name() {}` in `class Box`. -/
def accessorLines : List Line :=
  let define (key getter setter : Nat) : Line :=
    .voidCall "jayess_class_define_accessor"
      [valueArg (.named 1), valueArg (.named key), valueArg (.named getter), valueArg (.named setter)]
  let name (result index : Nat) : Line :=
    .call result "%jayess.value" "jayess_value_from_string_copy" [⟨"i8*", .literalPointer index 5⟩]
  [name 2 1, .call 3 "%jayess.value" "jayess_value_undefined" [],
    .call 4 "%jayess.value" "jayess_function_new" [], define 2 4 3, name 5 2,
    .call 6 "%jayess.value" "jayess_value_undefined" [],
    .call 7 "%jayess.value" "jayess_function_new" [], define 5 6 7,
    .voidCall "jayess_class_run_static_blocks" [valueArg (.named 1)]]

/-- The lines of `method() {}` in `class Box`. -/
def methodLines : List Line :=
  [.call 2 "%jayess.value" "jayess_value_from_string_copy" [⟨"i8*", .literalPointer 1 7⟩],
    .call 3 "%jayess.value" "jayess_function_new" [],
    .voidCall "jayess_class_define_method"
      [valueArg (.named 1), valueArg (.named 2), valueArg (.named 3)],
    .voidCall "jayess_class_run_static_blocks" [valueArg (.named 1)]]

end Jayess.Backend
