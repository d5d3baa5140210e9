import Jayess.Lowering.StatementPreservation

/-!
# Frames of runs of the evaluator
-/

namespace Jayess.Lowering

/-- What a scope knows of a variable. -/
structure VariableBinding where
  int : Option Int64
  bigInt : Option GoString
  bool : Option Bool
  string : Option GoString
  nullish : Option ReturnNullishKind
  function : Option Identity
  object : Option Identity

def unknownBinding : VariableBinding := ⟨none, none, none, none, none, none, none⟩

namespace ReturnScope

variable {scope source : ReturnScope} {name other : String}

def bindingOf (scope : ReturnScope) (name : String) : VariableBinding where
  int := scope.ints name
  bigInt := scope.bigints name
  bool := scope.bools name
  string := scope.strings name
  nullish := scope.nullish name
  function := scope.funcs name
  object := scope.objects name

theorem bindingOf_eq_unknown (hunknown : scope.bindingKnown name = false) :
    scope.bindingOf name = unknownBinding := by
  simp only [bindingKnown, Bool.or_eq_false_iff, Option.isSome_eq_false_iff,
    Option.isNone_iff_eq_none] at hunknown
  obtain ⟨⟨⟨⟨⟨⟨hint, hstring⟩, hbigInt⟩, hnullish⟩, hfunction⟩, hobject⟩, hbool⟩ := hunknown
  rw [bindingOf, hint, hstring, hbigInt, hnullish, hfunction, hobject, hbool, unknownBinding]

@[simp] theorem bindingOf_clearBinding_self :
    (scope.clearBinding name).bindingOf name = unknownBinding := by
  simp [clearBinding, bindingOf, unknownBinding]

theorem bindingOf_clearBinding (hne : name ≠ other) :
    (scope.clearBinding other).bindingOf name = scope.bindingOf name := by
  simp [clearBinding, bindingOf, hne]

theorem bindingOf_store (value : ReturnValue) (hne : name ≠ other) :
    (scope.store other value).bindingOf name = scope.bindingOf name := by
  cases value <;> simp [store, bindingOf, hne]

@[simp] theorem bindingOf_restoreBinding_self :
    (scope.restoreBinding name source).bindingOf name = source.bindingOf name := by
  simp [restoreBinding, bindingOf]

theorem bindingOf_restoreBinding (hne : name ≠ other) :
    (scope.restoreBinding other source).bindingOf name = scope.bindingOf name := by
  simp [restoreBinding, bindingOf, hne]

end ReturnScope

variable {α : Type} {name : String}

/-- The world is what is known of the variable, and its name is not to be written. -/
def frameDiscipline (name : String) : Discipline where
  World := VariableBinding
  Grows := Eq
  Holds world state := state.scope.bindingOf name = world
  Function _ _ := True
  Object _ _ := True
  Snapshot world scope := scope.bindingOf name = world
  Guarded other := other = name
  refl _ := rfl
  trans := Eq.trans
  function_grows _ _ := trivial
  object_grows _ _ := trivial
  snapshot_grows grows known := known.trans grows
  rollback before _ _ := ⟨_, rfl, before⟩
  current holds := holds
  function_of_snapshot _ _ := trivial
  object_of_snapshot _ _ := trivial
  clear _ hfree holds := (ReturnScope.bindingOf_clearBinding (Ne.symm hfree)).trans holds
  store _ value hfree holds _ _ :=
    ((ReturnScope.bindingOf_store value (Ne.symm hfree)).trans
      (ReturnScope.bindingOf_clearBinding (Ne.symm hfree))).trans holds
  overwrite_int _ value hfree holds _ := (ReturnScope.bindingOf_store (.int value) (Ne.symm hfree)).trans holds
  overwrite_bigInt _ value hfree holds _ := (ReturnScope.bindingOf_store (.bigInt value) (Ne.symm hfree)).trans holds
  allocate_function holds := ⟨_, rfl, holds, trivial⟩
  allocate_object holds := ⟨_, rfl, holds, trivial⟩
  compare_functions holds _ _ := holds
  compare_objects holds _ _ := holds

theorem spares_frame {assigns : String → Bool} (spares : assigns name = false) :
    (frameDiscipline name).Spares assigns := by
  rintro other rfl
  exact spares

theorem bindingOf_of_keeps {m : Eval α} {result : (frameDiscipline name).World → α → Prop} {state after : Evaluation}
    {value : Option α} (hkeeps : ∀ {world}, (frameDiscipline name).Keeps world m result)
    (hrun : m.outcome state = (value, after)) : after.scope.bindingOf name = state.scope.bindingOf name := by
  obtain ⟨later, grows, hafter, -⟩ := hkeeps state rfl
  rw [hrun] at hafter
  exact hafter.trans grows.symm

theorem keeps_of_bindingOf {m : Eval α} {result : (frameDiscipline name).World → α → Prop}
    {world : VariableBinding} (known : (frameDiscipline name).Known result)
    (hleaves : ∀ state, (m.outcome state).2.scope.bindingOf name = state.scope.bindingOf name) :
    (frameDiscipline name).Keeps world m result := by
  intro state holds
  refine ⟨world, rfl, (hleaves state).trans holds, fun value _ => ?_⟩
  have hvalue : ∀ value, (frameDiscipline name).Value world value :=
    fun _ => ⟨fun _ _ => trivial, fun _ _ => trivial⟩
  cases known with
  | any | function | object => exact trivial
  | elements => exact fun element _ => hvalue element
  | properties => exact fun _ property _ => hvalue property

end Jayess.Lowering
