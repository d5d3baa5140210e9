import Jayess.Backend.ClassCalls

/-!
# Class declarations

What the emitted code of a class declaration makes of the members, beside what JavaScript makes of them: a
getter and a setter of one name, members of the class itself, and initialisers of instance fields.
-/

open Jayess.Runtime (ClassLayout PropertyMap Accessor)

namespace Jayess

def MemberKind.isKeyed : MemberKind → Bool
  | .constructor | .staticBlock => false
  | .field | .getter | .setter | .method => true

namespace Backend

variable {Value Function : Type*}

/-- `emitClassDeclaration` up to the members: the class is made and its name is declared. -/
def emitClassStart (name : String) (superClass : Option Expression) : ExprM Operand := do
  if name = "" then fail "runtime class declaration must have a name"
  let nameValue ← emitRuntimeString name
  let base ← emitRuntimeValueCall "jayess_class_new" [valueArg nameValue]
  let classValue ← emitClassBase base superClass
  declareLocal name classValue
  return classValue

/-- `emitClassDeclaration` from the members on. -/
def emitClassRest (members : List ClassMember) (classValue : Operand) : ExprM Unit := do
  members.forM (emitClassMember classValue)
  emitRuntimeVoidCall "jayess_class_run_static_blocks" [valueArg classValue]

theorem emitClassDeclaration_eq (name : String) (superClass : Option Expression)
    (members : List ClassMember) :
    emitClassDeclaration name superClass members =
      emitClassStart name superClass >>= emitClassRest members := by
  unfold emitClassDeclaration emitClassStart emitClassRest
  by_cases hname : name = ""
  · simp [hname]
  · simp [hname]

/-- A class declaration that is emitted, with the emitter before its members and the register that holds
the class there. -/
structure ClassCode where
  name : String
  superClass : Option Expression
  members : List ClassMember
  emitter : ExpressionEmitter
  started : ExpressionEmitter
  register : Nat
  emitted : ExpressionEmitter
  hstart : emitClassStart name superClass emitter = .ok (.named register, started)
  hrun : emitClassDeclaration name superClass members emitter = .ok ((), emitted)

theorem emitClassStart_named {name : String} {superClass : Option Expression} {classValue : Operand}
    {emitter started : ExpressionEmitter}
    (hrun : emitClassStart name superClass emitter = .ok (classValue, started)) :
    ∃ register, classValue = .named register ∧ register < started.valueIndex := by
  rw [emitClassStart] at hrun
  obtain ⟨nameValue, named, -, hrun⟩ := bind_eq_ok.mp (unless_fail_run hrun).2
  obtain ⟨base, based, hbase, hrun⟩ := bind_eq_ok.mp hrun
  obtain ⟨value, extended, hextended, hrun⟩ := bind_eq_ok.mp hrun
  obtain ⟨_, declared, hdeclared, hreturn⟩ := bind_eq_ok.mp hrun
  obtain ⟨rfl, rfl⟩ := Prod.mk.inj (pure_eq_ok.mp hreturn)
  have hvalue : value.In Set.univ := fun _ _ => Set.mem_univ _
  obtain ⟨_, hemission, -⟩ := declareLocal_emits hvalue _ _ _ (fun _ _ _ => Set.mem_univ _) hdeclared
  have hle : extended.valueIndex ≤ declared.valueIndex := hemission.numbered.value_le
  obtain ⟨rfl, rfl⟩ := emitRuntimeCall_run hbase
  cases superClass with
  | none =>
      obtain ⟨rfl, rfl⟩ := Prod.mk.inj (pure_eq_ok.mp hextended)
      exact ⟨_, rfl, hle⟩
  | some superClass =>
      obtain ⟨superValue, middle, -, hcall⟩ := bind_eq_ok.mp hextended
      obtain ⟨rfl, rfl⟩ := emitRuntimeCall_run hcall
      exact ⟨_, rfl, hle⟩

namespace ClassCode

variable (code : ClassCode)

theorem register_lt : code.register < code.started.valueIndex := by
  obtain ⟨register, hregister, hlt⟩ := emitClassStart_named code.hstart
  obtain rfl := Operand.named.inj hregister
  exact hlt

theorem rest_run :
    emitClassRest code.members (.named code.register) code.started = .ok ((), code.emitted) := by
  obtain ⟨classValue, started, hstart, hrest⟩ :=
    bind_eq_ok.mp (emitClassDeclaration_eq .. ▸ code.hrun)
  obtain ⟨rfl, rfl⟩ := Prod.mk.inj (Except.ok.inj (hstart.symm.trans code.hstart))
  exact hrest

/-- The lines that define the members. -/
def lines : List Line := code.emitted.body.drop code.started.body.length

def calls : List ClassCall := classCalls (.named code.register) code.lines

def definitions : List (ClassMember × ClassCall) := code.members.zip code.calls

theorem calls_eq : code.calls =
      code.definitions.map Prod.snd ++ [⟨"jayess_class_run_static_blocks", []⟩] ∧
    code.definitions.map Prod.fst = code.members ∧
    ∀ definition ∈ code.definitions, DefinedBy code.lines definition.1 definition.2 := by
  obtain ⟨_, middle, hmembers, hblocks⟩ := bind_eq_ok.mp code.rest_run
  obtain ⟨lines, calls, happends, hdefined⟩ := emitClassMembers_appends code.members code.register_lt hmembers
  have hall := happends.trans (emitClassCall_appends [] hblocks)
  have hlines : code.lines = lines ++
      [.voidCall "jayess_class_run_static_blocks" [valueArg (.named code.register)]] := by
    rw [ClassCode.lines, hall.body, List.drop_left]
    rfl
  have hcalls : code.calls = calls ++ [⟨"jayess_class_run_static_blocks", []⟩] := by
    rw [ClassCode.calls, hlines]
    exact hall.calls_eq
  have hlength := hdefined.length_eq
  have hdefinitions : code.definitions = code.members.zip calls := by
    calc code.definitions
        = (code.members ++ []).zip (calls ++ [ClassCall.mk "jayess_class_run_static_blocks" []]) := by
          rw [definitions, hcalls, List.append_nil]
      _ = code.members.zip calls := by rw [List.zip_append hlength, List.zip_nil_left, List.append_nil]
  refine ⟨?_, ?_, fun definition hmem => ?_⟩
  · rw [hdefinitions, List.map_snd_zip hlength.ge, hcalls]
  · rw [hdefinitions, List.map_fst_zip hlength.le]
  · rw [hdefinitions] at hmem
    rw [hlines]
    exact ((List.forall₂_iff_zip.mp hdefined).2 hmem).mono (List.subset_append_left _ _)

theorem definedBy {definition : ClassMember × ClassCall} (hmem : definition ∈ code.definitions) :
    DefinedBy code.lines definition.1 definition.2 :=
  code.calls_eq.2.2 definition hmem

end ClassCode

/-! ## Getters, setters and static members -/

/-- The key a call takes, if it takes one. -/
def ClassCall.key (call : ClassCall) : Operand := call.args.headD .undef

namespace Registers

variable (registers : Registers Value Function)

/-- The registers hold what the code puts there: functions where it creates them, nothing where it takes
undefined, and for a key that is not computed the name of the member. -/
structure Hold (code : ClassCode) : Prop where
  created : ∀ operand, Created code.lines operand → registers.function operand ≠ none
  missing : ∀ operand, Missing code.lines operand → registers.function operand = none
  named : ∀ definition ∈ code.definitions, definition.1.kind.isKeyed = true →
    definition.1.computed = false → registers.key definition.2.key = definition.1.name

def memberKey (definition : ClassMember × ClassCall) : String :=
  if definition.1.computed then registers.key definition.2.key else definition.1.name

theorem Hold.key_eq {registers : Registers Value Function} {code : ClassCode} (hhold : registers.Hold code)
    {definition : ClassMember × ClassCall} (hmem : definition ∈ code.definitions)
    (hkeyed : definition.1.kind.isKeyed = true) :
    registers.key definition.2.key = registers.memberKey definition := by
  rw [memberKey]
  split
  · rfl
  · exact hhold.named definition hmem hkeyed (Bool.not_eq_true _ ▸ ‹_›)

end Registers

structure InstanceSide (Value Function : Type*) where
  fields : PropertyMap Value
  privateFields : PropertyMap Value
  methods : PropertyMap Function
  privateMethods : PropertyMap Function
  accessors : PropertyMap (Accessor Function)

def instanceSide (layout : ClassLayout Value Function) : InstanceSide Value Function :=
  ⟨layout.fields, layout.privateFields, layout.methods, layout.privateMethods, layout.accessors⟩

def OneSided (layout : ClassLayout Value Function) : Prop :=
  ∀ key accessor, layout.accessors.lookup key = some accessor →
    accessor.getter = none ∨ accessor.setter = none

section Run

variable {registers : Registers Value Function} {code : ClassCode} {layout : ClassLayout Value Function}
  {definition : ClassMember × ClassCall}

theorem OneSided.congr {other : ClassLayout Value Function} (hsided : OneSided layout)
    (haccessors : other.accessors = layout.accessors) : OneSided other := by
  intro key accessor hlookup
  rw [haccessors] at hlookup
  exact hsided key accessor hlookup

theorem OneSided.defineAccessor {key : String} {getter setter : Option Function} (hsided : OneSided layout)
    (hmissing : getter = none ∨ setter = none) :
    OneSided (layout.defineAccessor key getter setter) := by
  intro key' accessor hlookup
  rw [ClassLayout.defineAccessor] at hlookup
  by_cases hkey : key' = key
  · subst hkey
    rw [AList.lookup_insert, Option.some.injEq] at hlookup
    subst hlookup
    exact hmissing
  · rw [AList.lookup_insert_ne hkey] at hlookup
    exact hsided key' accessor hlookup

theorem run_field {isPrivate isStatic : Bool} {key value : Operand} :
    (ClassCall.mk (fieldSymbol isPrivate isStatic) [key, value]).run registers layout =
      if isPrivate then layout.definePrivateField (registers.key key) (registers.value value)
      else if isStatic then layout.defineStaticField (registers.key key) (registers.value value)
      else layout.defineField (registers.key key) (registers.value value) := by
  cases isPrivate <;> cases isStatic <;> rfl

theorem run_method {isPrivate : Bool} {key method : Operand} {function : Function}
    (hfunction : registers.function method = some function) :
    (ClassCall.mk (methodSymbol isPrivate) [key, method]).run registers layout =
      if isPrivate then layout.definePrivateMethod (registers.key key) function
      else layout.defineMethod (registers.key key) function := by
  cases isPrivate with
  | true =>
      show ClassCall.definePrivateMethod registers key method layout = _
      rw [ClassCall.definePrivateMethod, hfunction]
      rfl
  | false =>
      show ClassCall.defineMethod registers key method layout = _
      rw [ClassCall.defineMethod, hfunction]
      rfl

theorem OneSided.run (hsided : OneSided layout) (hhold : registers.Hold code)
    (hmem : definition ∈ code.definitions) : OneSided (definition.2.run registers layout) := by
  have hdefined := code.definedBy hmem
  obtain ⟨member, call⟩ := definition
  rw [DefinedBy] at hdefined
  dsimp only at hdefined ⊢
  cases hkind : member.kind with
  | constructor =>
      rw [hkind] at hdefined
      obtain ⟨constructor, -, rfl⟩ := hdefined
      exact hsided
  | staticBlock =>
      rw [hkind] at hdefined
      obtain ⟨block, -, rfl⟩ := hdefined
      exact hsided
  | field =>
      rw [hkind] at hdefined
      obtain ⟨key, value, rfl⟩ := hdefined
      refine hsided.congr ?_
      rw [run_field]
      split
      · rfl
      · split <;> rfl
  | getter =>
      rw [hkind] at hdefined
      obtain ⟨key, getter, setter, -, hsetter, rfl⟩ := hdefined
      exact hsided.defineAccessor (.inr (hhold.missing _ hsetter))
  | setter =>
      rw [hkind] at hdefined
      obtain ⟨key, getter, setter, hgetter, -, rfl⟩ := hdefined
      exact hsided.defineAccessor (.inl (hhold.missing _ hgetter))
  | method =>
      rw [hkind] at hdefined
      obtain ⟨key, method, hcreated, rfl⟩ := hdefined
      obtain ⟨function, hfunction⟩ := Option.ne_none_iff_exists'.mp (hhold.created _ hcreated)
      refine hsided.congr ?_
      rw [run_method hfunction]
      split <;> rfl

def OnClass (registers : Registers Value Function) (definition : ClassMember × ClassCall) : Prop :=
  ∀ layout : ClassLayout Value Function,
    instanceSide (definition.2.run registers layout) = instanceSide layout ∧
      registers.memberKey definition ∈ (definition.2.run registers layout).staticFields

theorem insert_ne_empty {α : Type*} (key : String) (value : α) :
    (∅ : PropertyMap α).insert key value ≠ ∅ := by
  intro heq
  have hlookup := congrArg (AList.lookup key) heq
  rw [AList.lookup_insert, AList.lookup_empty] at hlookup
  exact absurd hlookup (Option.some_ne_none _)

theorem onClass_iff (hhold : registers.Hold code) (hmem : definition ∈ code.definitions)
    (hkeyed : definition.1.kind.isKeyed = true) (hstatic : definition.1.isStatic = true) :
    OnClass registers definition ↔
      definition.1.kind = .field ∧ definition.1.isPrivate = false := by
  have hdefined := code.definedBy hmem
  rw [OnClass, ← hhold.key_eq hmem hkeyed]
  obtain ⟨member, call⟩ := definition
  rw [DefinedBy] at hdefined
  dsimp only at hdefined hkeyed hstatic ⊢
  let fresh : ClassLayout Value Function := .newClass 0 ""
  cases hkind : member.kind with
  | constructor | staticBlock =>
      rw [hkind] at hkeyed
      cases hkeyed
  | field =>
      rw [hkind] at hdefined
      obtain ⟨key, value, rfl⟩ := hdefined
      simp only [run_field, hstatic]
      cases member.isPrivate with
      | true =>
          refine iff_of_false (fun honclass => ?_) (by simp)
          exact insert_ne_empty _ _ (congrArg InstanceSide.privateFields (honclass fresh).1)
      | false =>
          refine iff_of_true (fun layout => ⟨rfl, ?_⟩) (by simp)
          exact (AList.mem_insert _).mpr (.inl rfl)
  | getter | setter =>
      rw [hkind] at hdefined
      obtain ⟨key, getter, setter, -, -, rfl⟩ := hdefined
      refine iff_of_false (fun honclass => ?_) (by simp)
      exact insert_ne_empty _ _ (congrArg InstanceSide.accessors (honclass fresh).1)
  | method =>
      rw [hkind] at hdefined
      obtain ⟨key, method, hcreated, rfl⟩ := hdefined
      obtain ⟨function, hfunction⟩ := Option.ne_none_iff_exists'.mp (hhold.created _ hcreated)
      refine iff_of_false (fun honclass => ?_) (by simp)
      have hsame := (honclass fresh).1
      rw [run_method hfunction] at hsame
      cases hprivate : member.isPrivate with
      | true =>
          rw [hprivate, if_pos rfl] at hsame
          exact insert_ne_empty _ _ (congrArg InstanceSide.privateMethods hsame)
      | false =>
          rw [hprivate, if_neg Bool.false_ne_true] at hsame
          exact insert_ne_empty _ _ (congrArg InstanceSide.methods hsame)

end Run

structure AccessorPair (registers : Registers Value Function) (getter setter : ClassMember × ClassCall) :
    Prop where
  kinds : getter.1.kind = .getter ∧ setter.1.kind = .setter
  instances : getter.1.isStatic = false ∧ setter.1.isStatic = false
  privacy : getter.1.isPrivate = setter.1.isPrivate
  key : registers.memberKey getter = registers.memberKey setter

namespace ClassCode

variable (code : ClassCode) (registers : Registers Value Function) (address : Nat)

def built : ClassLayout Value Function := runCalls registers code.calls (.newClass address code.name)

def AccessorsCoexist : Prop :=
  ∀ getter ∈ code.definitions, ∀ setter ∈ code.definitions, AccessorPair registers getter setter →
    ∃ get set, (code.built registers address).accessors.lookup (registers.memberKey getter) =
      some ⟨some get, some set⟩

def StaticsOnClass : Prop :=
  ∀ definition ∈ code.definitions, definition.1.kind.isKeyed = true → definition.1.isStatic = true →
    OnClass registers definition

variable {code registers address}

theorem built_oneSided (hhold : registers.Hold code) : OneSided (code.built registers address) := by
  have hrun : ∀ (definitions : List (ClassMember × ClassCall)) (layout : ClassLayout Value Function),
      definitions ⊆ code.definitions → OneSided layout →
        OneSided (runCalls registers (definitions.map Prod.snd) layout) := by
    intro definitions
    induction definitions with
    | nil => exact fun _ _ hsided => hsided
    | cons definition rest ih =>
        intro layout hsub hsided
        obtain ⟨hmem, hrest⟩ := List.cons_subset.mp hsub
        exact ih _ hrest (hsided.run hhold hmem)
  have hfresh : OneSided (.newClass address code.name : ClassLayout Value Function) :=
    fun _ _ hlookup => absurd hlookup (Option.some_ne_none _).symm
  have hmembers := hrun code.definitions _ (List.Subset.refl _) hfresh
  rw [built, code.calls_eq.1, runCalls, List.foldl_append]
  refine hmembers.congr ?_
  rw [List.foldl_cons, List.foldl_nil]
  show (ClassLayout.runStaticBlocks _).1.accessors = _
  rw [ClassLayout.runStaticBlocks]
  split <;> rfl

theorem accessorsCoexist_iff (hhold : registers.Hold code) :
    code.AccessorsCoexist registers address ↔ ∀ getter ∈ code.definitions, ∀ setter ∈ code.definitions,
      ¬ AccessorPair registers getter setter := by
  constructor
  · intro hcoexist getter hgetter setter hsetter hpair
    obtain ⟨get, set, hlookup⟩ := hcoexist getter hgetter setter hsetter hpair
    rcases built_oneSided hhold _ _ hlookup with hmissing | hmissing <;> cases hmissing
  · exact fun hapart getter hgetter setter hsetter hpair =>
      absurd hpair (hapart getter hgetter setter hsetter)

theorem staticsOnClass_iff (hhold : registers.Hold code) :
    code.StaticsOnClass registers ↔ ∀ definition ∈ code.definitions,
      definition.1.kind.isKeyed = true → definition.1.isStatic = true →
        definition.1.kind = .field ∧ definition.1.isPrivate = false := by
  refine forall_congr' fun definition => ?_
  refine forall_congr' fun hmem => forall_congr' fun hkeyed => forall_congr' fun hstatic => ?_
  exact onClass_iff hhold hmem hkeyed hstatic

end ClassCode

end Backend

end Jayess
