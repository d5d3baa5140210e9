import Jayess.Lowering.Unguarded

/-!
# Identities
-/

namespace Jayess.Lowering

def Issued (log : List ℕ) (identity : Identity) : Prop :=
  0 < identity.value ∧ log[identity.value - 1]? = some identity.allocation

variable {log : List ℕ} {scope : ReturnScope} {state : Evaluation} {name : String}

theorem Issued.value_le {identity : Identity} (issued : Issued log identity) :
    identity.value ≤ log.length := by
  obtain ⟨positive, entry⟩ := issued
  obtain ⟨bound, -⟩ := List.getElem?_eq_some_iff.mp entry
  omega

theorem Issued.grown {later : List ℕ} {identity : Identity} (grown : log <+: later)
    (issued : Issued log identity) : Issued later identity := by
  obtain ⟨positive, entry⟩ := issued
  obtain ⟨further, rfl⟩ := grown
  obtain ⟨bound, -⟩ := List.getElem?_eq_some_iff.mp entry
  exact ⟨positive, (List.getElem?_append_left bound).trans entry⟩

theorem issued_next (log : List ℕ) (allocation : ℕ) :
    Issued (log ++ [allocation]) ⟨log.length + 1, allocation⟩ := by
  refine ⟨Nat.succ_pos _, ?_⟩
  change (log ++ [allocation])[log.length + 1 - 1]? = some allocation
  rw [Nat.add_sub_cancel]
  exact List.getElem?_concat_length

/-- Equal numbers come from one allocation. -/
def SameOrigin (first second : Identity) : Prop :=
  first.value = second.value → first.allocation = second.allocation

theorem Issued.sameOrigin {first second : Identity} (hfirst : Issued log first)
    (hsecond : Issued log second) : SameOrigin first second := by
  intro equal
  have entry := hfirst.2
  rw [equal, hsecond.2] at entry
  exact (Option.some.inj entry).symm

/-- Bindings with equal identities are bound to one function or object, and the identity that is
given out next is bound to no name. -/
structure ReturnScope.Distinct (scope : ReturnScope) : Prop where
  functions : ∀ first second left right, scope.funcs first = some left →
    scope.funcs second = some right → SameOrigin left right
  objects : ∀ first second left right, scope.objects first = some left →
    scope.objects second = some right → SameOrigin left right
  next_function : ∀ name identity, scope.funcs name = some identity →
    identity.value ≠ scope.lastFunction + 1
  next_object : ∀ name identity, scope.objects name = some identity →
    identity.value ≠ scope.lastObject + 1

structure Issuance where
  functions : List ℕ
  objects : List ℕ

def Issuance.Grown (issuance later : Issuance) : Prop :=
  issuance.functions <+: later.functions ∧ issuance.objects <+: later.objects

def AllIssued (log : List ℕ) (map : String → Option Identity) : Prop :=
  ∀ name identity, map name = some identity → Issued log identity

structure Recorded (issuance : Issuance) (scope : ReturnScope) : Prop where
  functions : AllIssued issuance.functions scope.funcs
  objects : AllIssued issuance.objects scope.objects

structure Counted (issuance : Issuance) (scope : ReturnScope) : Prop where
  functions : scope.lastFunction = issuance.functions.length
  objects : scope.lastObject = issuance.objects.length

structure Sound (issuance : Issuance) (state : Evaluation) : Prop where
  recorded : Recorded issuance state.scope
  counted : Counted issuance state.scope
  reached : ∀ scope ∈ state.reached, scope.Distinct
  compared : ∀ pair ∈ state.compared, SameOrigin pair.1 pair.2

variable {issuance : Issuance}

theorem Recorded.grown {later : Issuance} (grown : issuance.Grown later)
    (recorded : Recorded issuance scope) : Recorded later scope :=
  ⟨fun name identity h => (recorded.functions name identity h).grown grown.1,
    fun name identity h => (recorded.objects name identity h).grown grown.2⟩

theorem Recorded.distinct (recorded : Recorded issuance scope) (counted : Counted issuance scope) :
    scope.Distinct where
  functions first second left right hleft hright :=
    (recorded.functions first left hleft).sameOrigin (recorded.functions second right hright)
  objects first second left right hleft hright :=
    (recorded.objects first left hleft).sameOrigin (recorded.objects second right hright)
  next_function name identity h := by
    have bound := (recorded.functions name identity h).value_le
    have count := counted.functions
    omega
  next_object name identity h := by
    have bound := (recorded.objects name identity h).value_le
    have count := counted.objects
    omega

theorem Sound.mutated (sound : Sound issuance state) (recorded : Recorded issuance scope)
    (counted : Counted issuance scope) : Sound issuance (state.mutated scope) where
  recorded := recorded
  counted := counted
  reached := by
    intro other h
    rcases List.mem_cons.mp h with rfl | h
    · exact recorded.distinct counted
    · exact sound.reached other h
  compared := sound.compared

theorem Sound.leaving (name : String) (sound : Sound issuance state)
    (recorded : Recorded issuance scope) (counted : Counted issuance scope) :
    Sound issuance (state.leaving name scope) :=
  ⟨recorded, counted, (sound.mutated recorded counted).reached, sound.compared⟩

theorem AllIssued.update {map : String → Option Identity} (issued : AllIssued log map)
    (name : String) {entry : Option Identity}
    (hentry : ∀ identity, entry = some identity → Issued log identity) :
    AllIssued log (Function.update map name entry) := by
  intro other identity h
  by_cases heq : other = name
  · subst heq
    rw [Function.update_self] at h
    exact hentry identity h
  · rw [Function.update_of_ne heq] at h
    exact issued other identity h

theorem AllIssued.clear {map : String → Option Identity} (issued : AllIssued log map)
    (name : String) : AllIssued log (Function.update map name none) :=
  issued.update name fun _ h => nomatch h

theorem Recorded.clearBinding (recorded : Recorded issuance scope) (name : String) :
    Recorded issuance (scope.clearBinding name) :=
  ⟨recorded.functions.clear name, recorded.objects.clear name⟩

theorem Counted.clearBinding (counted : Counted issuance scope) (name : String) :
    Counted issuance (scope.clearBinding name) :=
  ⟨counted.functions, counted.objects⟩

theorem Recorded.store (recorded : Recorded issuance scope) (name : String) {value : ReturnValue}
    (functions : ∀ identity, value = .function identity → Issued issuance.functions identity)
    (objects : ∀ identity, value = .object identity → Issued issuance.objects identity) :
    Recorded issuance (scope.store name value) := by
  cases value with
  | function stored =>
    refine ⟨recorded.functions.update name ?_, recorded.objects⟩
    intro identity h
    exact functions identity (congrArg ReturnValue.function (Option.some.inj h))
  | object stored =>
    refine ⟨recorded.functions, recorded.objects.update name ?_⟩
    intro identity h
    exact objects identity (congrArg ReturnValue.object (Option.some.inj h))
  | int | bigInt | bool | string | nullish => exact ⟨recorded.functions, recorded.objects⟩

theorem Recorded.restoreBinding {source target : ReturnScope} (htarget : Recorded issuance target)
    (name : String) (hsource : Recorded issuance source) :
    Recorded issuance (target.restoreBinding name source) :=
  ⟨htarget.functions.update name (hsource.functions name),
    htarget.objects.update name (hsource.objects name)⟩

theorem lastFunction_store (scope : ReturnScope) (name : String) (value : ReturnValue) :
    (scope.store name value).lastFunction = scope.lastFunction := by
  cases value <;> rfl

theorem lastObject_store (scope : ReturnScope) (name : String) (value : ReturnValue) :
    (scope.store name value).lastObject = scope.lastObject := by
  cases value <;> rfl

theorem Counted.store (counted : Counted issuance scope) (name : String) (value : ReturnValue) :
    Counted issuance (scope.store name value) :=
  ⟨(lastFunction_store scope name value).trans counted.functions,
    (lastObject_store scope name value).trans counted.objects⟩

theorem counter_update (sequence : String → Option ℕ) (other : name ≠ "next") (entry : Option ℕ) :
    (Function.update sequence name entry "next").getD 0 = (sequence "next").getD 0 := by
  rw [Function.update_of_ne (Ne.symm other)]

theorem Counted.dropSequences (counted : Counted issuance scope) (other : name ≠ "next") :
    Counted issuance (scope.dropSequences name) :=
  ⟨(counter_update scope.funcSeq other none).trans counted.functions,
    (counter_update scope.objectSeq other none).trans counted.objects⟩

theorem Counted.restoreBinding {target : ReturnScope} (counted : Counted issuance target)
    (source : ReturnScope) (other : name ≠ "next") :
    Counted issuance (target.restoreBinding name source) :=
  ⟨(counter_update target.funcSeq other (source.funcSeq name)).trans counted.functions,
    (counter_update target.objectSeq other (source.objectSeq name)).trans counted.objects⟩

theorem Sound.allocateFunction (sound : Sound issuance state) :
    Sound { issuance with functions := issuance.functions ++ [state.allocations] }
      (allocateFunctionIdentity.outcome state).2 := by
  have grown : issuance.Grown
      { issuance with functions := issuance.functions ++ [state.allocations] } :=
    ⟨List.prefix_append _ _, List.prefix_refl _⟩
  have counted : Counted { issuance with functions := issuance.functions ++ [state.allocations] }
      (allocateFunctionIdentity.outcome state).2.scope := by
    refine ⟨?_, sound.counted.objects⟩
    change (Function.update state.scope.funcSeq functionSequenceKey
      (some (state.scope.lastFunction + 1)) functionSequenceKey).getD 0 = _
    rw [Function.update_self, sound.counted.functions, List.length_append]
    rfl
  have recorded := sound.recorded.grown grown
  have recorded' : Recorded { issuance with functions := issuance.functions ++ [state.allocations] }
      (allocateFunctionIdentity.outcome state).2.scope := ⟨recorded.functions, recorded.objects⟩
  exact ⟨recorded', counted, List.forall_mem_cons.mpr ⟨recorded'.distinct counted, sound.reached⟩,
    sound.compared⟩

theorem Sound.allocateObject (sound : Sound issuance state) :
    Sound { issuance with objects := issuance.objects ++ [state.allocations] }
      (allocateObjectIdentity.outcome state).2 := by
  have grown : issuance.Grown
      { issuance with objects := issuance.objects ++ [state.allocations] } :=
    ⟨List.prefix_refl _, List.prefix_append _ _⟩
  have counted : Counted { issuance with objects := issuance.objects ++ [state.allocations] }
      (allocateObjectIdentity.outcome state).2.scope := by
    refine ⟨sound.counted.functions, ?_⟩
    change (Function.update state.scope.objectSeq objectSequenceKey
      (some (state.scope.lastObject + 1)) objectSequenceKey).getD 0 = _
    rw [Function.update_self, sound.counted.objects, List.length_append]
    rfl
  have recorded := sound.recorded.grown grown
  have recorded' : Recorded { issuance with objects := issuance.objects ++ [state.allocations] }
      (allocateObjectIdentity.outcome state).2.scope := ⟨recorded.functions, recorded.objects⟩
  exact ⟨recorded', counted, List.forall_mem_cons.mpr ⟨recorded'.distinct counted, sound.reached⟩,
    sound.compared⟩

/-! ## Runs -/

/-- What is known of a run: its allocations, or nothing once a binding `next` has left scope. -/
abbrev IssuanceKnown := Option Issuance

namespace IssuanceKnown

def Grows : IssuanceKnown → IssuanceKnown → Prop
  | some issuance, some later => issuance.Grown later
  | none, some _ => False
  | _, none => True

def Holds : IssuanceKnown → Evaluation → Prop
  | some issuance, state => Sound issuance state
  | none, state => "next" ∈ state.left

def Function : IssuanceKnown → Identity → Prop
  | some issuance, identity => Issued issuance.functions identity
  | none, _ => True

def Object : IssuanceKnown → Identity → Prop
  | some issuance, identity => Issued issuance.objects identity
  | none, _ => True

def Snapshot : IssuanceKnown → ReturnScope → Prop
  | some issuance, scope => Recorded issuance scope
  | none, _ => True

theorem grows_none (world : IssuanceKnown) : Grows world none := by
  cases world <;> trivial

theorem grows_refl (world : IssuanceKnown) : Grows world world := by
  cases world with
  | none => trivial
  | some issuance => exact ⟨List.prefix_refl _, List.prefix_refl _⟩

theorem grows_trans {first second third : IssuanceKnown} (grows : Grows first second)
    (grows' : Grows second third) : Grows first third := by
  cases third with
  | none => exact grows_none first
  | some third =>
    cases second with
    | none => exact grows'.elim
    | some second =>
      cases first with
      | none => exact grows.elim
      | some first => exact ⟨grows.1.trans grows'.1, grows.2.trans grows'.2⟩

theorem rollback {world later : IssuanceKnown} {state after : Evaluation}
    (before : Holds world state) (grows : Grows world later) (holds : Holds later after) :
    ∃ last, Grows world last ∧ Holds last (after.rolledBack state.scope) := by
  cases later with
  | none => exact ⟨none, grows_none world, holds⟩
  | some later =>
    cases world with
    | none => exact grows.elim
    | some issuance =>
      exact ⟨some issuance, grows_refl _, before.recorded, before.counted, holds.reached,
        holds.compared⟩

theorem leaving {world : IssuanceKnown} {state : Evaluation} {scope : ReturnScope} (name : String)
    (holds : Holds world state)
    (sound : ∀ issuance, world = some issuance → name ≠ "next" →
      Recorded issuance scope ∧ Counted issuance scope) :
    ∃ later, Grows world later ∧ Holds later (state.leaving name scope) := by
  by_cases hname : name = "next"
  · exact ⟨none, grows_none world, hname ▸ List.mem_cons_self⟩
  · cases world with
    | none => exact ⟨none, trivial, List.mem_cons_of_mem _ holds⟩
    | some issuance =>
      obtain ⟨recorded, counted⟩ := sound issuance rfl hname
      exact ⟨some issuance, grows_refl _, holds.leaving name recorded counted⟩

end IssuanceKnown

/-- The evaluator keeps the account of its allocations. -/
def identityDiscipline : Discipline where
  World := IssuanceKnown
  Grows := IssuanceKnown.Grows
  Holds := IssuanceKnown.Holds
  Function := IssuanceKnown.Function
  Object := IssuanceKnown.Object
  Snapshot := IssuanceKnown.Snapshot
  Guarded _ := False
  refl := IssuanceKnown.grows_refl
  trans := IssuanceKnown.grows_trans
  function_grows := by
    rintro (_ | issuance) (_ | later) identity grows known
    · trivial
    · exact grows.elim
    · trivial
    · exact Issued.grown grows.1 known
  object_grows := by
    rintro (_ | issuance) (_ | later) identity grows known
    · trivial
    · exact grows.elim
    · trivial
    · exact Issued.grown grows.2 known
  snapshot_grows := by
    rintro (_ | issuance) (_ | later) scope grows known
    · trivial
    · exact grows.elim
    · trivial
    · exact Recorded.grown grows known
  rollback := IssuanceKnown.rollback
  current := by
    rintro (_ | issuance) state holds
    · trivial
    · exact holds.recorded
  function_of_snapshot := by
    rintro (_ | issuance) scope name identity known h
    · trivial
    · exact known.functions name identity h
  object_of_snapshot := by
    rintro (_ | issuance) scope name identity known h
    · trivial
    · exact known.objects name identity h
  clear := by
    rintro (_ | issuance) state name - holds
    · exact holds
    · exact Sound.mutated holds (holds.recorded.clearBinding name) (holds.counted.clearBinding name)
  store := by
    rintro (_ | issuance) state name value - holds functions objects
    · exact holds
    · exact Sound.mutated holds ((holds.recorded.clearBinding name).store name functions objects)
        ((holds.counted.clearBinding name).store name value)
  overwrite_int := by
    rintro (_ | issuance) state name value - holds bound
    · exact holds
    · exact Sound.mutated holds ⟨holds.recorded.functions, holds.recorded.objects⟩
        (holds.counted.store name _)
  overwrite_bigInt := by
    rintro (_ | issuance) state name value - holds bound
    · exact holds
    · exact Sound.mutated holds ⟨holds.recorded.functions, holds.recorded.objects⟩
        (holds.counted.store name _)
  allocate_function := by
    rintro (_ | issuance) state holds
    · exact ⟨none, trivial, holds, trivial⟩
    · refine ⟨some { issuance with functions := issuance.functions ++ [state.allocations] },
        ⟨List.prefix_append _ _, List.prefix_refl _⟩, Sound.allocateFunction holds, ?_⟩
      change Issued _ ⟨state.scope.lastFunction + 1, state.allocations⟩
      rw [holds.counted.functions]
      exact issued_next issuance.functions state.allocations
  allocate_object := by
    rintro (_ | issuance) state holds
    · exact ⟨none, trivial, holds, trivial⟩
    · refine ⟨some { issuance with objects := issuance.objects ++ [state.allocations] },
        ⟨List.prefix_refl _, List.prefix_append _ _⟩, Sound.allocateObject holds, ?_⟩
      change Issued _ ⟨state.scope.lastObject + 1, state.allocations⟩
      rw [holds.counted.objects]
      exact issued_next issuance.objects state.allocations
  compare_functions := by
    rintro (_ | issuance) state left right holds hleft hright
    · exact holds
    · exact ⟨holds.recorded, holds.counted, holds.reached,
        List.forall_mem_cons.mpr ⟨Issued.sameOrigin hleft hright, holds.compared⟩⟩
  compare_objects := by
    rintro (_ | issuance) state left right holds hleft hright
    · exact holds
    · exact ⟨holds.recorded, holds.counted, holds.reached,
        List.forall_mem_cons.mpr ⟨Issued.sameOrigin hleft hright, holds.compared⟩⟩

theorem identityDiscipline_unguarded : identityDiscipline.Unguarded where
  free _ := not_false
  hoist := by
    intro world state name holds
    apply IssuanceKnown.leaving name holds
    rintro issuance rfl other
    have cleared : Recorded issuance ((state.scope.clearBinding name).dropSequences name) :=
      ⟨holds.recorded.functions.clear name, holds.recorded.objects.clear name⟩
    exact ⟨⟨cleared.functions, cleared.objects⟩,
      ((holds.counted.clearBinding name).dropSequences other).store name _⟩
  forget := by
    intro world state name holds
    apply IssuanceKnown.leaving name holds
    rintro issuance rfl other
    exact ⟨⟨holds.recorded.functions.clear name, holds.recorded.objects.clear name⟩,
      (holds.counted.clearBinding name).dropSequences other⟩
  restore := by
    intro world state source name holds snapshot
    apply IssuanceKnown.leaving name holds
    rintro issuance rfl other
    exact ⟨holds.recorded.restoreBinding name snapshot, holds.counted.restoreBinding source other⟩

theorem sound_initialEvaluation : Sound ⟨[], []⟩ initialEvaluation := by
  have recorded : Recorded ⟨[], []⟩ ReturnScope.empty :=
    ⟨(fun _ _ h => nomatch h), (fun _ _ h => nomatch h)⟩
  have counted : Counted ⟨[], []⟩ ReturnScope.empty := ⟨rfl, rfl⟩
  refine ⟨recorded, counted, ?_, fun _ h => nomatch h⟩
  intro scope h
  rw [List.mem_singleton.mp h]
  exact recorded.distinct counted

/-- Identities are unique in every run in which no binding `next` leaves scope: in every scope the
run reaches, and in every comparison it makes. -/
theorem identities_distinct (host : Host) (depth : ℕ) (program : List Statement)
    (stays : "next" ∉ (mainReturnCode host depth program).2.left) :
    (∀ scope ∈ (mainReturnCode host depth program).2.reached, scope.Distinct) ∧
      ∀ pair ∈ (mainReturnCode host depth program).2.compared, SameOrigin pair.1 pair.2 := by
  have before : identityDiscipline.Holds (some ⟨[], []⟩) initialEvaluation := sound_initialEvaluation
  obtain ⟨later, holds⟩ := Discipline.holds_mainReturnCode identityDiscipline_unguarded.scopes host depth
    program before
  cases later with
  | none => exact absurd holds stays
  | some issuance => exact ⟨holds.reached, holds.compared⟩

instance (first second : Identity) : Decidable (SameOrigin first second) :=
  inferInstanceAs (Decidable (first.value = second.value → first.allocation = second.allocation))

/-- `function main() { var a = null; try { throw null; } catch (name) { a = {}; } var b = {};
if (a === b) { return; } throw null; }` -/
def catchBinding (name : String) : List Statement :=
  let pos : SourcePos := ⟨0, 0⟩
  [.functionDecl pos "main" [] [
    .variableDecl pos .var "a" none (some (.nullLiteral pos)),
    .tryStatement pos [.throwStatement pos (.nullLiteral pos)] (some (.name name))
      [.assignment pos (identifierOf "a") .assign (.objectLiteral pos [])] [],
    .variableDecl pos .var "b" none (some (.objectLiteral pos [])),
    .ifStatement pos (.comparison pos .strictEq (identifierOf "a") (identifierOf "b"))
      [.returnStatement pos none] [],
    .throwStatement pos (.nullLiteral pos)]]

/-- The program has no numbers, spaces or accessors for a host to read. -/
def plainHost : Host where
  trimSpace text := text
  parseFloat _ := none
  runes _ := []
  power _ _ := .nan
  outOfRange _ := 0
  isAccessor _ := false

theorem identities_distinct_catch_other :
    "next" ∉ (mainReturnCode plainHost 8 (catchBinding "other")).2.left ∧
      (∀ scope ∈ (mainReturnCode plainHost 8 (catchBinding "other")).2.reached, scope.Distinct) ∧
      ∀ pair ∈ (mainReturnCode plainHost 8 (catchBinding "other")).2.compared,
        SameOrigin pair.1 pair.2 := by
  have stays : "next" ∉ (mainReturnCode plainHost 8 (catchBinding "other")).2.left := by
    decide +kernel
  exact ⟨stays, identities_distinct plainHost 8 (catchBinding "other") stays⟩

/-- With the catch binding `next` the second object gets the number of the first, and the
comparison of the two folds to true. -/
theorem catch_next_repeats_identity :
    (mainReturnCode plainHost 8 (catchBinding "next")).1 = some 0 ∧
      (∃ scope ∈ (mainReturnCode plainHost 8 (catchBinding "next")).2.reached, ¬scope.Distinct) ∧
      ∃ pair ∈ (mainReturnCode plainHost 8 (catchBinding "next")).2.compared,
        ¬SameOrigin pair.1 pair.2 := by
  refine ⟨by decide +kernel, ?_, by decide +kernel⟩
  have bound : ∃ scope ∈ (mainReturnCode plainHost 8 (catchBinding "next")).2.reached,
      scope.objects "a" = some ⟨1, 0⟩ ∧ scope.objects "b" = some ⟨1, 1⟩ := by decide +kernel
  obtain ⟨scope, reached, ha, hb⟩ := bound
  refine ⟨scope, reached, ?_⟩
  intro distinct
  exact absurd (distinct.objects "a" "b" _ _ ha hb rfl) (by decide)

end Jayess.Lowering
