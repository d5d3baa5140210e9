import Jayess.Lowering.ReturnStatements

/-!
# Invariants of runs of the evaluator

What an invariant of a run has to do with the evaluator is what single mutations of a scope do to
it.
-/

namespace Jayess.Lowering

def Evaluation.mutated (state : Evaluation) (scope : ReturnScope) : Evaluation :=
  { state with scope := scope, reached := scope :: state.reached }

def Evaluation.leaving (state : Evaluation) (name : String) (scope : ReturnScope) : Evaluation :=
  { state.mutated scope with left := name :: state.left }

def Evaluation.rolledBack (state : Evaluation) (scope : ReturnScope) : Evaluation :=
  { state with scope := scope }

structure Discipline where
  World : Type
  Grows : World → World → Prop
  Holds : World → Evaluation → Prop
  Function : World → Identity → Prop
  Object : World → Identity → Prop
  Snapshot : World → ReturnScope → Prop
  Guarded : String → Prop
  refl : ∀ world, Grows world world
  trans : ∀ {first second third}, Grows first second → Grows second third → Grows first third
  function_grows : ∀ {world later identity},
    Grows world later → Function world identity → Function later identity
  object_grows : ∀ {world later identity},
    Grows world later → Object world identity → Object later identity
  snapshot_grows : ∀ {world later scope},
    Grows world later → Snapshot world scope → Snapshot later scope
  rollback : ∀ {world later state after}, Holds world state → Grows world later →
    Holds later after → ∃ last, Grows world last ∧ Holds last (after.rolledBack state.scope)
  current : ∀ {world state}, Holds world state → Snapshot world state.scope
  function_of_snapshot : ∀ {world scope name identity},
    Snapshot world scope → scope.funcs name = some identity → Function world identity
  object_of_snapshot : ∀ {world scope name identity},
    Snapshot world scope → scope.objects name = some identity → Object world identity
  clear : ∀ {world state} name, ¬Guarded name → Holds world state →
    Holds world (state.mutated (state.scope.clearBinding name))
  store : ∀ {world state} name value, ¬Guarded name → Holds world state →
    (∀ identity, value = .function identity → Function world identity) →
    (∀ identity, value = .object identity → Object world identity) →
    Holds world (state.mutated ((state.scope.clearBinding name).store name value))
  overwrite_int : ∀ {world state} name value, ¬Guarded name → Holds world state →
    (state.scope.ints name).isSome → Holds world (state.mutated (state.scope.store name (.int value)))
  overwrite_bigInt : ∀ {world state} name value, ¬Guarded name → Holds world state →
    (state.scope.bigints name).isSome →
    Holds world (state.mutated (state.scope.store name (.bigInt value)))
  allocate_function : ∀ {world state}, Holds world state → ∃ later, Grows world later ∧
    Holds later (allocateFunctionIdentity.outcome state).2 ∧
    Function later ⟨state.scope.lastFunction + 1, state.allocations⟩
  allocate_object : ∀ {world state}, Holds world state → ∃ later, Grows world later ∧
    Holds later (allocateObjectIdentity.outcome state).2 ∧
    Object later ⟨state.scope.lastObject + 1, state.allocations⟩
  compare_functions : ∀ {world state left right}, Holds world state → Function world left →
    Function world right → Holds world { state with compared := (left, right) :: state.compared }
  compare_objects : ∀ {world state left right}, Holds world state → Object world left →
    Object world right → Holds world { state with compared := (left, right) :: state.compared }

namespace Discipline

variable {α β : Type} (D : Discipline)

/-- Every outcome leaves a state that holds in a grown world, and a result is as stated there. -/
def Keeps (world : D.World) (m : Eval α) (result : D.World → α → Prop) : Prop :=
  ∀ state, D.Holds world state → ∃ later, D.Grows world later ∧
    D.Holds later (m.outcome state).2 ∧
    ∀ value, (m.outcome state).1 = some value → result later value

def Any (_ : D.World) (_ : α) : Prop := True

def Value (world : D.World) (value : ReturnValue) : Prop :=
  (∀ identity, value = .function identity → D.Function world identity) ∧
    ∀ identity, value = .object identity → D.Object world identity

def Elements (world : D.World) (elements : List ReturnValue) : Prop :=
  ∀ element ∈ elements, D.Value world element

def Properties (world : D.World) (properties : GoString → Option ReturnValue) : Prop :=
  ∀ key value, properties key = some value → D.Value world value

variable {D}

theorem value_grows {world later : D.World} {value : ReturnValue} (grows : D.Grows world later)
    (known : D.Value world value) : D.Value later value :=
  ⟨fun identity h => D.function_grows grows (known.1 identity h),
    fun identity h => D.object_grows grows (known.2 identity h)⟩

theorem elements_grow {world later : D.World} {elements : List ReturnValue}
    (grows : D.Grows world later) (known : D.Elements world elements) : D.Elements later elements :=
  fun element h => value_grows grows (known element h)

theorem properties_grow {world later : D.World} {properties : GoString → Option ReturnValue}
    (grows : D.Grows world later) (known : D.Properties world properties) :
    D.Properties later properties :=
  fun key value h => value_grows grows (known key value h)

namespace Keeps

variable {world : D.World} {m n : Eval α} {result result' : D.World → α → Prop}
  {result₂ : D.World → β → Prop}

theorem pure {value : α} (known : result world value) :
    D.Keeps world (Pure.pure value : Eval α) result := by
  intro state holds
  refine ⟨world, D.refl world, holds, ?_⟩
  intro other h
  obtain rfl : value = other := Option.some.inj h
  exact known

theorem failure : D.Keeps world (Alternative.failure : Eval α) result := by
  intro state holds
  exact ⟨world, D.refl world, holds, fun _ h => nomatch h⟩

theorem bind {f : α → Eval β} (first : D.Keeps world m result)
    (next : ∀ later value, D.Grows world later → result later value →
      D.Keeps later (f value) result₂) : D.Keeps world (m >>= f) result₂ := by
  intro state holds
  obtain ⟨later, grows, after, known⟩ := first state holds
  rw [Eval.outcome_bind]
  rcases hm : m.outcome state with ⟨_ | value, middle⟩
  · rw [hm] at after
    exact ⟨later, grows, after, fun _ h => nomatch h⟩
  · rw [hm] at after known
    obtain ⟨last, grows', final, known'⟩ := next later value grows (known value rfl) middle after
    exact ⟨last, D.trans grows grows', final, known'⟩

theorem orElse (first : D.Keeps world m result) (second : ∀ {world}, D.Keeps world n result) :
    D.Keeps world (m <|> n) result := by
  intro state holds
  obtain ⟨later, grows, after, known⟩ := first state holds
  rw [Eval.outcome_orElse]
  rcases hm : m.outcome state with ⟨_ | value, middle⟩
  · rw [hm] at after
    obtain ⟨last, grows', final, known'⟩ := second middle after
    exact ⟨last, D.trans grows grows', final, known'⟩
  · rw [hm] at after known
    exact ⟨later, grows, after, known⟩

theorem any (first : D.Keeps world m result) : D.Keeps world m D.Any := by
  intro state holds
  obtain ⟨later, grows, after, -⟩ := first state holds
  exact ⟨later, grows, after, fun _ _ => trivial⟩

theorem bindAny {f : α → Eval β} (first : D.Keeps world m result)
    (next : ∀ {world} value, D.Keeps world (f value) result₂) : D.Keeps world (m >>= f) result₂ :=
  first.bind fun _ value _ _ => next value

theorem andThen {n : Eval β} (first : D.Keeps world m result) (second : ∀ {world}, D.Keeps world n result₂) :
    D.Keeps world (m >>= fun _ => n) result₂ :=
  first.bindAny fun _ => second

theorem pureAny (value : α) : D.Keeps world (Pure.pure value : Eval α) D.Any := pure trivial

theorem map {f : α → β} (first : D.Keeps world m result) :
    D.Keeps world (m >>= fun value => Pure.pure (f value)) D.Any :=
  first.bindAny fun _ => pureAny _

theorem attempt (first : D.Keeps world m result) :
    D.Keeps world m.attempt fun later outcome =>
      ∀ value, outcome = some value → result later value := by
  intro state holds
  obtain ⟨later, grows, after, known⟩ := first state holds
  refine ⟨later, grows, after, ?_⟩
  intro outcome h value hvalue
  apply known
  rw [← hvalue]
  exact Option.some.inj h

theorem isolate (first : D.Keeps world m D.Any) : D.Keeps world m.isolate D.Any := by
  intro state holds
  obtain ⟨later, grows, after, _⟩ := first state holds
  obtain ⟨last, grows, final⟩ := D.rollback holds grows after
  exact ⟨last, grows, final, fun _ _ => trivial⟩

theorem outcomeFrom {origin : D.World} {start : Evaluation}
    (before : D.Holds origin start) (earlier : D.Grows origin world)
    (first : D.Keeps world m result) (state : Evaluation) (holds : D.Holds world state) :
    ∃ later, D.Grows origin later ∧ D.Holds later (m.outcomeFrom start.scope state).2 ∧
      ∀ value, (m.outcomeFrom start.scope state).1 = some value → result later value := by
  obtain ⟨later, grows, after, known⟩ := first state holds
  unfold Eval.outcomeFrom
  rcases hm : m.outcome state with ⟨_ | value, final⟩
  · rw [hm] at after
    obtain ⟨last, grows, final⟩ := D.rollback before (D.trans earlier grows) after
    exact ⟨last, grows, final, fun _ h => nomatch h⟩
  · rw [hm] at after known
    exact ⟨later, D.trans earlier grows, after, known⟩

theorem probe (first : D.Keeps world m result) : D.Keeps world m.probe result := by
  intro state holds
  exact first.outcomeFrom holds (D.refl world) state holds

theorem probing {test : Eval β} {succeeded : β → Eval α} {failed : Eval α}
    (first : D.Keeps world test result₂)
    (next : ∀ {later} value, result₂ later value → D.Keeps later (succeeded value) result)
    (other : ∀ {later}, D.Keeps later failed result) :
    D.Keeps world (Eval.probing test succeeded failed) result := by
  intro state holds
  obtain ⟨later, grows, after, known⟩ := first state holds
  rcases hm : test.outcome state with ⟨_ | value, middle⟩
  · rw [hm] at after
    obtain ⟨last, grows, rolledBack⟩ := D.rollback holds grows after
    obtain ⟨final, grows', after', known⟩ := other _ rolledBack
    rw [Eval.outcome_probing_none succeeded failed hm]
    exact ⟨final, D.trans grows grows', after', known⟩
  · rw [hm] at after known
    rw [Eval.outcome_probing_some succeeded failed hm]
    exact (next value (known value rfl)).outcomeFrom holds grows middle after

theorem onClone {m : Eval (Bool × α)} (first : D.Keeps world m D.Any) :
    D.Keeps world (Eval.onClone m) D.Any := by
  intro state holds
  obtain ⟨later, grows, after, _⟩ := first state holds
  rcases hm : m.outcome state with ⟨_ | ⟨_ | _, value⟩, final⟩
  · rw [hm] at after
    obtain ⟨last, grows, final⟩ := D.rollback holds grows after
    rw [Eval.outcome_onClone_none hm]
    exact ⟨last, grows, final, fun _ _ => trivial⟩
  · rw [hm] at after
    obtain ⟨last, grows, final⟩ := D.rollback holds grows after
    rw [Eval.outcome_onClone_dropped hm]
    exact ⟨last, grows, final, fun _ _ => trivial⟩
  · rw [hm] at after
    rw [Eval.outcome_onClone_kept hm]
    exact ⟨later, grows, after, fun _ _ => trivial⟩

theorem scope : D.Keeps world Eval.scope D.Snapshot := by
  intro state holds
  refine ⟨world, D.refl world, holds, ?_⟩
  intro value h
  obtain rfl : state.scope = value := Option.some.inj h
  exact D.current holds

theorem ofOption {option : Option α} (known : ∀ value, option = some value → result world value) :
    D.Keeps world (Eval.ofOption option) result := by
  cases option with
  | none => exact failure
  | some value => exact pure (known value rfl)

theorem ofOptionAny (option : Option α) : D.Keeps world (Eval.ofOption option) D.Any :=
  ofOption fun _ _ => trivial

theorem attempting {next : Option α → Eval β} (first : D.Keeps world m result)
    (failed : ∀ {world}, D.Keeps world (next none) result₂)
    (succeeded : ∀ {world} value, result world value → D.Keeps world (next (some value)) result₂) :
    D.Keeps world (Eval.attempt m >>= next) result₂ := by
  apply first.attempt.bind
  intro later value _ known
  cases value with
  | none => exact failed
  | some value => exact succeeded value (known value rfl)

theorem succeeds (first : D.Keeps world m result) : D.Keeps world (Eval.succeeds m) D.Any := first.attempt.map

theorem assign {name : String} {value : ReturnValue} (hfree : ¬D.Guarded name) (known : D.Value world value) :
    D.Keeps world (Lowering.assign name value) D.Any := by
  intro state holds
  exact ⟨world, D.refl world, D.store name value hfree holds known.1 known.2, fun _ _ => trivial⟩

theorem allocateFunction : D.Keeps world allocateFunctionIdentity D.Function := by
  intro state holds
  obtain ⟨later, grows, after, known⟩ := D.allocate_function holds
  refine ⟨later, grows, after, ?_⟩
  intro identity h
  rw [← Option.some.inj h]
  exact known

theorem allocateObject : D.Keeps world allocateObjectIdentity D.Object := by
  intro state holds
  obtain ⟨later, grows, after, known⟩ := D.allocate_object holds
  refine ⟨later, grows, after, ?_⟩
  intro identity h
  rw [← Option.some.inj h]
  exact known

theorem compareFunctions {left right : Identity} (hleft : D.Function world left)
    (hright : D.Function world right) : D.Keeps world (sameIdentity left right) D.Any := by
  intro state holds
  exact ⟨world, D.refl world, D.compare_functions holds hleft hright, fun _ _ => trivial⟩

theorem compareObjects {left right : Identity} (hleft : D.Object world left)
    (hright : D.Object world right) : D.Keeps world (sameIdentity left right) D.Any := by
  intro state holds
  exact ⟨world, D.refl world, D.compare_objects holds hleft hright, fun _ _ => trivial⟩

end Keeps

end Discipline

end Jayess.Lowering
