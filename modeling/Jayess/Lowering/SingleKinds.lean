import Jayess.Lowering.Unguarded

/-!
# One kind for each name
-/

namespace Jayess.Lowering

namespace ReturnScope

/-- The map of the value's kind binds the name to it. -/
def Binds (scope : ReturnScope) (name : String) : ReturnValue → Prop
  | .int value => scope.ints name = some value
  | .bigInt value => scope.bigints name = some value
  | .bool value => scope.bools name = some value
  | .string value => scope.strings name = some value
  | .nullish kind => scope.nullish name = some kind
  | .function identity => scope.funcs name = some identity
  | .object identity => scope.objects name = some identity

/-- No name is bound to two values, of one kind or of two. -/
def Single (scope : ReturnScope) : Prop :=
  ∀ name first second, scope.Binds name first → scope.Binds name second → first = second

variable {scope source : ReturnScope} {name other : String} {value found : ReturnValue}

theorem single_empty : empty.Single := by
  intro name first second hfirst
  cases first <;> cases hfirst

theorem not_binds_clearBinding : ¬(scope.clearBinding name).Binds name found := by
  cases found <;> simp [Binds, clearBinding]

theorem binds_clearBinding_iff (hne : other ≠ name) :
    (scope.clearBinding name).Binds other found ↔ scope.Binds other found := by
  cases found <;> simp [Binds, clearBinding, hne]

theorem binds_store_iff (hne : other ≠ name) :
    (scope.store name value).Binds other found ↔ scope.Binds other found := by
  cases value <;> cases found <;> simp [Binds, store, hne]

theorem eq_or_binds_of_store (hbinds : (scope.store name value).Binds name found) :
    found = value ∨ (found.ctorIdx ≠ value.ctorIdx ∧ scope.Binds name found) := by
  cases value <;> cases found <;>
    simp only [Binds, store, Function.update_self, Option.some.injEq] at hbinds <;>
    first
      | exact .inl (hbinds ▸ rfl)
      | exact .inr ⟨by simp [ReturnValue.ctorIdx], hbinds⟩

theorem binds_restoreBinding_self :
    (scope.restoreBinding name source).Binds name found ↔ source.Binds name found := by
  cases found <;> simp [Binds, restoreBinding]

theorem binds_restoreBinding_iff (hne : other ≠ name) :
    (scope.restoreBinding name source).Binds other found ↔ scope.Binds other found := by
  cases found <;> simp [Binds, restoreBinding, hne]

namespace Single

theorem sequences (single : scope.Single) (functions objects : String → Option ℕ) :
    { scope with funcSeq := functions, objectSeq := objects }.Single := by
  have hsame : ∀ name found, { scope with funcSeq := functions, objectSeq := objects }.Binds name found ↔
      scope.Binds name found := by
    intro name found
    cases found <;> exact Iff.rfl
  intro name first second hfirst hsecond
  exact single name first second ((hsame name first).mp hfirst) ((hsame name second).mp hsecond)

theorem clearBinding (single : scope.Single) (name : String) : (scope.clearBinding name).Single := by
  intro other first second hfirst hsecond
  by_cases heq : other = name
  · subst heq
    exact absurd hfirst not_binds_clearBinding
  · exact single other first second ((binds_clearBinding_iff heq).mp hfirst) ((binds_clearBinding_iff heq).mp hsecond)

theorem store (single : scope.Single) (hkind : ∀ found, scope.Binds name found → found.ctorIdx = value.ctorIdx) :
    (scope.store name value).Single := by
  have hself : ∀ found, (scope.store name value).Binds name found → found = value := by
    intro found hbinds
    obtain heq | ⟨hother, hbefore⟩ := eq_or_binds_of_store hbinds
    · exact heq
    · exact absurd (hkind found hbefore) hother
  intro other first second hfirst hsecond
  by_cases heq : other = name
  · subst heq
    rw [hself first hfirst, hself second hsecond]
  · exact single other first second ((binds_store_iff heq).mp hfirst) ((binds_store_iff heq).mp hsecond)

theorem assign (single : scope.Single) (name : String) (value : ReturnValue) :
    ((scope.clearBinding name).store name value).Single :=
  (single.clearBinding name).store fun _ hbinds => absurd hbinds not_binds_clearBinding

theorem overwrite (single : scope.Single) {old : ReturnValue} (hbinds : scope.Binds name old)
    (hkind : old.ctorIdx = value.ctorIdx) : (scope.store name value).Single :=
  single.store fun found hfound => single name found old hfound hbinds ▸ hkind

theorem restoreBinding (single : scope.Single) (hsource : source.Single) (name : String) :
    (scope.restoreBinding name source).Single := by
  intro other first second hfirst hsecond
  by_cases heq : other = name
  · subst heq
    exact hsource other first second (binds_restoreBinding_self.mp hfirst) (binds_restoreBinding_self.mp hsecond)
  · exact single other first second ((binds_restoreBinding_iff heq).mp hfirst)
      ((binds_restoreBinding_iff heq).mp hsecond)

end Single

end ReturnScope

/-- The scope at hand and every scope reached before it. -/
structure Evaluation.Single (state : Evaluation) : Prop where
  scope : state.scope.Single
  reached : ∀ scope ∈ state.reached, scope.Single

theorem Evaluation.Single.reach {state after : Evaluation} (single : state.Single) (hscope : after.scope.Single)
    (hreached : after.reached = after.scope :: state.reached) : after.Single :=
  ⟨hscope, hreached ▸ List.forall_mem_cons.mpr ⟨hscope, single.reached⟩⟩

/-- There is nothing to remember of a run. -/
def singleDiscipline : Discipline where
  World := Unit
  Grows _ _ := True
  Holds _ state := state.Single
  Function _ _ := True
  Object _ _ := True
  Snapshot _ scope := scope.Single
  Guarded _ := False
  refl _ := trivial
  trans _ _ := trivial
  function_grows _ _ := trivial
  object_grows _ _ := trivial
  snapshot_grows _ known := known
  rollback before _ holds := ⟨(), trivial, before.scope, holds.reached⟩
  current holds := holds.scope
  function_of_snapshot _ _ := trivial
  object_of_snapshot _ _ := trivial
  clear name _ holds := holds.reach (holds.scope.clearBinding name) rfl
  store name value _ holds _ _ := holds.reach (holds.scope.assign name value) rfl
  overwrite_int name value _ holds hbound := by
    obtain ⟨old, hold⟩ := Option.isSome_iff_exists.mp hbound
    exact holds.reach (@ReturnScope.Single.overwrite _ _ (.int value) holds.scope (.int old) hold rfl) rfl
  overwrite_bigInt name value _ holds hbound := by
    obtain ⟨old, hold⟩ := Option.isSome_iff_exists.mp hbound
    exact holds.reach (@ReturnScope.Single.overwrite _ _ (.bigInt value) holds.scope (.bigInt old) hold rfl) rfl
  allocate_function holds := ⟨(), trivial, holds.reach (holds.scope.sequences _ _) rfl, trivial⟩
  allocate_object holds := ⟨(), trivial, holds.reach (holds.scope.sequences _ _) rfl, trivial⟩
  compare_functions holds _ _ := ⟨holds.scope, holds.reached⟩
  compare_objects holds _ _ := ⟨holds.scope, holds.reached⟩

theorem singleDiscipline_unguarded : singleDiscipline.Unguarded where
  free _ := not_false
  hoist name holds :=
    ⟨(), trivial, holds.reach ((holds.scope.assign name (.nullish .undefined)).sequences _ _) rfl⟩
  forget name holds := ⟨(), trivial, holds.reach ((holds.scope.clearBinding name).sequences _ _) rfl⟩
  restore name holds source := ⟨(), trivial, holds.reach (holds.scope.restoreBinding source name) rfl⟩

theorem single_initialEvaluation : initialEvaluation.Single :=
  ⟨ReturnScope.single_empty, fun _ hmem => List.mem_singleton.mp hmem ▸ ReturnScope.single_empty⟩

/-- Every step of the evaluator keeps names bound to one value, and so in every scope that a run reaches they
are. -/
theorem scopes_single (host : Host) (depth : ℕ) :
    singleDiscipline.Keeping (evaluators host depth) ∧ ∀ program : List Statement,
      (mainReturnCode host depth program).2.Single := by
  have hkeeping : singleDiscipline.Keeping (evaluators host depth) :=
    Discipline.keeping_evaluators singleDiscipline_unguarded.scopes host depth
  refine ⟨hkeeping, fun program => ?_⟩
  have hbefore : singleDiscipline.Holds () initialEvaluation := single_initialEvaluation
  obtain ⟨later, hholds⟩ := Discipline.holds_mainReturnCode singleDiscipline_unguarded.scopes host depth
    program hbefore
  exact hholds

end Jayess.Lowering
