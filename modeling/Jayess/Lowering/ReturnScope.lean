import Jayess.Lowering.IntOps
import Jayess.Template.TemplateString

/-!
# The scopes of the return evaluator

`MainReturnCode` folds a program by running it on scopes: maps from names to the values known for
them.
-/

namespace Jayess.Lowering

abbrev GoString := List UInt8

def goString (text : String) : GoString := text.toList.flatMap String.utf8EncodeChar

inductive ReturnNullishKind where
  | null
  | undefined
deriving DecidableEq

/-- The identity of a function or object. Which allocation it comes from is not part of the
evaluator's state: the evaluator compares values. -/
structure Identity where
  value : ℕ
  allocation : ℕ
deriving DecidableEq

/-- A value of one of the seven kinds (`returnArrayElement`). -/
inductive ReturnValue where
  | int (value : Int64)
  | bigInt (value : GoString)
  | bool (value : Bool)
  | string (value : GoString)
  | nullish (kind : ReturnNullishKind)
  | function (identity : Identity)
  | object (identity : Identity)

/-- One map for each kind of value, and the sequence numbers of the identities. -/
structure ReturnScope where
  ints : String → Option Int64
  bigints : String → Option GoString
  bools : String → Option Bool
  strings : String → Option GoString
  nullish : String → Option ReturnNullishKind
  funcs : String → Option Identity
  funcSeq : String → Option ℕ
  objects : String → Option Identity
  objectSeq : String → Option ℕ

def functionSequenceKey : String := "next"

def objectSequenceKey : String := "next"

namespace ReturnScope

def empty : ReturnScope where
  ints _ := none
  bigints _ := none
  bools _ := none
  strings _ := none
  nullish _ := none
  funcs _ := none
  funcSeq _ := none
  objects _ := none
  objectSeq _ := none

/-- `clearReturnScopeBinding`. -/
def clearBinding (scope : ReturnScope) (name : String) : ReturnScope :=
  { scope with
    ints := Function.update scope.ints name none
    bigints := Function.update scope.bigints name none
    bools := Function.update scope.bools name none
    strings := Function.update scope.strings name none
    nullish := Function.update scope.nullish name none
    funcs := Function.update scope.funcs name none
    objects := Function.update scope.objects name none }

/-- A store into the map of the value's kind. -/
def store (scope : ReturnScope) (name : String) : ReturnValue → ReturnScope
  | .int value => { scope with ints := Function.update scope.ints name (some value) }
  | .bigInt value => { scope with bigints := Function.update scope.bigints name (some value) }
  | .bool value => { scope with bools := Function.update scope.bools name (some value) }
  | .string value => { scope with strings := Function.update scope.strings name (some value) }
  | .nullish kind => { scope with nullish := Function.update scope.nullish name (some kind) }
  | .function identity => { scope with funcs := Function.update scope.funcs name (some identity) }
  | .object identity =>
      { scope with objects := Function.update scope.objects name (some identity) }

def dropSequences (scope : ReturnScope) (name : String) : ReturnScope :=
  { scope with
    funcSeq := Function.update scope.funcSeq name none
    objectSeq := Function.update scope.objectSeq name none }

/-- `restoreReturnScopeBinding`: what the source has for the name replaces what the target has. -/
def restoreBinding (target : ReturnScope) (name : String) (source : ReturnScope) : ReturnScope where
  ints := Function.update target.ints name (source.ints name)
  bigints := Function.update target.bigints name (source.bigints name)
  bools := Function.update target.bools name (source.bools name)
  strings := Function.update target.strings name (source.strings name)
  nullish := Function.update target.nullish name (source.nullish name)
  funcs := Function.update target.funcs name (source.funcs name)
  funcSeq := Function.update target.funcSeq name (source.funcSeq name)
  objects := Function.update target.objects name (source.objects name)
  objectSeq := Function.update target.objectSeq name (source.objectSeq name)

def lastFunction (scope : ReturnScope) : ℕ := (scope.funcSeq functionSequenceKey).getD 0

def lastObject (scope : ReturnScope) : ℕ := (scope.objectSeq objectSequenceKey).getD 0

def bindingKnown (scope : ReturnScope) (name : String) : Bool :=
  (scope.ints name).isSome || (scope.strings name).isSome || (scope.bigints name).isSome ||
    (scope.nullish name).isSome || (scope.funcs name).isSome || (scope.objects name).isSome ||
    (scope.bools name).isSome

end ReturnScope

/-- The scope at hand, and what a run has done so far: the allocations, the scopes it has reached,
the names whose bindings left scope, and the identities it has compared. -/
structure Evaluation where
  scope : ReturnScope
  allocations : ℕ
  reached : List ReturnScope
  left : List String
  compared : List (Identity × Identity)

/-- A function of the evaluator: it succeeds with a value or fails, and has changed its scope either
way. -/
abbrev Eval := OptionT (StateM Evaluation)

namespace Eval

variable {α β : Type}

/-- The outcome and the state it leaves. -/
def outcome (m : Eval α) (state : Evaluation) : Option α × Evaluation := m.run state

def isolate (m : Eval α) : Eval α := OptionT.mk fun state =>
  ((m.outcome state).1, { (m.outcome state).2 with scope := state.scope })

def outcomeFrom (m : Eval α) (scope : ReturnScope) (state : Evaluation) :
    Option α × Evaluation :=
  match m.outcome state with
  | (some value, after) => (some value, after)
  | (none, after) => (none, { after with scope := scope })

def probe (m : Eval α) : Eval α := OptionT.mk fun state => m.outcomeFrom state.scope state

def attempt (m : Eval α) : Eval (Option α) := OptionT.mk fun state =>
  (some (m.outcome state).1, (m.outcome state).2)

/-- A test on a clone, on which what follows goes on where the test succeeds: it replaces the scope
when all of it does. Where the test fails, the clone is dropped before the alternative. -/
def probing (test : Eval β) (succeeded : β → Eval α) (failed : Eval α) : Eval α :=
  OptionT.mk fun state =>
    match test.outcome state with
    | (some value, after) => (succeeded value).outcomeFrom state.scope after
    | (none, after) => failed.outcome { after with scope := state.scope }

def scope : Eval ReturnScope := OptionT.mk fun state => (some state.scope, state)

def mutate (change : ReturnScope → ReturnScope) : Eval Unit := OptionT.mk fun state =>
  (some (), { state with
    scope := change state.scope
    reached := change state.scope :: state.reached })

def ofOption : Option α → Eval α
  | some value => pure value
  | none => failure

variable {state after : Evaluation} {m : Eval α}

theorem outcome_probing_some {test : Eval β} {value : β} (succeeded : β → Eval α) (failed : Eval α)
    (htest : test.outcome state = (some value, after)) :
    (probing test succeeded failed).outcome state =
      (succeeded value).outcomeFrom state.scope after := by
  unfold probing
  rw [outcome]
  dsimp only [OptionT.run, OptionT.mk]
  rw [htest]

theorem outcome_probing_none {test : Eval β} (succeeded : β → Eval α) (failed : Eval α)
    (htest : test.outcome state = (none, after)) :
    (probing test succeeded failed).outcome state =
      failed.outcome { after with scope := state.scope } := by
  unfold probing
  rw [outcome]
  dsimp only [OptionT.run, OptionT.mk]
  rw [htest]

theorem outcome_bind (m : Eval α) (f : α → Eval β) (state : Evaluation) :
    (m >>= f).outcome state =
      match m.outcome state with
      | (some value, after) => (f value).outcome after
      | (none, after) => (none, after) := by
  simp only [outcome, OptionT.run_bind, Option.elimM]
  change (let result := m.run state
    StateT.run (result.1.elim (Pure.pure none) fun value => (f value).run) result.2) = _
  rcases m.run state with ⟨_ | value, after⟩ <;> rfl

theorem outcome_orElse (m n : Eval α) (state : Evaluation) :
    (m <|> n).outcome state =
      match m.outcome state with
      | (some value, after) => (some value, after)
      | (none, after) => n.outcome after := by
  simp only [outcome, OptionT.run_orElse, Option.elimM]
  change (let result := m.run state
    StateT.run (result.1.elim n.run fun value => Pure.pure (some value)) result.2) = _
  rcases m.run state with ⟨_ | value, after⟩ <;> rfl

theorem outcome_bind_of {f : α → Eval β} {middle : Evaluation} {value : α}
    (hm : m.outcome state = (some value, middle)) :
    (m >>= f).outcome state = (f value).outcome middle := by
  rw [outcome_bind, hm]

theorem outcome_bind_some {f : α → Eval β} {value : β}
    (hrun : (m >>= f).outcome state = (some value, after)) :
    ∃ first middle, m.outcome state = (some first, middle) ∧
      (f first).outcome middle = (some value, after) := by
  rw [outcome_bind] at hrun
  rcases hm : m.outcome state with ⟨_ | first, middle⟩
  · rw [hm] at hrun
    cases hrun
  · rw [hm] at hrun
    exact ⟨first, middle, rfl, hrun⟩

theorem outcome_probe_some {value : α} (hrun : (probe m).outcome state = (some value, after)) :
    m.outcome state = (some value, after) := by
  change m.outcomeFrom state.scope state = _ at hrun
  unfold outcomeFrom at hrun
  rcases hm : m.outcome state with ⟨_ | first, middle⟩
  · rw [hm] at hrun
    cases hrun
  · rw [hm] at hrun
    exact hrun

theorem outcome_probe_none (hrun : (probe m).outcome state = (none, after)) :
    after.scope = state.scope := by
  change m.outcomeFrom state.scope state = _ at hrun
  unfold outcomeFrom at hrun
  rcases hm : m.outcome state with ⟨_ | first, middle⟩
  · rw [hm] at hrun
    cases hrun
    rfl
  · rw [hm] at hrun
    cases hrun

end Eval

def clearReturnScopeBinding (name : String) : Eval Unit :=
  Eval.mutate fun scope => scope.clearBinding name

def assign (name : String) (value : ReturnValue) : Eval Unit :=
  Eval.mutate fun scope => (scope.clearBinding name).store name value

def overwrite (name : String) (value : ReturnValue) : Eval Unit :=
  Eval.mutate fun scope => scope.store name value

def allocateFunctionIdentity : Eval Identity := OptionT.mk fun state =>
  let identity := ⟨state.scope.lastFunction + 1, state.allocations⟩
  let scope := { state.scope with
    funcSeq := Function.update state.scope.funcSeq functionSequenceKey (some identity.value) }
  (some identity, { state with
    scope := scope
    allocations := state.allocations + 1
    reached := scope :: state.reached })

def allocateObjectIdentity : Eval Identity := OptionT.mk fun state =>
  let identity := ⟨state.scope.lastObject + 1, state.allocations⟩
  let scope := { state.scope with
    objectSeq := Function.update state.scope.objectSeq objectSequenceKey (some identity.value) }
  (some identity, { state with
    scope := scope
    allocations := state.allocations + 1
    reached := scope :: state.reached })

def assignFunctionIdentity (name : String) (identity : Identity) : Eval Unit :=
  assign name (.function identity)

def assignObjectIdentity (name : String) (identity : Identity) : Eval Unit :=
  assign name (.object identity)

def leave (name : String) (change : ReturnScope → ReturnScope) : Eval Unit := OptionT.mk fun state =>
  (some (), { state with
    scope := change state.scope
    reached := change state.scope :: state.reached
    left := name :: state.left })

def restoreReturnScopeBinding (name : String) (source : ReturnScope) : Eval Unit :=
  leave name fun target => target.restoreBinding name source

def sameIdentity (first second : Identity) : Eval Bool := OptionT.mk fun state =>
  (some (first.value == second.value), { state with
    compared := (first, second) :: state.compared })

end Jayess.Lowering
