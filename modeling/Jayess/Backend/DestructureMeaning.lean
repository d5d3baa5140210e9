import Jayess.Backend.Destructure

/-!
# What destructuring code does

The code of a pattern runs as the variant of JavaScript's destructuring that evaluates every default
and copies an object without its keys in mind, when the runtime helpers do what their names say with
the arguments they are passed.
-/

namespace Jayess.Backend

open Destructure (Pattern Extraction Semantics Outcome)

variable {Value World : Type}

/-- What the runtime helpers give, as functions of the arguments they are passed. -/
structure Helpers (runtime : Runtime Value World) (extraction : Extraction Value)
    (undefined : Value) (copied : Value → Value) : Prop where
  undefinedLiteral : ∀ world, runtime.call "jayess_value_undefined" [] world = (undefined, world)
  arrayIndex : ∀ value index world,
    runtime.call "jayess_destructure_array_index"
      [value, runtime.constant (.int index), undefined] world =
        (extraction.element value index, world)
  arrayRest : ∀ value start world,
    runtime.call "jayess_destructure_array_rest" [value, runtime.constant (.int start)] world =
      (extraction.elements value start, world)
  property : ∀ value key world,
    runtime.call "jayess_destructure_property" [value, key, undefined] world =
      (extraction.property value key, world)
  objectRest : ∀ value world,
    runtime.call "jayess_destructure_object_rest" [value] world = (copied value, world)
  default : ∀ value fallback world,
    runtime.call "jayess_destructure_default" [value, fallback] world =
      (if extraction.isUndefined value then fallback else value, world)

/-- The value of an initialiser and the store after it. -/
def Initial.evaluate (runtime : Runtime Value World) (initial : Initial)
    (store : Store Value World) : Value × Store Value World :=
  let machine := initial.fragment.run runtime ⟨fun _ => runtime.constant .undef, store⟩
  (initial.value.eval runtime machine, machine.store)

def assign (locals : String → Option LocalSlot) (name : String) (value : Value)
    (store : Store Value World) : Store Value World :=
  match locals name with
  | some slot => store.set slot.index value
  | none => store

/-- Destructuring over the slots of the locals. -/
def semantics (runtime : Runtime Value World) (extraction : Extraction Value)
    (locals : String → Option LocalSlot) : Semantics Initial Value (Store Value World) where
  toExtraction := extraction
  evaluate := Initial.evaluate runtime
  assign := assign locals

variable {runtime : Runtime Value World}

theorem Initial.evaluate_store (initial : Initial) (machine : Machine Value World) :
    initial.evaluate runtime machine.store =
      (initial.value.eval runtime (initial.fragment.run runtime machine),
        (initial.fragment.run runtime machine).store) := by
  have hsame : SameOn slotNames ⟨fun _ => runtime.constant .undef, machine.store⟩ machine := by
    refine ⟨rfl, fun index hindex => ?_⟩
    obtain ⟨slot, hslot⟩ := hindex
    cases hslot
  have hrun := @SameOn.run _ _ runtime _ _ _ _ _ _ initial.numbered initial.closed hsame
  rw [Initial.evaluate, hrun.store, hrun.eval initial.valueIn]

variable {middle final : Counters} {result : Nat} {source : Operand} {script : Script}
    {tree : Pattern Initial} {pattern : Option BindingPattern} {ready : Fragment}

theorem Initial.value_before {initial : Initial} {counters : Counters}
    (hnumbered : Numbered counters initial.fragment middle) : initial.value.Before middle := by
  rintro index heq
  have hindex := initial.valueIn (.value index) (by simp [heq, Operand.names])
  rcases hindex with ⟨slot, hslot⟩ | hindex
  · cases hslot
  · exact hnumbered.exports_lt hindex

theorem numbered_seq {counters : Counters} {first second : Fragment}
    (hnumbered : Numbered counters (.seq first second) final) :
    ∃ middle, Numbered counters first middle ∧ Numbered middle second final := by
  cases hnumbered with
  | seq hfirst hsecond => exact ⟨_, hfirst, hsecond⟩

theorem numbered_runtimeLine {counters : Counters} {symbol : String} {args : List RuntimeCallArg}
    (hnumbered : Numbered counters (.plain (runtimeLine result symbol args)) final) :
    result = counters.value ∧ final.value = counters.value + 1 := by
  cases hnumbered with
  | act _ hdefs => cases hdefs
  | define _ hdefs =>
      have hresult : [Name.value result] = [.value counters.value] := hdefs
      exact ⟨by simpa using hresult, rfl⟩

theorem run_runtimeLine {result : Nat} {symbol : String} {args : List RuntimeCallArg}
    {machine : Machine Value World} {value : Value}
    (hcall : runtime.call symbol (args.map (·.value.eval runtime machine)) machine.store.world =
      (value, machine.store.world)) :
    (Fragment.plain (runtimeLine result symbol args)).run runtime machine =
      machine.define result value := by
  change ((machine.define result (runtime.call _ _ _).1).inWorld (runtime.call _ _ _).2) = _
  rw [hcall]
  rfl

variable {extraction : Extraction Value} {undefined : Value} {copied : Value → Value}

theorem Operand.eval_define {machine : Machine Value World} {result : Nat} {value : Value}
    {operand : Operand} (hne : operand ≠ .named result) :
    operand.eval runtime (machine.define result value) = operand.eval runtime machine := by
  cases operand with
  | named index =>
      have hindex : index ≠ result := fun heq => hne (congrArg Operand.named heq)
      exact Machine.define_values_of_ne hindex
  | _ => rfl

theorem Operand.Before.ne_named {counters : Counters} {operand : Operand}
    (hoperand : operand.Before counters) (hresult : counters.value ≤ result) :
    operand ≠ .named result := by
  intro heq
  have hlt := hoperand result heq
  omega

/-- The code of a part leaves the store and gives the part, and it changes no value numbered
before. -/
theorem run_element (hhelpers : Helpers runtime extraction undefined copied) {index fallback : Nat}
    {counters : Counters}
    (hnumbered : Numbered counters (Script.element index fallback result source).fragment final)
    (hsource : source.Before counters) (machine : Machine Value World) :
    let ran := (Script.element index fallback result source).fragment.run runtime machine
    ran.store = machine.store ∧
      ran.values result = extraction.element (source.eval runtime machine) index := by
  obtain ⟨middle, hfallback, hresult⟩ := numbered_seq hnumbered
  obtain ⟨rfl, hmiddle⟩ := numbered_runtimeLine hfallback
  intro ran
  have hundefined := @run_runtimeLine _ _ runtime counters.value "jayess_value_undefined" []
    machine undefined (hhelpers.undefinedLiteral _)
  have hindex : ran = (machine.define counters.value undefined).define result
      (extraction.element (source.eval runtime machine) index) := by
    change (Fragment.plain (runtimeLine _ _ _)).run runtime
      ((Fragment.plain (runtimeLine _ _ _)).run runtime machine) = _
    rw [hundefined]
    refine run_runtimeLine ?_
    have hkept := @Operand.eval_define _ _ runtime machine _ undefined _ (hsource.ne_named le_rfl)
    simp only [List.map_cons, List.map_nil, valueArg_value, hkept]
    simpa [Operand.eval] using hhelpers.arrayIndex _ index _
  rw [hindex]
  exact ⟨rfl, Machine.define_values_self _ _ _⟩

theorem run_elements (hhelpers : Helpers runtime extraction undefined copied)
    {start result : Nat} {source : Operand} (machine : Machine Value World) :
    let ran := (Script.elements start result source).fragment.run runtime machine
    ran.store = machine.store ∧
      ran.values result = extraction.elements (source.eval runtime machine) start := by
  intro ran
  have helements : ran =
      machine.define result (extraction.elements (source.eval runtime machine) start) :=
    run_runtimeLine (by simpa [Operand.eval] using hhelpers.arrayRest _ start _)
  rw [helements]
  exact ⟨rfl, Machine.define_values_self _ _ _⟩

theorem run_rest (hhelpers : Helpers runtime extraction undefined copied)
    {result : Nat} {source : Operand} (machine : Machine Value World) :
    let ran := (Script.rest result source).fragment.run runtime machine
    ran.store = machine.store ∧ ran.values result = copied (source.eval runtime machine) := by
  intro ran
  have hcopied : ran = machine.define result (copied (source.eval runtime machine)) :=
    run_runtimeLine (by simpa using hhelpers.objectRest _ _)
  rw [hcopied]
  exact ⟨rfl, Machine.define_values_self _ _ _⟩

theorem run_default (hhelpers : Helpers runtime extraction undefined copied)
    {initial : Initial} {result : Nat} {source : Operand} {counters middle : Counters}
    (hnumbered : Numbered counters initial.fragment middle)
    (hsource : source.Before counters) (machine : Machine Value World) :
    let ran := (Script.withDefault initial result source).fragment.run runtime machine
    let initialised := initial.evaluate runtime machine.store
    ran.store = initialised.2 ∧ ran.values result =
      if extraction.isUndefined (source.eval runtime machine) then initialised.1
      else source.eval runtime machine := by
  intro ran initialised
  have hinitialised : initialised = _ := initial.evaluate_store machine
  have hkept := @Operand.Before.eval_run _ _ runtime _ _ _ _ hsource hnumbered machine
  have hdefault : ran = (initial.fragment.run runtime machine).define result
      (if extraction.isUndefined (source.eval runtime machine) then initialised.1
        else source.eval runtime machine) := by
    refine run_runtimeLine ?_
    rw [hinitialised, ← hkept]
    exact hhelpers.default _ _ _
  rw [hdefault, hinitialised]
  exact ⟨rfl, Machine.define_values_self _ _ _⟩

theorem run_property (hhelpers : Helpers runtime extraction undefined copied) {key : Initial}
    {fallback : Nat} {counters : Counters}
    (hnumbered : Numbered counters (Script.property key fallback result source).fragment final)
    (hsource : source.Before counters) (machine : Machine Value World) :
    let ran := (Script.property key fallback result source).fragment.run runtime machine
    let keyed := key.evaluate runtime machine.store
    ran.store = keyed.2 ∧
      ran.values result = extraction.property (source.eval runtime machine) keyed.1 := by
  obtain ⟨middle, hfragment, hcalls⟩ := numbered_seq hnumbered
  obtain ⟨middle', hfallback, hresult⟩ := numbered_seq hcalls
  obtain ⟨rfl, hmiddle⟩ := numbered_runtimeLine hfallback
  intro ran keyed
  have hkeyed : keyed = _ := key.evaluate_store machine
  have hkept := @Operand.Before.eval_run _ _ runtime _ _ _ _ hsource hfragment machine
  set before := key.fragment.run runtime machine with hbefore
  have hundefined := @run_runtimeLine _ _ runtime middle.value "jayess_value_undefined" []
    before undefined (hhelpers.undefinedLiteral _)
  have hproperty : ran = (before.define middle.value undefined).define result
      (extraction.property (source.eval runtime machine) keyed.1) := by
    change (Fragment.plain (runtimeLine _ _ _)).run runtime
      ((Fragment.plain (runtimeLine _ _ _)).run runtime before) = _
    rw [hundefined]
    refine run_runtimeLine ?_
    have hsource' := @Operand.eval_define _ _ runtime before _ undefined _
      ((hsource.mono hfragment.value_le).ne_named le_rfl)
    have hkey' := @Operand.eval_define _ _ runtime before _ undefined _
      ((Initial.value_before hfragment).ne_named le_rfl)
    have hfallback' : (Operand.named middle.value).eval runtime
        (before.define middle.value undefined) = undefined := Machine.define_values_self _ _ _
    simp only [List.map_cons, List.map_nil, valueArg_value, hsource', hkey', hfallback']
    rw [hkeyed, ← hkept]
    exact hhelpers.property _ _ _
  rw [hproperty, hkeyed]
  exact ⟨rfl, Machine.define_values_self _ _ _⟩

variable {locals : String → Option LocalSlot}

/-- The code of a pattern runs as the eager variant of destructuring. -/
def Runs (runtime : Runtime Value World) (extraction : Extraction Value)
    (locals : String → Option LocalSlot) (copied : Value → Value) (tree : Pattern Initial)
    (source : Operand) (script : Script) : Prop :=
  ∀ (counters final : Counters), Numbered counters script.fragment final →
    source.Before counters → ∀ (machine : Machine Value World) (taken : List Value),
      tree.eager (semantics runtime extraction locals) copied (source.eval runtime machine) taken
          machine.store =
        ⟨(script.fragment.run runtime machine).store, script.events runtime machine⟩

theorem call_exports {symbol : String} {args : List RuntimeCallArg} :
    .value result ∈ (Script.call result symbol args).fragment.exports :=
  List.mem_singleton_self _

theorem named_before {counters : Counters} (hnumbered : Numbered counters script.fragment middle)
    (hresult : .value result ∈ script.fragment.exports) :
    (Operand.named result).Before middle := by
  intro index heq
  obtain rfl := Operand.named.inj heq
  exact hnumbered.exports_lt hresult

/-- A part, its pattern and the rest run one after the other, on the value they are all read
from. -/
theorem runs_parts {inner rest : Pattern Initial} {head others : Script}
    (hinner : Runs runtime extraction locals copied inner
      (.named result) script) (hrest : Runs runtime extraction locals copied rest source others)
    (hresult : .value result ∈ head.fragment.exports) {counters : Counters}
    (hnumbered : Numbered counters (Script.seq head (.seq script others)).fragment final)
    (hsource : source.Before counters) (machine : Machine Value World) (taken : List Value) :
    let ran := head.fragment.run runtime machine
    let first := inner.eager (semantics runtime extraction locals) copied (ran.values result) []
      ran.store
    (rest.eager (semantics runtime extraction locals) copied (source.eval runtime machine) taken
        first.state).after (head.events runtime machine ++ first.events) =
      ⟨((Script.seq head (.seq script others)).fragment.run runtime machine).store,
        (Script.seq head (.seq script others)).events runtime machine⟩ := by
  obtain ⟨middle, hhead, hparts⟩ := numbered_seq hnumbered
  obtain ⟨middle', hscript, hothers⟩ := numbered_seq hparts
  intro ran first
  have hfirst : first = ⟨(script.fragment.run runtime ran).store, script.events runtime ran⟩ :=
    hinner _ _ hscript (named_before hhead hresult) ran []
  have hkept : source.eval runtime (script.fragment.run runtime ran) =
      source.eval runtime machine := by
    have hmiddle := hsource.mono hhead.value_le
    rw [hmiddle.eval_run hscript, hsource.eval_run hhead]
  have hothers := hrest _ _ hothers ((hsource.mono hhead.value_le).mono hscript.value_le)
    (script.fragment.run runtime ran) taken
  rw [hkept] at hothers
  rw [hfirst, hothers, Outcome.after, List.append_assoc]
  rfl

theorem Coded.runs (hhelpers : Helpers runtime extraction undefined copied)
    (hcoded : Coded locals tree source script) :
    Runs runtime extraction locals copied tree source script := by
  induction hcoded with
  | done => exact fun _ _ _ _ _ _ => rfl
  | @name binding slot source hslot =>
      intro _ _ _ _ machine taken
      have hassign : assign locals binding (source.eval runtime machine) machine.store =
          machine.store.set slot.index (source.eval runtime machine) := by
        rw [assign, hslot]
      exact congrArg (fun store => (⟨store, []⟩ : Outcome Initial Value _)) hassign
  | @default initial inner source result script _ ihinner =>
      intro counters final hnumbered hsource machine taken
      obtain ⟨middle, hhead, hscript⟩ := numbered_seq hnumbered
      obtain ⟨_, hinitial, -⟩ := numbered_seq hhead
      obtain ⟨hstore, hresult⟩ := @run_default _ _ _ _ _ _ hhelpers _ result _ _ _ hinitial
        hsource machine
      have hinner := ihinner _ _ hscript (named_before hhead (Or.inr call_exports))
        ((Script.withDefault initial result source).fragment.run runtime machine) []
      rw [Operand.eval, hstore, hresult] at hinner
      rw [Pattern.eager_default]
      exact congrArg (fun outcome => outcome.after [.evaluated initial]) hinner
  | @element index fallback result _ _ source _ _ _ _ ihinner ihrest =>
      intro counters final hnumbered hsource machine taken
      obtain ⟨_, hhead, -⟩ := numbered_seq hnumbered
      obtain ⟨hstore, hresult⟩ := run_element hhelpers hhead hsource machine
      have hexports : .value result ∈ (Script.element index fallback result source).fragment.exports :=
        Or.inr call_exports
      rw [← runs_parts ihinner ihrest hexports hnumbered hsource machine taken, hstore, hresult]
      rfl
  | @elements start result _ _ source _ _ _ _ ihinner ihrest =>
      intro counters final hnumbered hsource machine taken
      obtain ⟨hstore, hresult⟩ := @run_elements _ _ _ _ _ _ hhelpers start result source machine
      have hexports : .value result ∈ (Script.elements start result source).fragment.exports :=
        call_exports
      rw [← runs_parts ihinner ihrest hexports hnumbered hsource machine taken, hstore, hresult]
      rfl
  | @property key fallback result _ _ source _ _ _ _ ihinner ihrest =>
      intro counters final hnumbered hsource machine taken
      obtain ⟨_, hhead, -⟩ := numbered_seq hnumbered
      obtain ⟨hstore, hresult⟩ := run_property hhelpers hhead hsource machine
      have hexports : .value result ∈
          (Script.property key fallback result source).fragment.exports :=
        Or.inr (Or.inr call_exports)
      rw [← runs_parts ihinner ihrest hexports hnumbered hsource machine, hstore, hresult]
      rfl
  | @others result _ _ source _ _ _ _ ihinner ihrest =>
      intro counters final hnumbered hsource machine taken
      obtain ⟨hstore, hresult⟩ := @run_rest _ _ _ _ _ _ hhelpers result source machine
      have hexports : .value result ∈ (Script.rest result source).fragment.exports :=
        List.mem_singleton_self _
      have hevents : (Script.rest result source).events runtime machine =
          [.received (copied (source.eval runtime machine))] := by
        rw [Script.events, hresult]
      rw [← runs_parts ihinner ihrest hexports hnumbered hsource machine taken, hevents, hstore,
        hresult]
      rfl

/-- The code binds each name to the value JavaScript gives it, evaluates the defaults JavaScript
evaluates, and gives the object rests the values JavaScript gives them. -/
structure Faithful (locals : String → Option LocalSlot) (names : List String)
    (outcome expected : Outcome Initial Value (Store Value World)) : Prop where
  names : ∀ name ∈ names, ∃ slot, locals name = some slot ∧
    outcome.state.slots slot.index = expected.state.slots slot.index
  events : outcome.events = expected.events

/-- What the code of a pattern does from a machine on. -/
def Script.outcome (runtime : Runtime Value World) (script : Script)
    (machine : Machine Value World) : Outcome Initial Value (Store Value World) :=
  ⟨(script.fragment.run runtime machine).store, script.events runtime machine⟩

/-- The value a declaration takes apart, undefined when it has none. -/
def declaredValue (runtime : Runtime Value World) (undefined : Value) (value : Operand)
    (machine : Machine Value World) : Value :=
  if value = .undef then undefined else value.eval runtime machine

theorem DeclarationCode.source_eval (hhelpers : Helpers runtime extraction undefined copied)
    {value : Operand} {emitter emitted : ExpressionEmitter}
    (hcode : DeclarationCode pattern value source emitter emitted ready tree script)
    (hbefore : value.Before emitter.counters) (machine : Machine Value World) :
    source.eval runtime (ready.run runtime machine) =
      declaredValue runtime undefined value machine := by
  obtain ⟨middle, hready, -⟩ := hcode.numbered
  by_cases hundef : value = .undef
  · obtain ⟨result, rest, rfl, rfl⟩ := hcode.missing hundef
    obtain ⟨between, hliteral, hrest⟩ := numbered_seq hready
    have hresult := hliteral.exports_lt (List.mem_singleton_self _)
    have hliteral : (Fragment.plain (runtimeLine result "jayess_value_undefined" [])).run runtime
        machine = machine.define result undefined :=
      run_runtimeLine (hhelpers.undefinedLiteral _)
    rw [declaredValue, if_pos hundef, Operand.eval, Fragment.run_seq, hrest.run_values hresult,
      hliteral, Machine.define_values_self]
  · rw [declaredValue, if_neg hundef, hcode.given hundef, hbefore.eval_run hready]

theorem DeclarationCode.source_before {value : Operand} {emitter emitted : ExpressionEmitter}
    (hcode : DeclarationCode pattern value source emitter emitted ready tree script)
    (hbefore : value.Before emitter.counters) (hready : Numbered emitter.counters ready middle) :
    source.Before middle := by
  by_cases hundef : value = .undef
  · obtain ⟨result, rest, rfl, rfl⟩ := hcode.missing hundef
    obtain ⟨between, hliteral, hrest⟩ := numbered_seq hready
    intro index heq
    obtain rfl := Operand.named.inj heq
    exact (hliteral.exports_lt (List.mem_singleton_self _)).trans_le hrest.value_le
  · rw [hcode.given hundef]
    exact hbefore.mono hready.value_le

theorem DeclarationCode.outcome_eq (hhelpers : Helpers runtime extraction undefined copied)
    {value : Operand} {emitter emitted : ExpressionEmitter}
    (hcode : DeclarationCode pattern value source emitter emitted ready tree script)
    (hbefore : value.Before emitter.counters) (machine : Machine Value World) :
    script.outcome runtime (ready.run runtime machine) =
      tree.eager (semantics runtime extraction emitted.locals) copied
        (declaredValue runtime undefined value machine) [] (ready.run runtime machine).store := by
  obtain ⟨middle, hready, hscript⟩ := hcode.numbered
  have hruns := hcode.coded.runs hhelpers _ _ hscript (hcode.source_before hbefore hready)
    (ready.run runtime machine) []
  rw [hcode.source_eval hhelpers hbefore] at hruns
  exact hruns.symm

/-- A declaration does what JavaScript does exactly where, along the JavaScript run, every default
meets an undefined value and every object rest has nothing to leave out. -/
theorem emitBindingDeclaration_faithful_iff {pattern : Option BindingPattern} {value : Operand}
    {emitter emitted : ExpressionEmitter}
    (hrun : emitBindingDeclaration pattern value emitter = .ok ((), emitted))
    (hbefore : value.Before emitter.counters)
    (hvalue : value = .undef → bindingName pattern = none) :
    ∃ source ready tree script,
      DeclarationCode pattern value source emitter emitted ready tree script ∧
      ∀ {Value World : Type} {runtime : Runtime Value World} {extraction : Extraction Value}
        {undefined : Value} {copied : Value → Value},
        Helpers runtime extraction undefined copied → ∀ machine : Machine Value World,
          let given := declaredValue runtime undefined value machine
          let declared := ready.run runtime machine
          let destructuring := semantics runtime extraction emitted.locals
          Faithful emitted.locals (patternTree pattern).names (script.outcome runtime declared)
              (tree.javaScript destructuring given [] declared.store) ↔
            tree.Whole destructuring copied given [] declared.store := by
  obtain ⟨source, ready, tree, script, hcode⟩ := emitBindingDeclaration_coded hrun hvalue
  refine ⟨source, ready, tree, script, hcode, ?_⟩
  intro Value World runtime extraction undefined copied hhelpers machine given declared
    destructuring
  have houtcome := hcode.outcome_eq hhelpers hbefore machine
  rw [houtcome]
  constructor
  · exact fun hfaithful => Pattern.whole_of_events_eq hfaithful.events
  · intro hwhole
    rw [Pattern.eager_eq_of_whole hwhole]
    refine ⟨fun name hname => ?_, rfl⟩
    rw [← hcode.sources, Pattern.names_map] at hname
    obtain ⟨slot, hslot⟩ := hcode.coded.hasSlot name hname
    exact ⟨slot, hslot, rfl⟩

/-- The pattern `[a = "x"]`. -/
def defaultedElement : Option BindingPattern :=
  some (.array [some (.default (some (.name "a")) (.stringLiteral ⟨1, 12⟩ "x"))])

/-- The emitter after the value of an initialiser. -/
def afterValue : ExpressionEmitter := { newExpressionEmitter with valueIndex := 1 }

theorem afterValue_emits : ∃ emitted,
    emitBindingDeclaration defaultedElement (.named 0) afterValue = .ok ((), emitted) := by
  obtain ⟨_, emitted, hrun, -⟩ := exists_ok_of_check
    (emitBindingDeclaration defaultedElement (.named 0) afterValue) (fun _ => true)
    (by decide +kernel)
  exact ⟨emitted, hrun⟩

theorem defaultedElement_faithful_iff : ∃ emitted source ready tree script,
    DeclarationCode defaultedElement (.named 0) source afterValue emitted ready tree script ∧
      ∀ {Value World : Type} {runtime : Runtime Value World} {extraction : Extraction Value}
        {undefined : Value} {copied : Value → Value},
        Helpers runtime extraction undefined copied → ∀ machine : Machine Value World,
          let given := declaredValue runtime undefined (.named 0) machine
          let declared := ready.run runtime machine
          let destructuring := semantics runtime extraction emitted.locals
          Faithful emitted.locals (patternTree defaultedElement).names
              (script.outcome runtime declared)
              (tree.javaScript destructuring given [] declared.store) ↔
            tree.Whole destructuring copied given [] declared.store := by
  obtain ⟨emitted, hrun⟩ := afterValue_emits
  have hbefore : (Operand.named 0).Before afterValue.counters := by
    intro index heq
    obtain rfl := Operand.named.inj heq
    exact Nat.lt_succ_self 0
  exact ⟨emitted, emitBindingDeclaration_faithful_iff hrun hbefore nofun⟩

/-- Values that are undefined or an array of sevens, or one of its elements. -/
inductive Seven where
  | undefined
  | sevens
  | seven
deriving DecidableEq, Repr

def sevenExtraction : Extraction Seven where
  isUndefined value := value = .undefined
  element _ _ := .seven
  elements _ _ := .sevens
  property _ _ := .undefined
  without value _ := value

/-- A runtime on those values. -/
def sevenRuntime : Runtime Seven Unit where
  constant _ := .undefined
  call symbol args world :=
    (if symbol = "jayess_destructure_array_index" then .seven
      else if symbol = "jayess_destructure_array_rest" then .sevens
      else if symbol = "jayess_destructure_object_rest" then args.headD .undefined
      else if symbol = "jayess_destructure_default" then
        if args.headD .undefined = .undefined then args.getLastD .undefined
        else args.headD .undefined
      else .undefined, world)
  truthy _ := true

theorem sevenRuntime_helpers : Helpers sevenRuntime sevenExtraction .undefined id where
  undefinedLiteral _ := by simp [sevenRuntime]
  arrayIndex _ _ _ := by simp [sevenRuntime, sevenExtraction]
  arrayRest _ _ _ := by simp [sevenRuntime, sevenExtraction]
  property _ _ _ := by simp [sevenRuntime, sevenExtraction]
  objectRest _ _ := by simp [sevenRuntime]
  default value fallback _ := by simp [sevenRuntime, sevenExtraction]

/-- Where the element is a seven JavaScript evaluates no default, and the code does. -/
theorem defaultedElement_not_faithful : ∃ emitted source ready tree script,
    emitBindingDeclaration defaultedElement (.named 0) afterValue = .ok ((), emitted) ∧
      DeclarationCode defaultedElement (.named 0) source afterValue emitted ready tree script ∧
      Helpers sevenRuntime sevenExtraction .undefined id ∧
      ∃ machine : Machine Seven Unit, machine.values 0 = .sevens ∧
        ¬ Faithful emitted.locals (patternTree defaultedElement).names
          (script.outcome sevenRuntime (ready.run sevenRuntime machine))
          (tree.javaScript (semantics sevenRuntime sevenExtraction emitted.locals) .sevens []
            (ready.run sevenRuntime machine).store) := by
  obtain ⟨emitted, hrun⟩ := afterValue_emits
  obtain ⟨source, ready, tree, script, hcode⟩ := emitBindingDeclaration_coded hrun nofun
  refine ⟨emitted, source, ready, tree, script, hrun, hcode, sevenRuntime_helpers,
    ⟨fun _ => .sevens, fun _ => .undefined, ()⟩, rfl, fun hfaithful => ?_⟩
  have hbefore : (Operand.named 0).Before afterValue.counters := by
    intro index heq
    obtain rfl := Operand.named.inj heq
    exact Nat.lt_succ_self 0
  have hevents := hfaithful.events
  rw [hcode.outcome_eq sevenRuntime_helpers hbefore] at hevents
  have hwhole := Pattern.whole_of_events_eq hevents
  obtain ⟨initial, inner, rest, rfl⟩ : ∃ initial inner rest,
      tree = .element 0 (.default initial inner) rest := by
    have hsources := hcode.sources
    cases tree with
    | element index inner rest =>
        obtain ⟨rfl, hinner, -⟩ := Pattern.element.inj hsources
        cases inner with
        | default initial inner => exact ⟨initial, inner, rest, rfl⟩
        | _ => cases hinner
    | _ => cases hsources
  have hundefined : sevenExtraction.isUndefined .seven = true := hwhole.1.1
  exact absurd hundefined (by decide)

end Jayess.Backend
