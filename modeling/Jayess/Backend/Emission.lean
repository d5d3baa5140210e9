import Jayess.Backend.Fragment

/-!
# What an expression action emits

`Emission` relates the emitter before and after an action to the fragment the action appended, and
`Emits` is the triple over it: the rules below follow the shape of the `do` blocks, so that the
specification of each emitter function is assembled from those of the functions it calls.
-/

namespace Jayess.Backend

variable {α β : Type}

section Inversion

variable {σ : Type} {state final : σ}

theorem bind_eq_ok {action : StateT σ (Except EmitError) α}
    {next : α → StateT σ (Except EmitError) β} {result : β × σ} :
    (action >>= next) state = .ok result ↔
      ∃ value middle, action state = .ok (value, middle) ∧ next value middle = .ok result := by
  constructor
  · intro h
    cases haction : action state with
    | error error => simp [bind, StateT.bind, Except.bind, haction] at h
    | ok pair =>
        exact ⟨pair.1, pair.2, rfl, by simpa [bind, StateT.bind, Except.bind, haction] using h⟩
  · rintro ⟨value, middle, haction, hnext⟩
    simpa [bind, StateT.bind, Except.bind, haction] using hnext

variable {result : α × σ}

@[simp] theorem pure_eq_ok {value : α} :
    (pure value : StateT σ (Except EmitError) α) state = .ok result ↔ (value, state) = result := by
  change Except.ok (value, state) = _ ↔ _
  rw [Except.ok.injEq]

@[simp] theorem get_eq_ok {result : σ × σ} :
    (get : StateT σ (Except EmitError) σ) state = .ok result ↔ (state, state) = result := by
  simp [get, getThe, MonadStateOf.get, StateT.get, pure, Except.pure]

@[simp] theorem modify_eq_ok {f : σ → σ} {result : Unit × σ} :
    (modify f : StateT σ (Except EmitError) Unit) state = .ok result ↔
      ((), f state) = result := by
  simp [modify, modifyGet, MonadStateOf.modifyGet, StateT.modifyGet, pure, Except.pure]

@[simp] theorem fail_ne_ok {message : String} :
    (fail message : StateT σ (Except EmitError) α) state ≠ .ok result := by
  simp [fail]

@[simp] theorem withDiagnostic_eq_ok {pos : SourcePos} {action : StateT σ (Except EmitError) α} :
    withDiagnostic pos action state = .ok result ↔ action state = .ok result := by
  unfold withDiagnostic
  cases action state <;> simp

theorem exists_ok_of_check (result : Except EmitError (α × σ)) (check : σ → Bool)
    (hcheck : (match result with | .ok (_, final) => check final | .error _ => false) = true) :
    ∃ value final, result = .ok (value, final) ∧ check final = true := by
  cases result with
  | error error => simp at hcheck
  | ok pair => exact ⟨pair.1, pair.2, rfl, hcheck⟩

theorem unless_fail_run {condition : Prop} [Decidable condition] {message : String}
    {action : StateT σ (Except EmitError) α}
    (hrun : (do
      if condition then fail message
      action) state = .ok result) :
    ¬condition ∧ action state = .ok result := by
  by_cases hcondition : condition
  · rw [if_pos hcondition] at hrun
    obtain ⟨_, _, hfail, -⟩ := bind_eq_ok.mp hrun
    exact absurd hfail fail_ne_ok
  · rw [if_neg hcondition] at hrun
    exact ⟨hcondition, hrun⟩

end Inversion

section Runs

variable {emitter emitted : ExpressionEmitter} {symbol name : String} {args : List RuntimeCallArg}
  {value : Operand}

theorem emitRuntimeCall_run {type : String}
    (hrun : emitRuntimeCall type symbol args emitter = .ok (value, emitted)) :
    value = .named emitter.valueIndex ∧
      emitted = { emitter.declare (runtimeCallDeclaration symbol type args) with
        valueIndex := emitter.valueIndex + 1
        body := emitter.body ++ [.call emitter.valueIndex type symbol args] } := by
  simp only [emitRuntimeCall, nextValueName, addDeclaration, appendLines, bind_eq_ok,
    Except.ok.injEq, Prod.mk.injEq, pure_eq_ok] at hrun
  obtain ⟨_, _, ⟨rfl, rfl⟩, _, _, ⟨-, rfl⟩, _, _, ⟨-, rfl⟩, rfl, rfl⟩ := hrun
  exact ⟨rfl, rfl⟩

theorem emitRuntimeVoidCall_run {result : Unit}
    (hrun : emitRuntimeVoidCall symbol args emitter = .ok (result, emitted)) :
    emitted = { emitter.declare (runtimeCallDeclaration symbol "void" args) with
      body := emitter.body ++ [.voidCall symbol args] } := by
  simp only [emitRuntimeVoidCall, addDeclaration, appendLines, bind_eq_ok, Except.ok.injEq,
    Prod.mk.injEq] at hrun
  obtain ⟨_, _, ⟨-, rfl⟩, -, rfl⟩ := hrun
  rfl

theorem emitRuntimeLiteral_eq {literal : RuntimeLiteral}
    (hrun : emitRuntimeLiteral literal emitter = .ok (value, emitted)) :
    let lowered := lowerRuntimeLiteral emitter.valueIndex literal emitter.stringIndex
    value = .named emitter.valueIndex ∧ ∃ declaration, lowered.declarations = [declaration] ∧
      emitted = { emitter.declare declaration with
        valueIndex := emitter.valueIndex + 1
        stringIndex := emitter.stringIndex + lowered.globals.length
        globals := emitter.globals ++ lowered.globals
        body := emitter.body ++ lowered.body } := by
  have hdeclarations : ∃ declaration, (lowerRuntimeLiteral emitter.valueIndex literal
      emitter.stringIndex).declarations = [declaration] := by
    cases literal <;> exact ⟨_, rfl⟩
  obtain ⟨declaration, hdeclaration⟩ := hdeclarations
  simp only [emitRuntimeLiteral, nextValueName, bind_eq_ok, Except.ok.injEq, Prod.mk.injEq,
    pure_eq_ok, get_eq_ok, modify_eq_ok] at hrun
  obtain ⟨_, _, ⟨rfl, rfl⟩, _, _, ⟨rfl, rfl⟩, _, _, hforM, _, _, ⟨-, rfl⟩, rfl, rfl⟩ := hrun
  rw [hdeclaration] at hforM
  obtain ⟨_, _, hdeclare, hnil⟩ := bind_eq_ok.mp hforM
  cases hdeclare
  cases hnil
  exact ⟨rfl, declaration, hdeclaration, rfl⟩

theorem loadLocal_run (hrun : loadLocal name emitter = .ok (value, emitted)) :
    ∃ slot, emitter.locals name = some slot ∧ value = .named emitter.valueIndex ∧
      emitted = { emitter with
        valueIndex := emitter.valueIndex + 1
        body := emitter.body ++ [.load emitter.valueIndex slot] } := by
  unfold loadLocal at hrun
  cases hslot : emitter.locals name with
  | none => simp [hslot] at hrun
  | some slot =>
      simp only [hslot, nextValueName, appendLines, bind_eq_ok, Except.ok.injEq, Prod.mk.injEq,
        pure_eq_ok] at hrun
      obtain ⟨_, _, ⟨rfl, rfl⟩, _, _, ⟨-, rfl⟩, rfl, rfl⟩ := hrun
      exact ⟨slot, rfl, rfl, rfl⟩

theorem storeLocal_run {result : Unit}
    (hrun : storeLocal name value emitter = .ok (result, emitted)) :
    ∃ slot, emitter.locals name = some slot ∧
      emitted = { emitter with body := emitter.body ++ [.store value slot] } := by
  unfold storeLocal at hrun
  cases hslot : emitter.locals name with
  | none => simp [hslot] at hrun
  | some slot =>
      simp only [hslot, appendLines, Except.ok.injEq, Prod.mk.injEq] at hrun
      exact ⟨slot, rfl, hrun.2.symm⟩

theorem resolveLocal_run {target : AssignmentTarget}
    (hrun : resolveLocal name emitter = .ok (target, emitted)) :
    target = .localSlot name ∧ emitted = emitter := by
  simp only [resolveLocal, hasLocal, bind_eq_ok, Except.ok.injEq, Prod.mk.injEq] at hrun
  obtain ⟨_, _, ⟨rfl, rfl⟩, hrun⟩ := hrun
  split at hrun
  · obtain ⟨rfl, rfl⟩ := by simpa using hrun
    exact ⟨rfl, rfl⟩
  · exact absurd hrun fail_ne_ok

theorem ofExcept_run {result : Except EmitError α} {found : α}
    (hrun : ofExcept result emitter = .ok (found, emitted)) :
    result = .ok found ∧ emitted = emitter := by
  cases result with
  | error error => simp [ofExcept] at hrun
  | ok result =>
      obtain ⟨rfl, rfl⟩ := by simpa [ofExcept] using hrun
      exact ⟨rfl, rfl⟩

end Runs

/-! ## Emissions -/

def LocalsIn (available : Set Name) (emitter : ExpressionEmitter) : Prop :=
  ∀ name slot, emitter.locals name = some slot → Name.slot slot.index ∈ available

structure Restores (emitter emitted : ExpressionEmitter) : Prop where
  unscoped : emitter.scopes = [] → emitted.scopes = []
  restore : ∀ scope outer, emitter.scopes = scope :: outer → ∃ scope',
    emitted.scopes = scope' :: outer ∧
      scope'.restore emitted.locals = scope.restore emitter.locals

/-- Only an action that may declare locals changes them, and then in the innermost scope. -/
def Keeps : Bool → ExpressionEmitter → ExpressionEmitter → Prop
  | false, emitter, emitted =>
      emitted.locals = emitter.locals ∧ emitted.scopes = emitter.scopes
  | true, emitter, emitted => Restores emitter emitted

variable {emitter : ExpressionEmitter}

theorem Keeps.of_eq {declares : Bool} {emitted : ExpressionEmitter}
    (heq : emitted.locals = emitter.locals ∧ emitted.scopes = emitter.scopes) :
    Keeps declares emitter emitted := by
  cases declares with
  | false => exact heq
  | true =>
      refine ⟨fun hnil => heq.2.trans hnil, fun scope outer hscopes => ⟨scope, ?_, ?_⟩⟩
      · exact heq.2.trans hscopes
      · rw [heq.1]

theorem Keeps.trans {declares : Bool} {middle emitted : ExpressionEmitter}
    (hfirst : Keeps declares emitter middle) (hsecond : Keeps declares middle emitted) :
    Keeps declares emitter emitted := by
  cases declares with
  | false => exact ⟨hsecond.1.trans hfirst.1, hsecond.2.trans hfirst.2⟩
  | true =>
      refine ⟨fun hnil => hsecond.unscoped (hfirst.unscoped hnil), fun scope outer hscopes => ?_⟩
      obtain ⟨scope', hmiddle, hrestore⟩ := hfirst.restore scope outer hscopes
      obtain ⟨scope'', hfinal, hrestore'⟩ := hsecond.restore scope' outer hmiddle
      exact ⟨scope'', hfinal, hrestore'.trans hrestore⟩

theorem Keeps.restores {declares : Bool} {emitted : ExpressionEmitter}
    (hkeeps : Keeps declares emitter emitted) : Keeps true emitter emitted := by
  cases declares with
  | false => exact .of_eq hkeeps
  | true => exact hkeeps

/-- `emitted` is `emitter` with the lines of a fragment appended. -/
structure Emission (declares : Bool) (available : Set Name) (emitter : ExpressionEmitter)
    (fragment : Fragment) (emitted : ExpressionEmitter) : Prop where
  body : emitted.body = emitter.body ++ fragment.lines
  numbered : Numbered emitter.counters fragment emitted.counters
  closed : fragment.Closed available
  localsIn : LocalsIn (available ∪ fragment.exports) emitted
  keeps : Keeps declares emitter emitted
  plan : emitted.lifetimePlan = emitter.lifetimePlan

def Operand.In (available : Set Name) (value : Operand) : Prop :=
  ∀ name ∈ value.names, name ∈ available

/-- Whenever the action succeeds it has emitted a fragment, and its result with that fragment is as
`post` says. -/
def Emits (declares : Bool) (available : Set Name) (action : ExprM α)
    (post : α → Fragment → Prop) : Prop :=
  ∀ emitter value emitted, LocalsIn available emitter → action emitter = .ok (value, emitted) →
    ∃ fragment, Emission declares available emitter fragment emitted ∧ post value fragment

variable {declares : Bool} {available : Set Name}

theorem Operand.In.mono {larger : Set Name} {value : Operand} (hvalue : value.In available)
    (hsub : available ⊆ larger) : value.In larger :=
  fun name hname => hsub (hvalue name hname)

theorem LocalsIn.mono {larger : Set Name} (hlocals : LocalsIn available emitter)
    (hsub : available ⊆ larger) :
    LocalsIn larger emitter :=
  fun name slot hslot => hsub (hlocals name slot hslot)

theorem LocalsIn.congr {other : ExpressionEmitter} (hlocals : LocalsIn available emitter)
    (heq : other.locals = emitter.locals) : LocalsIn available other :=
  fun name slot hslot => hlocals name slot (heq ▸ hslot)

namespace Emission

theorem nil {emitter : ExpressionEmitter} (hlocals : LocalsIn available emitter) :
    Emission declares available emitter .nil emitter where
  body := by simp [Fragment.lines]
  numbered := .nil
  closed := trivial
  localsIn := by simpa [Fragment.exports] using hlocals
  keeps := .of_eq ⟨rfl, rfl⟩
  plan := rfl

theorem seq {emitter middle final : ExpressionEmitter} {first second : Fragment}
    (hfirst : Emission declares available emitter first middle)
    (hsecond : Emission declares (available ∪ first.exports) middle second final) :
    Emission declares available emitter (.seq first second) final where
  body := by rw [hsecond.body, hfirst.body, Fragment.lines, List.append_assoc]
  numbered := .seq hfirst.numbered hsecond.numbered
  closed := ⟨hfirst.closed, hsecond.closed⟩
  localsIn := by simpa [Fragment.exports, Set.union_assoc] using hsecond.localsIn
  keeps := hfirst.keeps.trans hsecond.keeps
  plan := hsecond.plan.trans hfirst.plan

theorem declaring {emitter emitted : ExpressionEmitter} {fragment : Fragment}
    (hemission : Emission false available emitter fragment emitted) :
    Emission declares available emitter fragment emitted :=
  { hemission with keeps := .of_eq hemission.keeps }

end Emission

namespace Emits

variable {action : ExprM α} {post : α → Fragment → Prop}

theorem mono {weaker : α → Fragment → Prop} (haction : Emits declares available action post)
    (hpost : ∀ value fragment, post value fragment → weaker value fragment) :
    Emits declares available action weaker := by
  intro emitter value emitted hlocals hrun
  obtain ⟨fragment, hemission, hvalue⟩ := haction emitter value emitted hlocals hrun
  exact ⟨fragment, hemission, hpost value fragment hvalue⟩

theorem declaring (haction : Emits false available action post) :
    Emits declares available action post := by
  intro emitter value emitted hlocals hrun
  obtain ⟨fragment, hemission, hvalue⟩ := haction emitter value emitted hlocals hrun
  exact ⟨fragment, hemission.declaring, hvalue⟩

theorem pure {value : α} (hpost : post value .nil) :
    Emits declares available (pure value) post := by
  intro emitter result emitted hlocals hrun
  simp only [pure_eq_ok, Prod.mk.injEq] at hrun
  obtain ⟨rfl, rfl⟩ := hrun
  exact ⟨.nil, .nil hlocals, hpost⟩

theorem bind {next : α → ExprM β} {middle : α → Fragment → Prop} {post : β → Fragment → Prop}
    (haction : Emits declares available action middle) (hnext : ∀ value first, middle value first →
      Emits declares (available ∪ first.exports) (next value) fun result second =>
        post result (.seq first second)) :
    Emits declares available (action >>= next) post := by
  intro emitter result emitted hlocals hrun
  obtain ⟨value, between, hfirst, hsecond⟩ := bind_eq_ok.mp hrun
  obtain ⟨first, hemission, hmiddle⟩ := haction _ _ _ hlocals hfirst
  obtain ⟨second, hemission', hpost⟩ :=
    hnext value first hmiddle _ _ _ hemission.localsIn hsecond
  exact ⟨.seq first second, hemission.seq hemission', hpost⟩

theorem fail {message : String} :
    Emits declares available (fail message) post :=
  fun _ _ _ _ hrun => absurd hrun fail_ne_ok

theorem withDiagnostic {pos : SourcePos} (haction : Emits declares available action post) :
    Emits declares available (withDiagnostic pos action) post :=
  fun emitter value emitted hlocals hrun =>
    haction emitter value emitted hlocals (withDiagnostic_eq_ok.mp hrun)

theorem get {next : ExpressionEmitter → ExprM β} {post : β → Fragment → Prop}
    (hnext : ∀ emitter, Emits declares available (next emitter) post) :
    Emits declares available (get >>= next) post := by
  intro emitter result emitted hlocals hrun
  obtain ⟨value, middle, hget, hsecond⟩ := bind_eq_ok.mp hrun
  obtain ⟨rfl, rfl⟩ := by simpa only [get_eq_ok, Prod.mk.injEq] using hget
  exact hnext emitter emitter result emitted hlocals hsecond

end Emits

end Jayess.Backend
