import Jayess.Backend.Emission

/-!
# The specification of the expression emitter

One rule for each function of the expression emitter, up to `emitExpression_emits`: emitting an
expression appends a fragment whose shape is that of the expression and whose value is available
after it.
-/

namespace Jayess.Backend

variable {declares : Bool} {available : Set Name}

def Gives {α : Type} (ready : α → Set Name → Prop) (available : Set Name) (shape : Shape) (value : α)
    (fragment : Fragment) : Prop :=
  ready value (available ∪ fragment.exports) ∧ fragment.shape = shape

def ValueIn (value : Operand) (available : Set Name) : Prop := value.In available

abbrev EmitsValue (available : Set Name) (shape : Shape) (action : ExprM Operand) : Prop :=
  Emits false available action (Gives ValueIn available shape)

abbrev EmitsLines (available : Set Name) (shape : Shape) (action : ExprM Unit) : Prop :=
  Emits false available action (Gives (fun _ _ => True) available shape)

variable {α : Type} {shape targetShape leftShape rightShape : Shape}
    {emitter emitted : ExpressionEmitter} {line : Line} {args : List RuntimeCallArg}
    {value : Operand} {symbol name property : String} {target : AssignmentTarget}
    {isPrivate optional : Bool} {emitTarget emitLeft emitRight emitValue : ExprM Operand}
    {operand : Expression} {emitArgs : ExprM (List RuntimeCallArg)}
    {emitThisAndRest : ExprM (Operand × Operand)}

theorem Emits.step {β : Type} {action : ExprM α} {next : α → ExprM β} {ready : α → Set Name → Prop}
    {ready' : β → Set Name → Prop} {shape' : Shape}
    (haction : Emits declares available action (Gives ready available shape))
    (hnext : ∀ (larger : Set Name) value, available ⊆ larger → ready value larger →
      Emits declares larger (next value) (Gives ready' larger shape')) :
    Emits declares available (action >>= next)
      (Gives ready' available (shape.append shape')) := by
  refine haction.bind fun value first hfirst => ?_
  refine (hnext _ value Set.subset_union_left hfirst.1).mono fun result second hsecond => ?_
  refine ⟨?_, by rw [Fragment.shape, hfirst.2, hsecond.2]⟩
  simpa only [Fragment.exports, Set.union_assoc] using hsecond.1

theorem Emits.done {ready : α → Set Name → Prop} {value : α} (hvalue : ready value available) :
    Emits declares available (Pure.pure value) (Gives ready available .straight) :=
  .pure ⟨by simpa [Fragment.exports] using hvalue, rfl⟩

theorem emission_define (hlocals : LocalsIn available emitter) (hplain : line.isPlain)
    (hdefs : line.defs = [.value emitter.valueIndex]) (huses : ∀ name ∈ line.uses, name ∈ available)
    (hbody : emitted.body = emitter.body ++ [line]) (hcounters : emitted.counters =
      { emitter.counters with value := emitter.counters.value + 1 })
    (hkeeps : emitted.locals = emitter.locals ∧ emitted.scopes = emitter.scopes)
    (hplan : emitted.lifetimePlan = emitter.lifetimePlan) :
    Emission declares available emitter (.plain line) emitted where
  body := hbody
  numbered := hcounters ▸ .define hplain hdefs
  closed := huses
  localsIn := fun name slot hslot => Or.inl (hlocals name slot (hkeeps.1 ▸ hslot))
  keeps := .of_eq hkeeps
  plan := hplan

theorem emission_act (hlocals : LocalsIn available emitter) (hplain : line.isPlain)
    (hdefs : line.defs = []) (huses : ∀ name ∈ line.uses, name ∈ available)
    (hbody : emitted.body = emitter.body ++ [line])
    (hcounters : emitted.counters = emitter.counters)
    (hkeeps : emitted.locals = emitter.locals ∧ emitted.scopes = emitter.scopes)
    (hplan : emitted.lifetimePlan = emitter.lifetimePlan) :
    Emission declares available emitter (.plain line) emitted where
  body := hbody
  numbered := hcounters ▸ .act hplain hdefs
  closed := huses
  localsIn := fun name slot hslot => Or.inl (hlocals name slot (hkeeps.1 ▸ hslot))
  keeps := .of_eq hkeeps
  plan := hplan

theorem gives_define {index : Nat} (hdefs : line.defs = [.value index]) :
    Gives ValueIn available .straight (.named index) (.plain line) := by
  refine ⟨fun name hname => Or.inr ?_, rfl⟩
  simpa [Fragment.exports, hdefs, Operand.names] using hname

def ArgsIn (available : Set Name) (args : List RuntimeCallArg) : Prop :=
  ∀ arg ∈ args, arg.value.In available

theorem ArgsIn.uses (hargs : ArgsIn available args) :
    ∀ name ∈ args.flatMap fun arg => arg.value.names, name ∈ available := by
  intro name hname
  obtain ⟨arg, harg, hname⟩ := List.mem_flatMap.mp hname
  exact hargs arg harg name hname

@[simp] theorem argsIn_nil : ArgsIn available [] := by simp [ArgsIn]

@[simp] theorem argsIn_cons {arg : RuntimeCallArg} :
    ArgsIn available (arg :: args) ↔ arg.value.In available ∧ ArgsIn available args := by
  simp [ArgsIn]

@[simp] theorem valueArg_value (value : Operand) : (valueArg value).value = value := rfl

theorem argsIn_singleton (hvalue : value.In available) :
    ArgsIn available [valueArg value] :=
  argsIn_cons.mpr ⟨hvalue, argsIn_nil⟩

theorem Operand.In.constant (hvalue : value.names = []) : value.In available := by
  simp [Operand.In, hvalue]

theorem emitRuntimeCall_emits {resultType : String} (hargs : ArgsIn available args) :
    EmitsValue available .straight (emitRuntimeCall resultType symbol args) := by
  intro emitter value emitted hlocals hrun
  obtain ⟨rfl, rfl⟩ := emitRuntimeCall_run hrun
  exact ⟨.plain (.call emitter.valueIndex resultType symbol args),
    emission_define hlocals rfl rfl hargs.uses rfl rfl ⟨rfl, rfl⟩ rfl, gives_define rfl⟩

theorem emitRuntimeVoidCall_emits (hargs : ArgsIn available args) :
    EmitsLines available .straight (emitRuntimeVoidCall symbol args) := by
  intro emitter value emitted hlocals hrun
  obtain rfl := emitRuntimeVoidCall_run hrun
  exact ⟨.plain (.voidCall symbol args),
    emission_act hlocals rfl rfl hargs.uses rfl rfl ⟨rfl, rfl⟩ rfl, trivial, rfl⟩

theorem emitRuntimeUnaryValue_emits (hvalue : value.In available) :
    EmitsValue available .straight (emitRuntimeUnaryValue symbol value) :=
  emitRuntimeCall_emits (by simpa using hvalue)

theorem emitRuntimeBinaryValue_emits {left right : Operand} (hleft : left.In available)
    (hright : right.In available) :
    EmitsValue available .straight (emitRuntimeBinaryValue symbol left right) :=
  emitRuntimeCall_emits (by simpa using ⟨hleft, hright⟩)

theorem emitTruthiness_emits (hvalue : value.In available) :
    EmitsValue available .straight (emitTruthiness value) :=
  emitRuntimeCall_emits (by simpa using hvalue)

theorem emitNullishCheck_emits (hvalue : value.In available) :
    EmitsValue available .straight (emitNullishCheck value) :=
  emitRuntimeCall_emits (by simpa using hvalue)

theorem lowerRuntimeLiteral_body (result : Nat) (literal : RuntimeLiteral) (stringIndex : Nat) :
    ∃ symbol args, ArgsIn ∅ args ∧
      let call := Line.call result runtimeValueIRType symbol args
      let body := (lowerRuntimeLiteral result literal stringIndex).body
      body = [call] ∨ body = [call, .legacyCall result runtimeValueIRType symbol args] := by
  cases literal with
  | number value =>
      exact ⟨"jayess_value_from_number", [⟨"double", .double value⟩],
        by simp [Operand.In, Operand.names], Or.inr rfl⟩
  | _ => exact ⟨_, _, by simp [Operand.In, Operand.names], Or.inl rfl⟩

theorem emitRuntimeLiteral_run {literal : RuntimeLiteral}
    (hrun : emitRuntimeLiteral literal emitter = .ok (value, emitted)) :
    value = .named emitter.valueIndex ∧
      emitted.body = emitter.body ++
        (lowerRuntimeLiteral emitter.valueIndex literal emitter.stringIndex).body ∧
      emitted.counters = { emitter.counters with value := emitter.counters.value + 1 } ∧
      (emitted.locals = emitter.locals ∧ emitted.scopes = emitter.scopes) ∧
      emitted.lifetimePlan = emitter.lifetimePlan := by
  obtain ⟨rfl, declaration, -, rfl⟩ := emitRuntimeLiteral_eq hrun
  exact ⟨rfl, rfl, rfl, ⟨rfl, rfl⟩, rfl⟩

theorem emitRuntimeLiteral_emits (literal : RuntimeLiteral) :
    EmitsValue available .straight (emitRuntimeLiteral literal) := by
  intro emitter value emitted hlocals hrun
  obtain ⟨rfl, hbody, hcounters, hkeeps, hplan⟩ := emitRuntimeLiteral_run hrun
  obtain ⟨symbol, args, hargs, hlines⟩ :=
    lowerRuntimeLiteral_body emitter.valueIndex literal emitter.stringIndex
  have huses : ∀ name ∈ args.flatMap fun arg => arg.value.names, name ∈ available :=
    fun name hname => absurd (hargs.uses name hname) (Set.notMem_empty name)
  rcases hlines with hlines | hlines
  · refine ⟨.plain (.call emitter.valueIndex runtimeValueIRType symbol args), ?_, gives_define rfl⟩
    exact emission_define hlocals rfl rfl huses (hlines ▸ hbody) hcounters hkeeps hplan
  · set call := Line.call emitter.valueIndex runtimeValueIRType symbol args with hcall
    set comment := Line.legacyCall emitter.valueIndex runtimeValueIRType symbol args with hcomment
    refine ⟨.seq (.plain call) (.plain comment), ⟨?_, ?_, ⟨huses, ?_⟩, ?_, ?_, hplan⟩, ?_, rfl⟩
    · rw [hbody, hlines]
      rfl
    · exact .seq (.define rfl rfl) (hcounters ▸ .act rfl rfl)
    · simp [hcomment, Fragment.Closed, Line.uses]
    · exact fun name slot hslot => Or.inl (hlocals name slot (hkeeps.1 ▸ hslot))
    · exact .of_eq hkeeps
    · intro name hname
      exact Or.inr (Or.inl (by simpa [hcall, Fragment.exports, Line.defs, Operand.names] using hname))

theorem emitRuntimeUndefined_emits : EmitsValue available .straight emitRuntimeUndefined :=
  emitRuntimeLiteral_emits _

theorem emitRuntimeString_emits {value : String} :
    EmitsValue available .straight (emitRuntimeString value) :=
  emitRuntimeLiteral_emits _

theorem loadLocal_emits : EmitsValue available .straight (loadLocal name) := by
  intro emitter value emitted hlocals hrun
  obtain ⟨slot, hslot, rfl, rfl⟩ := loadLocal_run hrun
  exact ⟨.plain (.load emitter.valueIndex slot),
    emission_define hlocals rfl rfl (by simpa [Line.uses] using hlocals name slot hslot) rfl rfl
      ⟨rfl, rfl⟩ rfl,
    gives_define rfl⟩

theorem storeLocal_emits (hvalue : value.In available) :
    EmitsLines available .straight (storeLocal name value) := by
  intro emitter result emitted hlocals hrun
  obtain ⟨slot, hslot, rfl⟩ := storeLocal_run hrun
  refine ⟨.plain (.store value slot), emission_act hlocals rfl rfl ?_ rfl rfl ⟨rfl, rfl⟩ rfl,
    trivial, rfl⟩
  simpa [Line.uses] using ⟨hlocals name slot hslot, hvalue⟩

def TargetIn (target : AssignmentTarget) (available : Set Name) : Prop :=
  match target with
  | .localSlot _ => True
  | .runtimeSet _ _ _ object key => object.In available ∧ key.In available

theorem TargetIn.mono {larger : Set Name} (htarget : TargetIn target available)
    (hsub : available ⊆ larger) : TargetIn target larger := by
  cases target with
  | localSlot name => trivial
  | runtimeSet getter setter deleter object key =>
      exact ⟨htarget.1.mono hsub, htarget.2.mono hsub⟩

theorem load_emits (htarget : TargetIn target available) :
    EmitsValue available .straight target.load := by
  cases target with
  | localSlot name => exact loadLocal_emits
  | runtimeSet getter setter deleter object key =>
      exact emitRuntimeBinaryValue_emits htarget.1 htarget.2

theorem store_emits (htarget : TargetIn target available) (hvalue : value.In available) :
    EmitsLines available .straight (target.store value) := by
  cases target with
  | localSlot name => exact storeLocal_emits hvalue
  | runtimeSet getter setter deleter object key =>
      exact emitRuntimeVoidCall_emits (by simpa using ⟨htarget.1, htarget.2, hvalue⟩)

theorem delete_emits (htarget : TargetIn target available) :
    EmitsValue available .straight target.delete := by
  cases target with
  | localSlot name => exact .fail
  | runtimeSet getter setter deleter object key =>
      exact emitRuntimeBinaryValue_emits htarget.1 htarget.2

abbrev EmitsTarget (available : Set Name) (shape : Shape) (action : ExprM AssignmentTarget) :
    Prop :=
  Emits false available action (Gives TargetIn available shape)

theorem resolveLocal_emits : EmitsTarget available .straight (resolveLocal name) := by
  intro emitter target emitted hlocals hrun
  obtain ⟨rfl, rfl⟩ := resolveLocal_run hrun
  exact ⟨.nil, .nil hlocals, trivial, rfl⟩

theorem Emits.unless_fail {condition : Prop} [Decidable condition] {message : String}
    {action : ExprM α} {post : α → Fragment → Prop} (haction : Emits declares available action post)
    :
    Emits declares available (do
      if condition then Backend.fail message
      action) post := by
  intro emitter value emitted hlocals hrun
  exact haction _ _ _ hlocals (unless_fail_run hrun).2

theorem resolveMember_emits (htarget : ∀ available, EmitsValue available shape emitTarget) :
    EmitsTarget available shape (resolveMember isPrivate optional emitTarget property) := by
  refine .unless_fail (.unless_fail ?_)
  rw [← shape.append_straight]
  refine (htarget available).step fun larger object hsub hobject => ?_
  rw [← Shape.straight.append_straight]
  refine emitRuntimeString_emits.step fun larger' key hsub' hkey => ?_
  exact .done ⟨hobject.mono hsub', hkey⟩

theorem resolveIndex_emits {emitIndex : ExprM Operand} {indexShape : Shape}
    (htarget : ∀ available, EmitsValue available targetShape emitTarget)
    (hindex : ∀ available, EmitsValue available indexShape emitIndex) :
    EmitsTarget available (targetShape.append indexShape)
      (resolveIndex optional emitTarget emitIndex) := by
  refine .unless_fail ?_
  refine (htarget available).step fun larger object hsub hobject => ?_
  rw [← indexShape.append_straight]
  refine (hindex larger).step fun larger' key hsub' hkey => ?_
  exact .done ⟨hobject.mono hsub', hkey⟩

/-- `captured` is the code of a fragment taken back off the body of `emitted`. -/
structure Captured (available : Set Name) (emitter : ExpressionEmitter)
    (captured : CapturedExpression) (fragment : Fragment) (emitted : ExpressionEmitter) : Prop where
  lines : captured.lines = fragment.lines
  body : emitted.body = emitter.body
  numbered : Numbered emitter.counters fragment emitted.counters
  closed : fragment.Closed available
  value : captured.value.In (available ∪ fragment.exports)
  keeps : emitted.locals = emitter.locals ∧ emitted.scopes = emitter.scopes
  plan : emitted.lifetimePlan = emitter.lifetimePlan

theorem captureExpression_captured {emit : ExprM Operand} {captured : CapturedExpression}
    (hemit : EmitsValue available shape emit) (hlocals : LocalsIn available emitter)
    (hrun : captureExpression emit emitter = .ok (captured, emitted)) :
    ∃ fragment, Captured available emitter captured fragment emitted ∧ fragment.shape = shape := by
  unfold captureExpression at hrun
  split at hrun
  · simp at hrun
  · rename_i value middle hmiddle
    obtain ⟨fragment, hemission, hvalue, hshape⟩ := hemit _ _ _ hlocals hmiddle
    obtain ⟨rfl, rfl⟩ := by simpa using hrun
    refine ⟨fragment, ⟨?_, ?_, hemission.numbered, hemission.closed, hvalue, hemission.keeps,
      hemission.plan⟩, hshape⟩
    · simp [hemission.body]
    · simp [hemission.body]

theorem captured_nil (hvalue : value.In available) :
    Captured available emitter ⟨[], value⟩ .nil emitter where
  lines := rfl
  body := rfl
  numbered := .nil
  closed := trivial
  value := hvalue.mono Set.subset_union_left
  keeps := ⟨rfl, rfl⟩
  plan := rfl

theorem Captured.localsIn {captured : CapturedExpression} {fragment : Fragment}
    (hcaptured : Captured available emitter captured fragment emitted)
    (hlocals : LocalsIn available emitter) : LocalsIn available emitted :=
  fun name slot hslot => hlocals name slot (hcaptured.keeps.1 ▸ hslot)

theorem emitCapturedBranchValue_emission {stem : String} {condition : Operand}
    {trueBranch falseBranch : CapturedExpression} {onTrue onFalse : Fragment}
    {middle final : ExpressionEmitter} (hlocals : LocalsIn available emitter)
    (hcondition : condition.In available)
    (htrue : Captured available emitter trueBranch onTrue middle)
    (hfalse : Captured available middle falseBranch onFalse final)
    (hrun : emitCapturedBranchValue stem condition trueBranch falseBranch final =
      .ok (value, emitted)) :
    ∃ fragment, Emission false available emitter fragment emitted ∧
      Gives ValueIn available (.branch onTrue.shape onFalse.shape) value fragment := by
  simp only [emitCapturedBranchValue, nextBlockLabel, nextValueName, appendLines, bind_eq_ok,
    Except.ok.injEq, Prod.mk.injEq, pure_eq_ok] at hrun
  obtain ⟨trueLabel, _, ⟨htrueLabel, rfl⟩, falseLabel, _, ⟨hfalseLabel, rfl⟩, endLabel, _,
    ⟨hendLabel, rfl⟩, result, _, ⟨rfl, rfl⟩, _, _, ⟨-, rfl⟩, _, _, ⟨-, rfl⟩, _, _, ⟨-, rfl⟩, _, _,
    ⟨-, rfl⟩, _, _, ⟨-, rfl⟩, rfl, rfl⟩ := hrun
  let frame : BranchFrame :=
    ⟨condition, trueLabel, falseLabel, endLabel, final.valueIndex, trueBranch.value,
      falseBranch.value⟩
  refine ⟨.branch frame onTrue onFalse, ⟨?_, ?_, ?_, ?_, ?_, ?_⟩, ?_, rfl⟩
  · simp [frame, Fragment.lines, htrue.lines, hfalse.lines, hfalse.body, htrue.body]
  · refine .branch htrue.numbered hfalse.numbered ?_ ?_ ?_ rfl
    · simp [frame, ← htrueLabel, ExpressionEmitter.counters]
    · simp [frame, ← hfalseLabel, ExpressionEmitter.counters]
    · simp [frame, ← hendLabel, ExpressionEmitter.counters]
  · exact ⟨hcondition, htrue.closed, hfalse.closed, htrue.value, hfalse.value⟩
  · intro name slot hslot
    exact Or.inl (hfalse.localsIn (htrue.localsIn hlocals) name slot hslot)
  · exact ⟨hfalse.keeps.1.trans htrue.keeps.1, hfalse.keeps.2.trans htrue.keeps.2⟩
  · exact hfalse.plan.trans htrue.plan
  · intro name hname
    rw [Operand.names, List.mem_singleton] at hname
    exact Or.inr hname

theorem emitConditionalExpression_emits {emitCondition emitConsequent emitAlternative : ExprM Operand}
    {conditionShape consequentShape alternativeShape : Shape}
    (hcondition : ∀ available, EmitsValue available conditionShape emitCondition)
    (hconsequent : ∀ available, EmitsValue available consequentShape emitConsequent)
    (halternative : ∀ available, EmitsValue available alternativeShape emitAlternative) :
    EmitsValue available (conditionShape.append (.branch consequentShape alternativeShape))
      (emitConditionalExpression emitCondition emitConsequent emitAlternative) := by
  refine (hcondition available).step fun larger conditionValue hsub hconditionValue => ?_
  rw [← Shape.straight_append (.branch _ _)]
  refine (emitTruthiness_emits hconditionValue).step fun larger condition hsub hcondition => ?_
  intro emitter value emitted hlocals hrun
  obtain ⟨trueBranch, middle, htrueRun, hrun⟩ := bind_eq_ok.mp hrun
  obtain ⟨falseBranch, final, hfalseRun, hrun⟩ := bind_eq_ok.mp hrun
  obtain ⟨onTrue, htrue, rfl⟩ := captureExpression_captured (hconsequent larger) hlocals htrueRun
  obtain ⟨onFalse, hfalse, rfl⟩ :=
    captureExpression_captured (halternative larger) (htrue.localsIn hlocals) hfalseRun
  exact emitCapturedBranchValue_emission hlocals hcondition htrue hfalse hrun

theorem Shape.branch_comm (left right : Shape) : left.branch right = right.branch left := by
  simp only [Shape.branch, Shape.mk.injEq, true_and]
  grind

theorem emitLogicalExpression_emits {operator : LogicalOperator}
    (hleft : ∀ available, EmitsValue available leftShape emitLeft)
    (hright : ∀ available, EmitsValue available rightShape emitRight) :
    EmitsValue available (leftShape.append (.branch rightShape .straight))
      (emitLogicalExpression operator emitLeft emitRight) := by
  refine (hleft available).step fun larger left hsub hleftValue => ?_
  rw [← Shape.straight_append (.branch _ _)]
  refine (emitTruthiness_emits hleftValue).step fun larger condition hsub hcondition => ?_
  intro emitter value emitted hlocals hrun
  obtain ⟨rightBranch, middle, hrightRun, hrun⟩ := bind_eq_ok.mp hrun
  obtain ⟨fragment, hcaptured, rfl⟩ := captureExpression_captured (hright larger) hlocals hrightRun
  cases operator with
  | and =>
      exact emitCapturedBranchValue_emission hlocals hcondition hcaptured
        (captured_nil (hleftValue.mono hsub)) hrun
  | or =>
      rw [Shape.branch_comm]
      exact emitCapturedBranchValue_emission hlocals hcondition
        (captured_nil (hleftValue.mono hsub)) hcaptured hrun

theorem emitNullishCoalesceExpression_emits
    (hleft : ∀ available, EmitsValue available leftShape emitLeft)
    (hright : ∀ available, EmitsValue available rightShape emitRight) :
    EmitsValue available (leftShape.append (.branch rightShape .straight))
      (emitNullishCoalesceExpression emitLeft emitRight) := by
  refine (hleft available).step fun larger left hsub hleftValue => ?_
  rw [← Shape.straight_append (.branch _ _)]
  refine (emitNullishCheck_emits hleftValue).step fun larger condition hsub hcondition => ?_
  intro emitter value emitted hlocals hrun
  obtain ⟨rightBranch, middle, hrightRun, hrun⟩ := bind_eq_ok.mp hrun
  obtain ⟨fragment, hcaptured, rfl⟩ := captureExpression_captured (hright larger) hlocals hrightRun
  exact emitCapturedBranchValue_emission hlocals hcondition hcaptured
    (captured_nil (hleftValue.mono hsub)) hrun

theorem ofExcept_emits {result : Except EmitError α} :
    Emits declares available (ofExcept result) (Gives (fun _ _ => True) available .straight) := by
  intro emitter value emitted hlocals hrun
  obtain ⟨-, rfl⟩ := ofExcept_run hrun
  exact ⟨.nil, .nil hlocals, trivial, rfl⟩

theorem emitDeleteExpression_emits {resolve : ExprM AssignmentTarget}
    (hresolve : ∀ available, EmitsTarget available shape resolve)
    (hvalue : ∀ available, EmitsValue available shape emitValue) :
    EmitsValue available shape (emitDeleteExpression resolve emitValue) := by
  intro emitter value emitted hlocals hrun
  unfold emitDeleteExpression at hrun
  rw [← shape.append_straight]
  split at hrun
  · rename_i target resolved hresolved
    have hdelete := (hresolve available).step fun larger target _ htarget => delete_emits htarget
    exact hdelete emitter value emitted hlocals (bind_eq_ok.mpr ⟨_, _, hresolved, hrun⟩)
  · exact (hvalue available).step (fun larger value _ hvalue => emitRuntimeUnaryValue_emits hvalue)
      emitter value emitted hlocals hrun

theorem emitBigIntBitNotExpression_emits :
    EmitsValue available .straight (emitBigIntBitNotExpression operand) := by
  unfold emitBigIntBitNotExpression
  split
  · split
    · exact emitRuntimeLiteral_emits _
    · exact fun _ _ _ _ hrun => by simp [ofExcept] at hrun
  · exact .fail

theorem emitNumericUnaryExpression_emits {operator : UnaryOperator} :
    EmitsValue available .straight (emitNumericUnaryExpression operator operand) := by
  unfold emitNumericUnaryExpression
  split
  · split
    · exact emitRuntimeLiteral_emits _
    · exact .fail
  · exact .fail

theorem emitNegateExpression_emits :
    EmitsValue available .straight (emitNegateExpression operand) := by
  unfold emitNegateExpression
  split
  · split
    · exact emitRuntimeLiteral_emits _
    · exact fun _ _ _ _ hrun => by simp [ofExcept] at hrun
  · exact emitNumericUnaryExpression_emits

theorem emitBooleanNotExpression_emits :
    EmitsValue available .straight (emitBooleanNotExpression operand) := by
  unfold emitBooleanNotExpression
  split
  · exact emitRuntimeLiteral_emits _
  · exact .fail

theorem emitVoidExpression_emits (hvalue : EmitsValue available shape emitValue) :
    EmitsValue available shape (emitVoidExpression emitValue) := by
  rw [← shape.append_straight]
  exact hvalue.step fun larger value _ _ => emitRuntimeUndefined_emits

theorem emitUpdateExpression_emits {operator : UpdateOperator} {isPrefix : Bool}
    {resolve : ExprM AssignmentTarget} (hresolve : EmitsTarget available shape resolve) :
    EmitsValue available shape (emitUpdateExpression operator isPrefix resolve) := by
  rw [← shape.append_straight]
  refine hresolve.step fun larger target _ htarget => ?_
  rw [← Shape.straight.append_straight]
  refine (load_emits htarget).step fun loaded previous hloaded hprevious => ?_
  rw [← Shape.straight.append_straight]
  refine (emitRuntimeUnaryValue_emits hprevious).step fun updated next hupdated hnext => ?_
  rw [← Shape.straight.append_straight]
  have htarget' := htarget.mono (hloaded.trans hupdated)
  refine (store_emits htarget' hnext).step fun stored _ hstored _ => .done ?_
  cases isPrefix with
  | true => exact hnext.mono hstored
  | false => exact hprevious.mono (hupdated.trans hstored)

theorem emitBinaryExpression_emits {operator : BinaryOperator} {left right : Expression} :
    EmitsValue available .straight (emitBinaryExpression operator left right) := by
  rw [← Shape.straight.append_straight]
  exact ofExcept_emits.step fun larger literal _ _ => emitRuntimeLiteral_emits literal

theorem emitBinaryOperands_emits (hleft : ∀ available, EmitsValue available leftShape emitLeft)
    (hright : ∀ available, EmitsValue available rightShape emitRight) :
    EmitsValue available (leftShape.append rightShape)
      (emitBinaryOperands symbol emitLeft emitRight) := by
  refine (hleft available).step fun larger left hsub hleft => ?_
  rw [← rightShape.append_straight]
  refine (hright larger).step fun larger' right hsub' hright => ?_
  exact emitRuntimeBinaryValue_emits (hleft.mono hsub') hright

theorem emitTypeofExpression_emits (hvalue : EmitsValue available shape emitValue) :
    EmitsValue available shape (emitTypeofExpression emitValue) := by
  rw [← shape.append_straight]
  exact hvalue.step fun larger value _ hvalue => emitRuntimeUnaryValue_emits hvalue

theorem emitFoldedComparison_emits {operator : ComparisonOperator} {left right : Expression}
    (hoperator : operator ≠ .in) :
    EmitsValue available .straight
      (emitComparisonExpression operator left right emitLeft emitRight) := by
  rw [← Shape.straight.append_straight]
  cases operator with
  | «in» => exact absurd rfl hoperator
  | _ => exact ofExcept_emits.step fun larger value _ _ => emitRuntimeLiteral_emits _

theorem emitMemberExpression_emits {target : Expression}
    (htarget : ∀ available, EmitsValue available target.shape emitTarget) :
    EmitsValue available target.shape
      (emitMemberExpression target property isPrivate optional emitTarget) := by
  refine .get fun emitter => ?_
  split
  · rename_i symbol hsymbol
    have hstraight : target.shape = .straight := by
      cases target <;> simp_all [stdlibPropertySymbol, stdlibMemberModule, Expression.shape]
    rw [hstraight]
    exact emitRuntimeCall_emits (by simp)
  · rw [← target.shape.append_straight]
    exact (resolveMember_emits htarget).step fun larger target _ htarget => load_emits htarget

theorem emitIndexExpression_emits {emitIndex : ExprM Operand} {indexShape : Shape}
    (htarget : ∀ available, EmitsValue available targetShape emitTarget)
    (hindex : ∀ available, EmitsValue available indexShape emitIndex) :
    EmitsValue available (targetShape.append indexShape)
      (emitIndexExpression optional emitTarget emitIndex) := by
  rw [← Shape.append_straight (targetShape.append indexShape)]
  exact (resolveIndex_emits htarget hindex).step fun larger target _ htarget => load_emits htarget

/-! ## Objects, arrays, calls and functions -/

theorem emitRuntimeArrayNew_emits : EmitsValue available .straight emitRuntimeArrayNew :=
  emitRuntimeCall_emits (by simp)

abbrev EmitsInto (available : Set Name) (shape : Shape) (emitAll : Operand → ExprM Unit) : Prop :=
  ∀ target : Operand, target.In available → EmitsLines available shape (emitAll target)

theorem emitFilled_emits {emitNew : ExprM Operand} {emitAll : Operand → ExprM Unit}
    (hnew : EmitsValue available .straight emitNew)
    (hall : ∀ available, EmitsInto available shape emitAll) :
    EmitsValue available shape (do
      let target ← emitNew
      emitAll target
      return target) := by
  rw [← shape.straight_append]
  refine hnew.step fun larger target _ htarget => ?_
  rw [← shape.append_straight]
  exact (hall larger target htarget).step fun final _ hfinal _ => .done (htarget.mono hfinal)

theorem emitCallArguments_emits {emitAll : Operand → ExprM Unit}
    (hall : ∀ available, EmitsInto available shape emitAll) :
    EmitsValue available shape (emitCallArguments emitAll) :=
  emitFilled_emits emitRuntimeArrayNew_emits hall

theorem emitPropertyKey_emits {owner key : String} {computed : Bool} {emitKey : ExprM Operand}
    (hkey : EmitsValue available shape emitKey) :
    EmitsValue available (if computed then shape else .straight)
      (emitPropertyKey owner key computed (some emitKey)) := by
  cases computed with
  | false => exact emitRuntimeString_emits
  | true => exact hkey

theorem emitNoKey_emits {owner key : String} (computed : Bool) :
    EmitsValue available .straight (emitPropertyKey owner key computed none) := by
  cases computed with
  | false => exact emitRuntimeString_emits
  | true => exact .fail

theorem emitRuntimeCallable_emits {callee thisValue arguments : Operand}
    (hcallee : callee.In available) (hthis : thisValue.In available)
    (harguments : arguments.In available) :
    EmitsValue available .straight (emitRuntimeCallable symbol callee thisValue arguments) :=
  emitRuntimeCall_emits (by simpa using ⟨hcallee, hthis, harguments⟩)

theorem emitCallFunction_emits {emitCallee emitArguments : ExprM Operand} {calleeShape : Shape}
    (hcallee : ∀ available, EmitsValue available calleeShape emitCallee)
    (harguments : ∀ available, EmitsValue available shape emitArguments) :
    EmitsValue available (calleeShape.append shape) (emitCallFunction emitCallee emitArguments) := by
  refine (hcallee available).step fun larger callee _ hcallee => ?_
  rw [← shape.straight_append]
  refine emitRuntimeUndefined_emits.step fun defined thisValue hdefined hthis => ?_
  rw [← shape.append_straight]
  refine (harguments defined).step fun final arguments hfinal harguments => ?_
  exact emitRuntimeCallable_emits (hcallee.mono (hdefined.trans hfinal)) (hthis.mono hfinal) harguments

abbrev EmitsArgs (available : Set Name) (shape : Shape) (action : ExprM (List RuntimeCallArg)) :
    Prop :=
  Emits false available action (Gives (fun args available => ArgsIn available args) available shape)

theorem emitRuntimeValueArgsCall_emits (hargs : EmitsArgs available shape emitArgs) :
    EmitsValue available shape (emitRuntimeValueArgsCall symbol emitArgs) := by
  rw [← shape.append_straight]
  exact hargs.step fun larger args _ hargs => emitRuntimeCall_emits hargs

theorem emitCallExpression_emits {callee : String} {emitArguments : ExprM Operand}
    (hargs : ∀ available, EmitsArgs available shape emitArgs)
    (harguments : ∀ available, EmitsValue available shape emitArguments) :
    EmitsValue available shape (emitCallExpression callee emitArgs emitArguments) := by
  refine .get fun emitter => ?_
  split
  · exact emitRuntimeValueArgsCall_emits (hargs available)
  · rw [← shape.straight_append]
    exact emitCallFunction_emits (fun _ => loadLocal_emits) harguments

theorem emitSuperConstructorCall_emits {emitArguments : ExprM Operand}
    (harguments : ∀ available, EmitsValue available shape emitArguments) :
    EmitsValue available shape (emitSuperConstructorCall emitArguments) := by
  rw [← shape.straight_append]
  refine (emitRuntimeCall_emits (by simp)).step fun larger thisValue _ hthis => ?_
  rw [← shape.append_straight]
  refine (harguments larger).step fun final arguments hfinal harguments => ?_
  exact emitRuntimeBinaryValue_emits (hthis.mono hfinal) harguments

abbrev EmitsPair (available : Set Name) (shape : Shape) (action : ExprM (Operand × Operand)) :
    Prop :=
  Emits false available action
    (Gives (fun pair available => pair.1.In available ∧ pair.2.In available) available shape)

theorem emitCallableHelperInvoke_emits
    (htarget : ∀ available, EmitsValue available targetShape emitTarget)
    (hpair : ∀ available, EmitsPair available shape emitThisAndRest) :
    EmitsValue available (targetShape.append shape)
      (emitCallableHelperInvoke symbol emitTarget emitThisAndRest) := by
  refine (htarget available).step fun larger callee _ hcallee => ?_
  rw [← shape.append_straight]
  refine (hpair larger).step fun final pair hfinal hpair => ?_
  exact emitRuntimeCallable_emits (hcallee.mono hfinal) hpair.1 hpair.2

theorem emitApplyInvoke_emits {emitApplied : Option (ExprM Operand)} {appliedShape : Shape}
    (htarget : ∀ available, EmitsValue available targetShape emitTarget)
    (hpair : ∀ available, EmitsPair available shape emitThisAndRest)
    (happlied : ∀ emit ∈ emitApplied, ∀ available, EmitsValue available appliedShape emit)
    (habsorb : emitApplied.isSome → shape.append appliedShape = shape) :
    EmitsValue available (targetShape.append shape)
      (emitApplyInvoke emitTarget emitThisAndRest emitApplied) := by
  refine (htarget available).step fun larger callee _ hcallee => ?_
  cases emitApplied with
  | none =>
      rw [← shape.append_straight]
      refine (hpair larger).step fun final pair hfinal hpair => ?_
      exact emitRuntimeCallable_emits (hcallee.mono hfinal) hpair.1 hpair.2
  | some emit =>
      rw [← habsorb rfl]
      refine (hpair larger).step fun middle pair hmiddle hpair => ?_
      rw [← appliedShape.append_straight]
      refine (happlied emit rfl middle).step fun final applied hfinal happlied => ?_
      exact emitRuntimeCallable_emits (hcallee.mono (hmiddle.trans hfinal)) (hpair.1.mono hfinal)
        happlied

theorem emitMethodInvoke_emits {emitArguments : ExprM Operand}
    (htarget : ∀ available, EmitsValue available targetShape emitTarget)
    (harguments : ∀ available, EmitsValue available shape emitArguments) :
    EmitsValue available (targetShape.append shape)
      (emitMethodInvoke emitTarget property emitArguments) := by
  refine (htarget available).step fun larger object _ hobject => ?_
  rw [← shape.straight_append]
  refine emitRuntimeString_emits.step fun named key hnamed hkey => ?_
  rw [← shape.straight_append]
  have hproperty : TargetIn (propertyTarget object key) named := ⟨hobject.mono hnamed, hkey⟩
  refine (load_emits hproperty).step fun loaded function hloaded hfunction => ?_
  rw [← shape.append_straight]
  refine (harguments loaded).step fun final args hfinal hargs => ?_
  exact emitRuntimeCallable_emits (hfunction.mono hfinal)
    (hobject.mono (hnamed.trans (hloaded.trans hfinal))) hargs

theorem emitNewExpression_emits {emitCallee emitArguments : ExprM Operand} {calleeShape : Shape}
    (hcallee : ∀ available, EmitsValue available calleeShape emitCallee)
    (harguments : ∀ available, EmitsValue available shape emitArguments) :
    EmitsValue available (calleeShape.append shape) (emitNewExpression emitCallee emitArguments) :=
  emitBinaryOperands_emits hcallee harguments

theorem emitRuntimeFunctionNew_emits : EmitsValue available .straight emitRuntimeFunctionNew :=
  emitRuntimeCall_emits (by simp)

theorem emitClosureCapture_emits {closure : Operand} {binding : String}
    (hclosure : closure.In available) :
    EmitsLines available .straight (emitClosureCapture closure binding) := by
  rw [← Shape.straight.append_straight]
  refine loadLocal_emits.step fun loaded value hloaded hvalue => ?_
  rw [← Shape.straight.append_straight]
  refine emitRuntimeString_emits.step fun named key hnamed hkey => ?_
  exact emitRuntimeVoidCall_emits
    (by simpa using ⟨hclosure.mono (hloaded.trans hnamed), hkey, hvalue.mono hnamed⟩)

theorem Emits.forM {items : List α} {action : α → ExprM Unit}
    (haction : ∀ larger, available ⊆ larger → ∀ item ∈ items,
      Emits declares larger (action item) (Gives (fun _ _ => True) larger .straight)) :
    Emits declares available (items.forM action)
      (Gives (fun _ _ => True) available .straight) := by
  induction items generalizing available with
  | nil => exact .done trivial
  | cons item rest ih =>
      rw [← Shape.straight.append_straight]
      refine (haction available subset_rfl item List.mem_cons_self).step fun larger _ hsub _ => ?_
      exact ih fun final hfinal other hother =>
        haction final (hsub.trans hfinal) other (List.mem_cons_of_mem item hother)

theorem emitClosureEnvironment_emits {environment : Lifetime.ClosureEnvironment} :
    EmitsValue available .straight (emitClosureEnvironment environment) := by
  rw [← Shape.straight.append_straight]
  refine (emitRuntimeCall_emits (by simp)).step fun larger closure _ hclosure => ?_
  rw [← Shape.straight.append_straight]
  refine Emits.step (Emits.forM fun final hfinal capture _ =>
    emitClosureCapture_emits (hclosure.mono hfinal)) fun final _ hfinal _ => ?_
  exact .done (hclosure.mono hfinal)

theorem emitFunctionExpression_emits {pos : SourcePos} :
    EmitsValue available .straight (emitFunctionExpression pos) := by
  refine .get fun emitter => ?_
  split
  · rw [← Shape.straight.append_straight]
    refine emitClosureEnvironment_emits.step fun larger closure _ hclosure => ?_
    exact emitRuntimeCall_emits (argsIn_cons.mpr ⟨hclosure, argsIn_nil⟩)
  · exact emitRuntimeFunctionNew_emits

theorem emitASTRuntimeLiteral_emits {expression : Expression} :
    EmitsValue available .straight (emitASTRuntimeLiteral expression) := by
  rw [← Shape.straight.append_straight]
  exact ofExcept_emits.step fun larger literal _ _ => emitRuntimeLiteral_emits literal

theorem emitMemberInvoke_emits {target : Expression} {emitArguments : ExprM Operand}
    {emitApplied : Option (ExprM Operand)} {appliedShape : Shape}
    (htarget : ∀ available, EmitsValue available target.shape emitTarget)
    (hargs : ∀ available, EmitsArgs available shape emitArgs)
    (harguments : ∀ available, EmitsValue available shape emitArguments)
    (hpair : ∀ available, EmitsPair available shape emitThisAndRest)
    (happlied : ∀ emit ∈ emitApplied, ∀ available, EmitsValue available appliedShape emit)
    (habsorb : emitApplied.isSome → shape.append appliedShape = shape) :
    EmitsValue available (target.shape.append shape)
      (emitMemberInvoke target property isPrivate optional emitTarget emitArgs emitArguments
        emitThisAndRest emitApplied) := by
  refine .unless_fail (.unless_fail ?_)
  split
  · rename_i symbol hsymbol
    have hstraight : target.shape = .straight := by
      unfold processStreamSymbol at hsymbol
      split at hsymbol
      · simp [Expression.shape]
      · simp at hsymbol
    rw [hstraight, shape.straight_append]
    exact emitRuntimeValueArgsCall_emits (hargs available)
  · refine .get fun emitter => ?_
    split
    · rename_i symbol hsymbol
      have hstraight : target.shape = .straight := by
        cases target <;> simp_all [stdlibMemberInvokeSymbol, stdlibMemberModule, Expression.shape]
      rw [hstraight, shape.straight_append]
      exact emitRuntimeValueArgsCall_emits (hargs available)
    · split
      · exact emitCallableHelperInvoke_emits htarget hpair
      · exact emitCallableHelperInvoke_emits htarget hpair
      · exact emitApplyInvoke_emits htarget hpair happlied habsorb
      · exact emitMethodInvoke_emits htarget harguments

theorem Shape.append_self (shape : Shape) : shape.append shape = shape := by
  simp [append]

def SpreadValueEmits (available : Set Name) : Expression → Prop
  | .spread _ value => EmitsValue available value.shape (emitExpression value)
  | _ => True

theorem emitAppend_emits {emit : ExprM Operand} {target : Operand} {emitRest : ExprM Unit}
    {restShape : Shape} (hemit : EmitsValue available shape emit) (htarget : target.In available)
    (hrest : ∀ larger, available ⊆ larger → EmitsLines larger restShape emitRest) :
    EmitsLines available (shape.append restShape) (do
      let value ← emit
      emitRuntimeVoidCall symbol [valueArg target, valueArg value]
      emitRest) := by
  refine hemit.step fun larger value hlarger hvalue => ?_
  rw [← restShape.straight_append]
  have hargs : ArgsIn larger [valueArg target, valueArg value] :=
    argsIn_cons.mpr ⟨htarget.mono hlarger, argsIn_cons.mpr ⟨hvalue, argsIn_nil⟩⟩
  exact (emitRuntimeVoidCall_emits hargs).step fun final _ hfinal _ =>
    hrest final (hlarger.trans hfinal)

theorem emitArguments_cons_emits {argument : Expression} {rest : List Expression} {array : Operand}
    (hargument : ∀ available, EmitsValue available argument.shape (emitExpression argument))
    (hspread : ∀ available, SpreadValueEmits available argument)
    (hrest : ∀ available, EmitsInto available shape (emitArguments rest))
    (harray : array.In available) :
    EmitsLines available (argument.shape.append shape)
      (emitArguments (argument :: rest) array) := by
  have hrest' : ∀ larger, available ⊆ larger → EmitsLines larger shape (emitArguments rest array) :=
    fun larger hlarger => hrest larger array (harray.mono hlarger)
  cases argument with
  | spread pos value => exact emitAppend_emits (hspread available) harray hrest'
  | _ => exact emitAppend_emits (hargument available) harray hrest'

theorem emitArrayElements_cons_emits {element : Expression} {rest : List (Option Expression)}
    {array : Operand}
    (helement : ∀ available, EmitsValue available element.shape (emitExpression element))
    (hspread : ∀ available, SpreadValueEmits available element)
    (hrest : ∀ available, EmitsInto available shape (emitArrayElements rest))
    (harray : array.In available) :
    EmitsLines available (element.shape.append shape)
      (emitArrayElements (some element :: rest) array) := by
  have hrest' : ∀ larger, available ⊆ larger →
      EmitsLines larger shape (emitArrayElements rest array) :=
    fun larger hlarger => hrest larger array (harray.mono hlarger)
  cases element with
  | spread pos value => exact emitAppend_emits (hspread available) harray hrest'
  | _ => exact emitAppend_emits (helement available) harray hrest'

theorem emitProperty_emits {emitKey : ExprM Operand} {object : Operand} {emitRest : ExprM Unit}
    {keyShape restShape : Shape} (hkey : EmitsValue available keyShape emitKey)
    (hvalue : ∀ available, EmitsValue available shape emitValue) (hobject : object.In available)
    (hrest : ∀ larger, available ⊆ larger → EmitsLines larger restShape emitRest) :
    EmitsLines available (keyShape.append (shape.append restShape)) (do
      let keyValue ← emitKey
      let propertyValue ← emitValue
      emitRuntimePropertyStore object keyValue propertyValue
      emitRest) := by
  refine hkey.step fun keyed key hkeyed hkey => ?_
  refine (hvalue keyed).step fun larger value hlarger hvalue => ?_
  rw [← restShape.straight_append]
  have hargs : ArgsIn larger [valueArg object, valueArg key, valueArg value] := by
    simpa using ⟨hobject.mono (hkeyed.trans hlarger), hkey.mono hlarger, hvalue⟩
  exact (emitRuntimeVoidCall_emits hargs).step fun final _ hfinal _ =>
    hrest final (hkeyed.trans (hlarger.trans hfinal))

def MemberTargetEmits (available : Set Name) : Expression → Prop
  | .member _ target _ _ _ => EmitsValue available target.shape (emitExpression target)
  | _ => True

theorem emitInvokeExpression_emits {pos : SourcePos} {callee : Expression}
    {arguments : List Expression}
    (hcallee : ∀ available, EmitsValue available callee.shape (emitExpression callee))
    (hmember : ∀ available, MemberTargetEmits available callee) (hargs : ∀ available,
      EmitsArgs available (argumentsShape arguments) (runtimeValueArgs arguments))
    (harguments : ∀ available,
      EmitsInto available (argumentsShape arguments) (emitArguments arguments))
    (hpair : ∀ available,
      EmitsPair available (argumentsShape arguments) (emitThisAndRestArguments arguments))
    (happlied : ∃ appliedShape,
      (∀ emit ∈ emitAppliedArgument arguments, ∀ available,
        EmitsValue available appliedShape emit) ∧
      ((emitAppliedArgument arguments).isSome →
        (argumentsShape arguments).append appliedShape = argumentsShape arguments)) :
    EmitsValue available (Expression.invoke pos callee arguments optional).shape
      (emitExpression (.invoke pos callee arguments optional)) := by
  obtain ⟨appliedShape, happlied, habsorb⟩ := happlied
  have hall : ∀ available, EmitsValue available (argumentsShape arguments)
      (emitCallArguments (emitArguments arguments)) := fun available =>
    emitCallArguments_emits harguments
  cases optional with
  | true => cases callee <;> exact .withDiagnostic .fail
  | false =>
      cases callee with
      | superExpression pos =>
          have hstraight : (Expression.superExpression pos).shape = .straight := rfl
          rw [Expression.shape, hstraight, Shape.straight_append]
          exact .withDiagnostic (emitSuperConstructorCall_emits hall)
      | member pos target property isPrivate optional =>
          exact .withDiagnostic
            (emitMemberInvoke_emits hmember hargs hall hpair happlied habsorb)
      | _ => exact .withDiagnostic (emitCallFunction_emits hcallee hall)

mutual

theorem emitExpression_emits : ∀ (expression : Expression) (available : Set Name),
    EmitsValue available expression.shape (emitExpression expression)
  | .comma _ left right, available => .withDiagnostic <|
      (emitExpression_emits left available).step fun larger _ _ _ =>
        emitExpression_emits right larger
  | .unary _ operator right, available => .withDiagnostic <| by
      cases operator with
      | void => exact emitVoidExpression_emits (emitExpression_emits right available)
      | delete =>
          exact emitDeleteExpression_emits (resolveAssignmentTarget_emits right)
            (emitExpression_emits right)
      | bitNot => exact emitBigIntBitNotExpression_emits
      | negate => exact emitNegateExpression_emits
      | positive => exact emitNumericUnaryExpression_emits
      | not => exact emitBooleanNotExpression_emits
  | .update _ _ target _, available => .withDiagnostic <|
      emitUpdateExpression_emits (resolveAssignmentTarget_emits target available)
  | .typeof _ value, available => .withDiagnostic <|
      emitTypeofExpression_emits (emitExpression_emits value available)
  | .conditional _ condition consequent alternative, _ => .withDiagnostic <|
      emitConditionalExpression_emits (emitExpression_emits condition)
        (emitExpression_emits consequent) (emitExpression_emits alternative)
  | .nullishCoalesce _ left right, _ => .withDiagnostic <|
      emitNullishCoalesceExpression_emits (emitExpression_emits left) (emitExpression_emits right)
  | .logical _ _ left right, _ => .withDiagnostic <|
      emitLogicalExpression_emits (emitExpression_emits left) (emitExpression_emits right)
  | .binary .., _ => .withDiagnostic emitBinaryExpression_emits
  | .comparison _ operator left right, _ => .withDiagnostic <| by
      cases operator with
      | «in» =>
          exact emitBinaryOperands_emits (emitExpression_emits left) (emitExpression_emits right)
      | _ => exact emitFoldedComparison_emits (by simp)
  | .instanceof _ left right, _ => .withDiagnostic <|
      emitBinaryOperands_emits (emitExpression_emits left) (emitExpression_emits right)
  | .objectLiteral _ properties, _ => .withDiagnostic <|
      emitFilled_emits (emitRuntimeCall_emits argsIn_nil) (emitObjectProperties_emits properties)
  | .arrayLiteral _ elements, _ => .withDiagnostic <|
      emitFilled_emits emitRuntimeArrayNew_emits (emitArrayElements_emits elements)
  | .member _ target _ _ _, _ => .withDiagnostic <|
      emitMemberExpression_emits (emitExpression_emits target)
  | .index _ target index _, _ => .withDiagnostic <|
      emitIndexExpression_emits (emitExpression_emits target) (emitExpression_emits index)
  | .call _ _ arguments, _ => .withDiagnostic <|
      emitCallExpression_emits (runtimeValueArgs_emits arguments) fun _ =>
        emitCallArguments_emits (emitArguments_emits arguments)
  | .invoke _ callee arguments optional, _ =>
      emitInvokeExpression_emits (emitExpression_emits callee) (memberTarget_emits callee)
        (runtimeValueArgs_emits arguments) (emitArguments_emits arguments)
        (emitThisAndRestArguments_emits arguments) (emitAppliedArgument_emits arguments)
  | .newExpression _ callee arguments, _ => .withDiagnostic <|
      emitNewExpression_emits (emitExpression_emits callee) fun _ =>
        emitCallArguments_emits (emitArguments_emits arguments)
  | .thisExpression _, _ | .superExpression _, _ | .newTarget _, _ =>
      .withDiagnostic (emitRuntimeCall_emits argsIn_nil)
  | .functionExpression .., _ => .withDiagnostic emitFunctionExpression_emits
  | .identifier .., _ => .withDiagnostic loadLocal_emits
  | .numberLiteral .., _ | .bigIntLiteral .., _ | .stringLiteral .., _ | .templateLiteral .., _
  | .booleanLiteral .., _ | .nullLiteral .., _ | .undefinedLiteral .., _ | .importMeta .., _
  | .await .., _ | .yield .., _ => .withDiagnostic emitASTRuntimeLiteral_emits
  | .spread _ value, available => .withDiagnostic <| by
      intro emitter result emitted _ hrun
      simp [emitASTRuntimeLiteral, runtimeLiteralFromAST, ofExcept, bind_eq_ok] at hrun

theorem memberTarget_emits : ∀ (callee : Expression) (available : Set Name),
    MemberTargetEmits available callee
  | .member _ target _ _ _, available => emitExpression_emits target available
  | .identifier .., _ | .thisExpression .., _ | .superExpression .., _ | .numberLiteral .., _
  | .bigIntLiteral .., _ | .stringLiteral .., _ | .templateLiteral .., _ | .booleanLiteral .., _
  | .nullLiteral .., _ | .undefinedLiteral .., _ | .importMeta .., _ | .newExpression .., _
  | .newTarget .., _ | .binary .., _ | .comparison .., _ | .logical .., _ | .nullishCoalesce .., _
  | .conditional .., _ | .comma .., _ | .unary .., _ | .update .., _ | .typeof .., _ | .await .., _
  | .yield .., _ | .instanceof .., _ | .call .., _ | .invoke .., _ | .index .., _
  | .objectLiteral .., _ | .arrayLiteral .., _ | .spread .., _ | .functionExpression .., _ => trivial

theorem resolveAssignmentTarget_emits : ∀ (target : Expression) (available : Set Name),
    EmitsTarget available target.shape (resolveAssignmentTarget target)
  | .identifier .., _ => resolveLocal_emits
  | .member _ target _ _ _, _ => resolveMember_emits (emitExpression_emits target)
  | .index _ target index _, _ =>
      resolveIndex_emits (emitExpression_emits target) (emitExpression_emits index)
  | .thisExpression .., _ | .superExpression .., _ | .numberLiteral .., _
  | .bigIntLiteral .., _ | .stringLiteral .., _ | .templateLiteral .., _ | .booleanLiteral .., _
  | .nullLiteral .., _ | .undefinedLiteral .., _ | .importMeta .., _ | .newExpression .., _
  | .newTarget .., _ | .binary .., _ | .comparison .., _ | .logical .., _ | .nullishCoalesce .., _
  | .conditional .., _ | .comma .., _ | .unary .., _ | .update .., _ | .typeof .., _ | .await .., _
  | .yield .., _ | .instanceof .., _ | .call .., _ | .invoke .., _
  | .objectLiteral .., _ | .arrayLiteral .., _ | .spread .., _ | .functionExpression .., _ => .fail

theorem emitArguments_emits : ∀ (arguments : List Expression) (available : Set Name),
    EmitsInto available (argumentsShape arguments) (emitArguments arguments)
  | [], _ => fun _ _ => .done trivial
  | argument :: rest, available => by
      intro array harray
      have hargument := emitExpression_emits argument
      have hrest := emitArguments_emits rest
      have hspread := spreadValue_emits argument
      exact emitArguments_cons_emits hargument hspread hrest harray

theorem emitThisAndRestArguments_emits : ∀ (arguments : List Expression) (available : Set Name),
    EmitsPair available (argumentsShape arguments) (emitThisAndRestArguments arguments)
  | [], _ => by
      rw [argumentsShape, ← Shape.straight.append_straight]
      refine emitRuntimeUndefined_emits.step fun larger thisValue _ hthis => ?_
      rw [← Shape.straight.append_straight]
      exact emitRuntimeArrayNew_emits.step fun final rest hfinal hrest =>
        .done ⟨hthis.mono hfinal, hrest⟩
  | first :: arguments, available => by
      refine (emitExpression_emits first available).step fun larger thisValue _ hthis => ?_
      rw [← (argumentsShape arguments).append_straight]
      refine Emits.step (emitCallArguments_emits (emitArguments_emits arguments))
        fun final rest hfinal hrest => ?_
      exact .done ⟨hthis.mono hfinal, hrest⟩

theorem emitAppliedArgument_emits : ∀ arguments : List Expression, ∃ appliedShape,
    (∀ emit ∈ emitAppliedArgument arguments, ∀ available,
      EmitsValue available appliedShape emit) ∧
    ((emitAppliedArgument arguments).isSome →
      (argumentsShape arguments).append appliedShape = argumentsShape arguments)
  | [] | [_] => ⟨.straight, by simp [emitAppliedArgument], by simp⟩
  | first :: applied :: rest => by
      refine ⟨applied.shape, ?_, fun _ => ?_⟩
      · rintro _ ⟨rfl⟩
        exact emitExpression_emits applied
      · simp only [argumentsShape, Shape.append_assoc]
        rw [Shape.append_comm (argumentsShape rest), ← Shape.append_assoc applied.shape,
          Shape.append_self]

theorem runtimeValueArgs_emits : ∀ (arguments : List Expression) (available : Set Name),
    EmitsArgs available (argumentsShape arguments) (runtimeValueArgs arguments)
  | [], _ => .done argsIn_nil
  | argument :: rest, available => by
      refine (emitExpression_emits argument available).step fun larger value _ hvalue => ?_
      rw [← (argumentsShape rest).append_straight]
      refine (runtimeValueArgs_emits rest larger).step fun final args hfinal hargs => ?_
      exact .done (argsIn_cons.mpr ⟨hvalue.mono hfinal, hargs⟩)

theorem emitArrayElements_emits : ∀ (elements : List (Option Expression)) (available : Set Name),
    EmitsInto available (elementsShape elements) (emitArrayElements elements)
  | [], _ => fun _ _ => .done trivial
  | none :: rest, available => by
      intro array harray
      rw [elementsShape, ← Shape.straight_append (elementsShape rest)]
      refine (emitRuntimeVoidCall_emits (argsIn_cons.mpr ⟨harray, argsIn_nil⟩)).step
        fun larger _ hsub _ => ?_
      exact emitArrayElements_emits rest larger array (harray.mono hsub)
  | some element :: rest, available => by
      intro array harray
      have helement := emitExpression_emits element
      have hrest := emitArrayElements_emits rest
      have hspread := spreadValue_emits element
      exact emitArrayElements_cons_emits helement hspread hrest harray

theorem spreadValue_emits : ∀ (argument : Expression) (available : Set Name),
    SpreadValueEmits available argument
  | .spread _ value, available => emitExpression_emits value available
  | .identifier .., _ | .thisExpression .., _ | .superExpression .., _ | .numberLiteral .., _
  | .bigIntLiteral .., _ | .stringLiteral .., _ | .templateLiteral .., _ | .booleanLiteral .., _
  | .nullLiteral .., _ | .undefinedLiteral .., _ | .importMeta .., _ | .newExpression .., _
  | .newTarget .., _ | .binary .., _ | .comparison .., _ | .logical .., _ | .nullishCoalesce .., _
  | .conditional .., _ | .comma .., _ | .unary .., _ | .update .., _ | .typeof .., _ | .await .., _
  | .yield .., _ | .instanceof .., _ | .call .., _ | .invoke .., _ | .index .., _
  | .objectLiteral .., _ | .arrayLiteral .., _ | .member .., _ | .functionExpression .., _ => trivial

theorem emitObjectProperties_emits : ∀ (properties : List ObjectProperty) (available : Set Name),
    EmitsInto available (propertiesShape properties) (emitObjectProperties properties)
  | [], _ => fun _ _ => .done trivial
  | ⟨key, none, value, computed, spread⟩ :: rest, available => by
      intro object hobject
      have hvalue := emitExpression_emits value
      have hrest := fun larger (hlarger : available ⊆ larger) =>
        emitObjectProperties_emits rest larger object (hobject.mono hlarger)
      cases spread with
      | true => exact emitAppend_emits (hvalue available) hobject hrest
      | false =>
          rw [propertiesShape, ← Shape.straight_append (value.shape.append _)]
          exact emitProperty_emits (emitNoKey_emits computed) hvalue hobject hrest
  | ⟨key, some keyExpr, value, computed, spread⟩ :: rest, available => by
      intro object hobject
      have hkeyExpr := emitExpression_emits keyExpr
      have hvalue := emitExpression_emits value
      have hrest := fun larger (hlarger : available ⊆ larger) =>
        emitObjectProperties_emits rest larger object (hobject.mono hlarger)
      cases spread with
      | true =>
          rw [propertiesShape, Bool.not_true, Bool.and_false, if_neg Bool.false_ne_true,
            Shape.straight_append]
          exact emitAppend_emits (hvalue available) hobject hrest
      | false =>
          rw [propertiesShape, Bool.not_false, Bool.and_true]
          exact emitProperty_emits (emitPropertyKey_emits (hkeyExpr available)) hvalue hobject hrest

end

end Jayess.Backend
