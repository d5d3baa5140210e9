import Jayess.Lowering.AssignedNames
import Jayess.Lowering.Discipline

/-!
# What the evaluator of expressions preserves

One lemma for each function: it keeps a discipline in expressions that assign no guarded name, as long as the
functions it calls on parts do.
-/

namespace Jayess.Lowering

namespace Discipline

variable {α β : Type} {D : Discipline}

def Spares (D : Discipline) (assigns : String → Bool) : Prop :=
  ∀ name, D.Guarded name → assigns name = false

theorem spares_or {first second : String → Bool} (spares : D.Spares fun name => first name || second name) :
    D.Spares first ∧ D.Spares second :=
  ⟨fun name hguarded => (Bool.or_eq_false_iff.mp (spares name hguarded)).1,
    fun name hguarded => (Bool.or_eq_false_iff.mp (spares name hguarded)).2⟩

theorem spares_target {pos : SourcePos} {name : String} (spares : D.Spares (isTarget · (.identifier pos name))) :
    ¬D.Guarded name :=
  fun hguarded => of_decide_eq_false (spares name hguarded) rfl

def KeepsUnassigned (D : Discipline) (evaluate : Expression → Eval α) (result : D.World → α → Prop) : Prop :=
  ∀ {world expression}, D.Spares (expressionAssigns · expression) → D.Keeps world (evaluate expression) result

def Body (D : Discipline) (_ : D.World) (body : IifeBody) : Prop := ∀ name, D.Guarded name → body.Spares name

/-- The evaluators keep the discipline, in every world. The callee of a call is collected in the scope it is
found in, and return values are looked for on a clone. -/
structure Keeping (D : Discipline) (ev : Evaluators) : Prop where
  int : D.KeepsUnassigned ev.int D.Any
  string : D.KeepsUnassigned ev.string D.Any
  bigInt : D.KeepsUnassigned ev.bigInt D.Any
  bool : D.KeepsUnassigned ev.bool D.Any
  boolValue : D.KeepsUnassigned ev.boolValue D.Any
  nullish : D.KeepsUnassigned ev.nullish D.Any
  discard : D.KeepsUnassigned ev.discard D.Any
  functionIdentity : D.KeepsUnassigned ev.functionIdentity D.Function
  objectIdentity : D.KeepsUnassigned ev.objectIdentity D.Object
  materializeFunction : D.KeepsUnassigned ev.materializeFunction D.Function
  materializeObject : D.KeepsUnassigned ev.materializeObject D.Object
  functionReference : D.KeepsUnassigned ev.functionReference D.Any
  objectReference : D.KeepsUnassigned ev.objectReference D.Any
  arrayElements : D.KeepsUnassigned ev.arrayElements D.Elements
  objectProperties : D.KeepsUnassigned ev.objectProperties D.Properties
  callable : D.KeepsUnassigned ev.callable D.Body
  collected : ∀ {expression state body after}, (ev.callable expression).outcome state = (some body, after) →
    body.Collected after.scope
  emptyCallable : D.KeepsUnassigned ev.emptyCallable D.Any
  emptyConstructor : D.KeepsUnassigned ev.emptyConstructor D.Any
  returnCode : ∀ {world} statements, D.Keeps world (ev.returnCode statements) D.Any
  nonReturn : ∀ {world statements}, D.Spares (statementsAssign · statements) →
    D.Keeps world (ev.nonReturn statements) D.Any
  nonReturnStatement : ∀ {world statement}, D.Spares (statementAssigns · statement) →
    D.Keeps world (ev.nonReturnStatement statement) D.Any
  tryBody : ∀ {world statements}, D.Spares (statementsAssign · statements) →
    D.Keeps world (ev.tryBody statements) D.Any
  tryStatement : ∀ {world statement}, D.Spares (statementAssigns · statement) →
    D.Keeps world (ev.tryStatement statement) D.Any
  labeledBreak : ∀ {world statements} label, D.Spares (statementsAssign · statements) →
    D.Keeps world (ev.labeledBreak statements label) D.Any
  labeledBreakStatement : ∀ {world statement} label, D.Spares (statementAssigns · statement) →
    D.Keeps world (ev.labeledBreakStatement statement label) D.Any

inductive Known (D : Discipline) : {α : Type} → (D.World → α → Prop) → Prop
  | any {α : Type} : Known D (D.Any : D.World → α → Prop)
  | function : Known D D.Function
  | object : Known D D.Object
  | elements : Known D D.Elements
  | properties : Known D D.Properties

structure KeepingCalls (D : Discipline) (ev : Evaluators) : Prop extends Keeping D ev where
  calls : ∀ {α : Type} {evaluate : Expression → Eval α} {result : D.World → α → Prop},
    D.KeepsUnassigned evaluate result → D.Known result → D.KeepsUnassigned (evaluateIIFEValue ev evaluate) result

variable {ev : Evaluators} {host : Host} {world : D.World} {result : D.World → α → Prop}

theorem Known.stays (known : D.Known result) {later : D.World} {value : α} (grows : D.Grows world later)
    (h : result world value) : result later value := by
  cases known with
  | any => exact trivial
  | function => exact D.function_grows grows h
  | object => exact D.object_grows grows h
  | elements => exact elements_grow grows h
  | properties => exact properties_grow grows h

section Forms

variable (keeping : D.KeepingCalls ev) {evaluate : Expression → Eval α}
  (hevaluate : D.KeepsUnassigned evaluate result)
include keeping

theorem keeps_keepingEffects {left : Expression} (spares : D.Spares (expressionAssigns · left)) :
    D.Keeps world (keepingEffects ev left : Eval α) result :=
  (keeping.discard spares).probe.andThen .failure

include hevaluate

theorem keeps_conditionally {condition consequent alternative : Expression}
    (spares : D.Spares fun name => expressionAssigns name condition ||
      (expressionAssigns name consequent || expressionAssigns name alternative)) :
    D.Keeps world (conditionally ev condition (evaluate consequent) (evaluate alternative)) result := by
  obtain ⟨hcondition, hbranches⟩ := spares_or spares
  obtain ⟨hconsequent, halternative⟩ := spares_or hbranches
  apply Keeps.probe
  apply (keeping.bool hcondition).bindAny
  intro _ value
  cases value with
  | true => exact hevaluate hconsequent
  | false => exact hevaluate halternative

variable {left right : Expression}
  (spares : D.Spares fun name => expressionAssigns name left || expressionAssigns name right)
include spares

theorem keeps_afterDiscarding : D.Keeps world (afterDiscarding ev left (evaluate right)) result := by
  obtain ⟨hleft, hright⟩ := spares_or spares
  exact ((keeping.discard hleft).andThen (hevaluate hright)).probe

theorem keeps_coalescing {leftValue : Eval α}
    (hleftValue : ∀ {world}, D.Spares (expressionAssigns · left) → D.Keeps world leftValue result) :
    D.Keeps world (coalescing ev left leftValue (evaluate right)) result := by
  obtain ⟨hleft, hright⟩ := spares_or spares
  exact (keeping.nullish hleft).probing (fun _ _ => hevaluate hright)
    ((hleftValue hleft).probe.orElse (keeps_keepingEffects keeping hleft))

theorem keeps_coalescingReference :
    D.Keeps world (coalescingReference ev left (evaluate left) (evaluate right)) result := by
  obtain ⟨hleft, hright⟩ := spares_or spares
  apply (hevaluate hleft).probe.orElse
  exact (keeping.nullish hleft).probing (fun _ _ => hevaluate hright) (keeps_keepingEffects keeping hleft)

theorem keeps_logically {operator : LogicalOperator} {truthy : α → Bool} :
    D.Keeps world (logically ev operator left (evaluate left) truthy (evaluate right)) result := by
  obtain ⟨hleft, hright⟩ := spares_or spares
  apply (hevaluate hleft).probing
  · intro _ value known
    cases operator with
    | and =>
        dsimp only
        split
        · exact hevaluate hright
        · exact .pure known
    | or =>
        dsimp only
        split
        · exact .pure known
        · exact hevaluate hright
  · intro _
    apply Keeps.probe
    apply (keeping.bool hleft).bindAny
    intro _ value
    cases operator with
    | and =>
        cases value with
        | true => exact hevaluate hright
        | false => exact .failure
    | or =>
        cases value with
        | true => exact .failure
        | false => exact hevaluate hright

end Forms

theorem value_scalar {world : D.World} {value : ReturnValue}
    (scalar : value.function? = none ∧ value.object? = none) : D.Value world value := by
  constructor
  · rintro identity rfl
    exact nomatch scalar.1
  · rintro identity rfl
    exact nomatch scalar.2

theorem value_function {world : D.World} {identity : Identity}
    (known : D.Function world identity) : D.Value world (.function identity) := by
  constructor
  · intro other h
    rw [← ReturnValue.function.inj h]
    exact known
  · intro other h
    exact nomatch h

theorem value_object {world : D.World} {identity : Identity}
    (known : D.Object world identity) : D.Value world (.object identity) := by
  constructor
  · intro other h
    exact nomatch h
  · intro other h
    rw [← ReturnValue.object.inj h]
    exact known

section Declarations

variable {declared : String} (hfree : ¬D.Guarded declared)
include hfree

theorem keeps_assignScalar {evaluate : Eval α} {value : α → ReturnValue} (hevaluate : D.Keeps world evaluate result)
    (known : ∀ later a, result later a → D.Value later (value a)) :
    D.Keeps world (assignScalar declared evaluate value) D.Any :=
  hevaluate.probe.bind fun later a _ h => .assign hfree (known later a h)

theorem keeps_assignPlainScalar {evaluate : Eval α} {value : α → ReturnValue}
    (hevaluate : D.Keeps world evaluate D.Any)
    (scalar : ∀ a, (value a).function? = none ∧ (value a).object? = none) :
    D.Keeps world (assignScalar declared evaluate value) D.Any :=
  keeps_assignScalar hfree hevaluate fun _ a _ => value_scalar (scalar a)

theorem keeps_applyScalarVariableDecl (keeping : D.Keeping ev) {expression : Expression}
    (spares : D.Spares (expressionAssigns · expression)) :
    D.Keeps world (applyScalarVariableDecl ev declared expression) D.Any :=
  (keeps_assignPlainScalar hfree (keeping.int spares) fun _ => ⟨rfl, rfl⟩).orElse <|
    (keeps_assignPlainScalar hfree (keeping.string spares) fun _ => ⟨rfl, rfl⟩).orElse <|
    (keeps_assignPlainScalar hfree (keeping.bigInt spares) fun _ => ⟨rfl, rfl⟩).orElse <|
    (keeps_assignPlainScalar hfree (keeping.nullish spares) fun _ => ⟨rfl, rfl⟩).orElse <|
    keeps_assignPlainScalar hfree (keeping.bool spares) fun _ => ⟨rfl, rfl⟩

end Declarations

theorem keeps_evaluateArgumentExpression (keeping : D.Keeping ev) {argument : Expression}
    (spares : D.Spares (expressionAssigns · argument)) :
    D.Keeps world (evaluateArgumentExpression ev argument) D.Any := by
  unfold evaluateArgumentExpression
  split
  · next pos value =>
    have hvalue : D.Spares (expressionAssigns · value) := spares
    exact (keeping.arrayElements hvalue).map
  · exact keeping.discard spares

variable {arguments : List Expression} {properties : ReturnProperties}

theorem keeps_evaluateArgumentList (keeping : D.Keeping ev)
    (spares : D.Spares (expressionsAssign · arguments)) :
    D.Keeps world (evaluateArgumentList ev arguments) D.Any := by
  induction arguments generalizing world with
  | nil => exact .pureAny _
  | cons argument rest ih =>
      obtain ⟨hargument, hrest⟩ := spares_or spares
      exact (keeps_evaluateArgumentExpression keeping hargument).andThen (ih hrest)

theorem keeps_bindIIFEParameter (keeping : D.Keeping ev) {param : Parameter} {argument : Option Expression}
    (hfree : ¬D.Guarded (parameterName param)) (spares : D.Spares (optionExpressionAssigns · argument)) :
    D.Keeps world (bindIIFEParameter ev param argument) D.Any := by
  obtain ⟨declared, pattern, rest, default⟩ := param
  cases argument with
  | none => exact (Keeps.assign hfree (value_scalar ⟨rfl, rfl⟩)).map
  | some argument =>
      cases default with
      | none => exact (keeps_applyScalarVariableDecl hfree keeping spares).map
      | some value =>
          apply (keeping.nullish spares).probe.attempting
          · exact (keeps_applyScalarVariableDecl hfree keeping spares).map
          · exact fun _ _ => (Keeps.assign hfree (value_scalar ⟨rfl, rfl⟩)).map

theorem spares_head (spares : D.Spares (expressionsAssign · arguments)) :
    D.Spares (optionExpressionAssigns · arguments.head?) := by
  cases arguments with
  | nil => exact spares
  | cons argument rest => exact (spares_or spares).1

theorem spares_tail (spares : D.Spares (expressionsAssign · arguments)) :
    D.Spares (expressionsAssign · arguments.tail) := by
  cases arguments with
  | nil => exact spares
  | cons argument rest => exact (spares_or spares).2

theorem keeps_bindIIFEArguments (keeping : D.Keeping ev) {params : List Parameter}
    (hfree : ∀ param ∈ params, ¬D.Guarded (parameterName param))
    (spares : D.Spares (expressionsAssign · arguments)) :
    D.Keeps world (bindIIFEArguments ev params arguments) D.Any := by
  induction params generalizing world arguments with
  | nil => exact (keeps_evaluateArgumentList keeping spares).map
  | cons param params ih =>
      obtain ⟨hparam, hparams⟩ := List.forall_mem_cons.mp hfree
      apply (keeps_bindIIFEParameter keeping hparam (spares_head spares)).bindAny
      exact fun _ => (ih hparams (spares_tail spares)).map

theorem keeps_bindIIFEDefaults (keeping : D.Keeping ev) {defaults : List Parameter}
    (hdefaults : ∀ param ∈ defaults, ¬D.Guarded (parameterName param) ∧
      D.Spares (optionExpressionAssigns · (parameterDefault param))) :
    D.Keeps world (bindIIFEDefaults ev defaults) D.Any := by
  induction defaults generalizing world with
  | nil => exact .pureAny _
  | cons param rest ih =>
      obtain ⟨⟨hfree, hdefault⟩, hrest⟩ := List.forall_mem_cons.mp hdefaults
      obtain ⟨declared, pattern, isRest, _ | value⟩ := param
      · exact .failure
      · exact (keeps_applyScalarVariableDecl hfree keeping hdefault).andThen (ih hrest)

theorem keeps_bindIIFESelfName {body : IifeBody} (hfree : ¬D.Guarded body.selfName) :
    D.Keeps world (bindIIFESelfName body) D.Any := by
  unfold bindIIFESelfName
  split
  · exact .pureAny _
  · exact Keeps.allocateFunction.bind fun _ _ _ known => .assign hfree (value_function known)

theorem keeps_eachName {act : String → Eval Unit} {names : List String}
    (hact : ∀ {world name}, name ∈ names → D.Keeps world (act name) D.Any) :
    D.Keeps world (eachName act names) D.Any := by
  induction names generalizing world with
  | nil => exact .pureAny _
  | cons name rest ih =>
      exact (hact List.mem_cons_self).andThen (ih fun hmem => hact (List.mem_cons_of_mem name hmem))

theorem keeps_hoistIIFEFunctionBinding {name : String} (hfree : ¬D.Guarded name) :
    D.Keeps world (hoistIIFEFunctionBinding name) D.Any :=
  Keeps.allocateFunction.bind fun _ _ _ known => .assign hfree (value_function known)

theorem keeps_iifeValue (keeping : D.Keeping ev) {evaluate : Expression → Eval α}
    (hevaluate : D.KeepsUnassigned evaluate result) {body : IifeBody} (spares : D.Spares body.assigns) :
    D.Keeps world (iifeValue ev evaluate body) result := by
  obtain ⟨hstatements, hexpression⟩ := spares_or spares
  unfold iifeValue
  split
  · exact .failure
  · apply (keeping.nonReturn hstatements).bindAny
    intro _ flow
    split
    · exact hevaluate hexpression
    · exact .failure

/-! ## Callees -/

theorem functionDeclsNames_splitReturn (statements : List Statement) :
    functionDeclsNames (splitReturn statements).1 = functionDeclsNames statements := by
  fun_induction splitReturn statements with
  | case1 => rfl
  | case2 => rfl
  | case3 statement rest _ ih => rw [functionDeclsNames, functionDeclsNames, ih]

theorem variableDeclsNames_splitReturn (statements : List Statement) :
    variableDeclsNames (splitReturn statements).1 = variableDeclsNames statements := by
  fun_induction splitReturn statements with
  | case1 => rfl
  | case2 => rfl
  | case3 statement rest _ ih => rw [variableDeclsNames, variableDeclsNames, ih]

theorem statementsAssign_splitReturn (name : String) (statements : List Statement) :
    (statementsAssign name (splitReturn statements).1 || expressionAssigns name (splitReturn statements).2) =
      statementsAssign name statements := by
  fun_induction splitReturn statements with
  | case1 => rfl
  | case2 pos value => cases value <;> simp [statementsAssign, statementAssigns, optionExpressionAssigns,
      undefinedLiteral, expressionAssigns]
  | case3 statement rest _ ih => rw [statementsAssign, statementsAssign, ← ih, Bool.or_assoc]

section Callees

variable {selfName : String} {params : List Parameter} {statements : List Statement}
  {expressionBody : Option Expression} {expression : Expression} {state after : Evaluation} {body : IifeBody}

theorem keeps_evaluateFunctionCallableReturnExpression (pos : SourcePos)
    (spares : D.Spares (expressionAssigns · (.functionExpression pos selfName params statements expressionBody))) :
    D.Keeps world (evaluateFunctionCallableReturnExpression selfName params statements expressionBody) D.Body := by
  have hparts : ∀ name, D.Guarded name → ownName selfName params name = false → parametersAssign name params = false ∧
      optionExpressionAssigns name expressionBody = false ∧
        (hoistedName statements name = false → statementsAssign name statements = false) := by
    intro name hguarded
    simpa [expressionAssigns] using spares name hguarded
  cases expressionBody with
  | some expression =>
      apply Keeps.pure
      intro name hguarded hown
      obtain ⟨hparams, hexpression, -⟩ := hparts name hguarded hown
      exact ⟨hparams, fun _ => hexpression⟩
  | none =>
      refine Keeps.scope.bindAny fun scope => .pure fun name hguarded hown => ?_
      obtain ⟨hparams, -, hbody⟩ := hparts name hguarded hown
      refine ⟨hparams, fun hhoisted => ?_⟩
      have hstatements : hoistedName statements name = false := by
        rw [hoistedName, ← functionDeclsNames_splitReturn, ← variableDeclsNames_splitReturn]
        exact hhoisted
      exact (statementsAssign_splitReturn name statements).trans (hbody hstatements)

theorem collected_evaluateFunctionCallableReturnExpression
    (hrun : (evaluateFunctionCallableReturnExpression selfName params statements expressionBody).outcome
      state = (some body, after)) : body.Collected after.scope := by
  cases expressionBody with
  | some expression =>
      cases hrun
      exact ⟨rfl, rfl, rfl, rfl⟩
  | none =>
      obtain ⟨_, _, hscope, hpure⟩ := Eval.outcome_bind_some hrun
      cases hscope
      cases hpure
      exact ⟨rfl, rfl, rfl, rfl⟩

theorem keeps_evaluateCallableReturnExpression (keeping : D.KeepingCalls ev)
    (spares : D.Spares (expressionAssigns · expression)) :
    D.Keeps world (evaluateCallableReturnExpression ev expression) D.Body := by
  unfold evaluateCallableReturnExpression
  split
  · next pos _ _ _ _ => exact keeps_evaluateFunctionCallableReturnExpression pos spares
  · exact keeps_afterDiscarding keeping keeping.callable spares
  · exact keeps_conditionally keeping keeping.callable spares
  · exact .failure

theorem collected_evaluateCallableReturnExpression (keeping : D.KeepingCalls ev)
    (hrun : (evaluateCallableReturnExpression ev expression).outcome state = (some body, after)) :
    body.Collected after.scope := by
  unfold evaluateCallableReturnExpression at hrun
  split at hrun
  · exact collected_evaluateFunctionCallableReturnExpression hrun
  · obtain ⟨_, _, -, hright⟩ := Eval.outcome_bind_some (Eval.outcome_probe_some hrun)
    exact keeping.collected hright
  · obtain ⟨value, _, -, hbranch⟩ := Eval.outcome_bind_some (Eval.outcome_probe_some hrun)
    split at hbranch
    · exact keeping.collected hbranch
    · exact keeping.collected hbranch
  · cases hrun

end Callees

theorem keeps_evaluateEmptyCallableExpression (keeping : D.KeepingCalls ev) {expression : Expression}
    (spares : D.Spares (expressionAssigns · expression)) :
    D.Keeps world (evaluateEmptyCallableExpression ev expression) D.Any := by
  unfold evaluateEmptyCallableExpression
  split
  · split
    · exact .pureAny _
    · exact .failure
  · exact keeps_afterDiscarding keeping keeping.emptyCallable spares
  · exact keeps_conditionally keeping keeping.emptyCallable spares
  · exact .failure

theorem keeps_evaluateEmptyConstructorExpression (keeping : D.KeepingCalls ev) {expression : Expression}
    (spares : D.Spares (expressionAssigns · expression)) :
    D.Keeps world (evaluateEmptyConstructorExpression ev expression) D.Any := by
  unfold evaluateEmptyConstructorExpression
  split
  · split
    · exact .pureAny _
    · exact .failure
  · exact keeps_afterDiscarding keeping keeping.emptyConstructor spares
  · exact keeps_conditionally keeping keeping.emptyConstructor spares
  · exact .failure

theorem keeps_optionally (keeping : D.KeepingCalls ev) {optional : Bool} {target : Expression}
    (spares : D.Spares (expressionAssigns · target)) :
    D.Keeps world (if optional then Eval.probe do
        let _ ← ev.nullish target
        return ReturnNullishKind.undefined
      else failure) D.Any := by
  split
  · exact (keeping.nullish spares).map.probe
  · exact .failure

theorem keeps_evaluateNullishCall (keeping : D.KeepingCalls ev) {callee : Expression}
    {optional : Bool} (hcallee : D.Spares (expressionAssigns · callee))
    (harguments : D.Spares (expressionsAssign · arguments)) :
    D.Keeps world (evaluateNullishCall ev callee arguments optional) D.Any :=
  (keeps_optionally keeping hcallee).orElse <|
    ((keeping.emptyCallable hcallee).andThen (keeps_evaluateArgumentList keeping.toKeeping harguments).map).probe

theorem keeps_evaluateEmptyCallExpression (keeping : D.KeepingCalls ev) {expression : Expression}
    (spares : D.Spares (expressionAssigns · expression)) :
    D.Keeps world (evaluateEmptyCallExpression ev expression) D.Any := by
  apply Keeps.map
  unfold evaluateNullishCallExpression
  split
  · obtain ⟨hcallee, harguments⟩ := spares_or spares
    exact keeps_evaluateNullishCall keeping hcallee harguments
  · exact .failure

theorem keeps_evaluateNewObject (keeping : D.KeepingCalls ev) {callee : Expression}
    (hcallee : D.Spares (expressionAssigns · callee))
    (harguments : D.Spares (expressionsAssign · arguments)) :
    D.Keeps world (evaluateNewObject ev callee arguments) D.Any :=
  ((keeping.emptyConstructor hcallee).andThen (keeps_evaluateArgumentList keeping.toKeeping harguments)).probe

section Coercions

variable {expression : Expression} (keeping : D.KeepingCalls ev)
  (spares : D.Spares (expressionAssigns · expression))
include keeping spares

theorem keeps_evaluateNumericCoercion : D.Keeps world (evaluateNumericCoercion host ev expression) D.Any := by
  apply (keeping.int spares).probe.orElse
  intro _
  apply (keeping.string spares).probing
  · intro _ text _
    split
    · exact .pureAny _
    · exact .failure
  · intro _
    apply (keeping.boolValue spares).map.probe.orElse
    intro _
    apply Keeps.probe
    apply (keeping.nullish spares).bindAny
    intro _ kind
    split
    · exact .pureAny _
    · exact .failure

theorem keeps_evaluateStringCoercion : D.Keeps world (evaluateStringCoercion ev expression) D.Any :=
  (keeping.string spares).probe.orElse <|
    (keeping.int spares).map.probe.orElse <|
    (keeping.boolValue spares).map.probe.orElse <|
    (Keeps.ofOptionAny _).orElse <|
    (keeping.bigInt spares).probe.orElse (keeping.nullish spares).map.probe

theorem keeps_refuseString : D.Keeps world (refuseString ev expression) D.Any := by
  apply (keeping.string spares).isolate.attempt.bindAny
  intro _ text
  split
  · exact .failure
  · exact .pureAny _

theorem keeps_evaluateBinaryNumericOperand (operator : BinaryOperator) :
    D.Keeps world (evaluateBinaryNumericOperand host ev operator expression) D.Any := by
  unfold evaluateBinaryNumericOperand
  split
  · exact (keeps_refuseString keeping spares).andThen (keeps_evaluateNumericCoercion keeping spares)
  · exact keeps_evaluateNumericCoercion keeping spares

theorem keeps_evaluateUnaryNumericOperand (operator : UnaryOperator) :
    D.Keeps world (evaluateUnaryNumericOperand host ev operator expression) D.Any := by
  cases operator with
  | negate | positive | bitNot => exact keeps_evaluateNumericCoercion keeping spares
  | not | void | delete => exact .failure

theorem keeps_evaluateObjectPropertyKey : D.Keeps world (evaluateObjectPropertyKey ev expression) D.Any :=
  (keeps_evaluateStringCoercion keeping spares).probe

theorem keeps_evaluateIndexPropertyNumber : D.Keeps world (evaluateIndexPropertyNumber ev expression) D.Any := by
  apply (keeping.int spares).probe.orElse
  intro _
  apply Keeps.probe
  apply (keeping.bigInt spares).bindAny
  intro _ value
  split
  · exact .pureAny _
  · exact .pureAny _
  · exact .failure

end Coercions


/-! ## Elements and properties -/

theorem keeps_elementOf {evaluate : Eval α} {value : α → ReturnValue} (hevaluate : D.Keeps world evaluate result)
    (known : ∀ later a, result later a → D.Value later (value a)) :
    D.Keeps world (elementOf evaluate value) D.Value :=
  .probe (hevaluate.bind fun later a _ h => .pure (known later a h))

theorem keeps_scalarElementOf {evaluate : Eval α} {value : α → ReturnValue} (hevaluate : D.Keeps world evaluate D.Any)
    (scalar : ∀ a, (value a).function? = none ∧ (value a).object? = none) :
    D.Keeps world (elementOf evaluate value) D.Value :=
  keeps_elementOf hevaluate fun _ a _ => value_scalar (scalar a)

theorem elements_cons {world : D.World} {element : ReturnValue} {elements : List ReturnValue}
    (helement : D.Value world element) (known : D.Elements world elements) : D.Elements world (element :: elements) :=
  List.forall_mem_cons.mpr ⟨helement, known⟩

theorem properties_withProperty {world : D.World} {value : ReturnValue}
    (known : D.Properties world properties) (hvalue : D.Value world value) (key : GoString) :
    D.Properties world (withProperty properties key value) := by
  intro other found h
  by_cases hkey : other = key
  · rw [hkey, withProperty, Function.update_self] at h
    rw [← Option.some.inj h]
    exact hvalue
  · rw [withProperty, Function.update_of_ne hkey] at h
    exact known other found h

theorem properties_none {world : D.World} : D.Properties world fun _ => none := by
  intro key value h
  exact nomatch (show (none : Option ReturnValue) = some value from h)

theorem properties_withSpread {world : D.World} {spreadProperties : ReturnProperties}
    (known : D.Properties world properties) (hspread : D.Properties world spreadProperties) :
    D.Properties world (withSpread properties spreadProperties) := by
  intro key value h
  rcases Option.or_eq_some_iff.mp h with h | ⟨-, h⟩
  · exact hspread key value h
  · exact known key value h

theorem value_propertyOrUndefined {world : D.World} (known : D.Properties world properties)
    (key : GoString) :
    D.Value world (propertyOrUndefined properties key) := by
  unfold propertyOrUndefined
  cases h : properties key with
  | none => exact value_scalar ⟨rfl, rfl⟩
  | some value => exact known key value h

theorem value_elementAt {world : D.World} {elements : List ReturnValue}
    (known : D.Elements world elements) (index : ℤ) : D.Value world (elementAt elements index) := by
  unfold elementAt
  split
  · exact value_scalar ⟨rfl, rfl⟩
  · rw [List.getD_eq_getElem?_getD]
    cases h : elements[index.toNat]? with
    | none => exact value_scalar ⟨rfl, rfl⟩
    | some value => exact known value (List.mem_of_getElem? h)

def Selects (D : Discipline) (select : ReturnValue → Option α) (result : D.World → α → Prop) :
    Prop :=
  ∀ world value a, D.Value world value → select value = some a → result world a

theorem selects_any (select : ReturnValue → Option α) : Selects D select D.Any :=
  fun _ _ _ _ _ => trivial

theorem selects_function : Selects D ReturnValue.function? D.Function := by
  intro world value identity known h
  cases value with
  | function other =>
    rw [← Option.some.inj h]
    exact known.1 other rfl
  | int | bigInt | bool | string | nullish | object => exact nomatch h

theorem selects_object : Selects D ReturnValue.object? D.Object := by
  intro world value identity known h
  cases value with
  | object other =>
    rw [← Option.some.inj h]
    exact known.2 other rfl
  | int | bigInt | bool | string | nullish | function => exact nomatch h

section Elements

variable (keeping : D.KeepingCalls ev)
include keeping

theorem keeps_evaluateArrayLiteralElement {expression : Expression}
    (spares : D.Spares (expressionAssigns · expression)) :
    D.Keeps world (evaluateArrayLiteralElement ev expression) D.Value :=
  (keeps_scalarElementOf (keeping.int spares) fun _ => ⟨rfl, rfl⟩).orElse <|
    (keeps_scalarElementOf (keeping.bigInt spares) fun _ => ⟨rfl, rfl⟩).orElse <|
    (keeps_scalarElementOf (keeping.string spares) fun _ => ⟨rfl, rfl⟩).orElse <|
    (keeps_scalarElementOf (keeping.nullish spares) fun _ => ⟨rfl, rfl⟩).orElse <|
    (keeps_elementOf (keeping.materializeFunction spares) fun _ _ => value_function).orElse <|
    (keeps_elementOf (keeping.materializeObject spares) fun _ _ => value_object).orElse <|
    keeps_scalarElementOf (keeping.bool spares) fun _ => ⟨rfl, rfl⟩

theorem keeps_arrayElements {elements : List (Option Expression)} (spares : D.Spares (elementsAssign · elements)) :
    D.Keeps world (arrayElements ev elements) D.Elements := by
  induction elements generalizing world with
  | nil => exact .pure fun _ h => nomatch h
  | cons element rest ih =>
      obtain ⟨helement, hrest⟩ := spares_or spares
      unfold arrayElements
      split
      · contradiction
      · next heq =>
        cases heq
        exact (ih hrest).bind fun _ _ _ known => .pure (elements_cons (value_scalar ⟨rfl, rfl⟩) known)
      · next pos value _ heq =>
        cases heq
        have hvalue : D.Spares (expressionAssigns · value) := helement
        have hspread : D.Keeps world (ev.arrayElements value <|> evaluateArrayIIFELiteralElements ev value) D.Elements :=
          (keeping.arrayElements hvalue).orElse (keeping.calls keeping.arrayElements .elements hvalue)
        refine hspread.bind fun later spreadElements _ hspread => (ih hrest).bind fun last elements grows known => ?_
        exact .pure fun value hmem => (List.mem_append.mp hmem).elim
          (fun hmem => elements_grow grows hspread value hmem) fun hmem => known value hmem
      · next heq =>
        cases heq
        refine (keeps_evaluateArrayLiteralElement keeping helement).bind fun later value _ hvalue => ?_
        exact (ih hrest).bind fun _ _ grows known => .pure (elements_cons (value_grows grows hvalue) known)

theorem keeps_evaluateArrayLiteralElements {expression : Expression}
    (spares : D.Spares (expressionAssigns · expression)) :
    D.Keeps world (evaluateArrayLiteralElements ev expression) D.Elements := by
  unfold evaluateArrayLiteralElements
  split
  · exact keeps_arrayElements keeping spares
  · exact .failure

theorem keeps_propertyKey {key : String} {computed : Bool} {keyExpr : Option Expression}
    (spares : D.Spares (optionExpressionAssigns · keyExpr)) :
    D.Keeps world (propertyKey ev key computed keyExpr) D.Any := by
  unfold propertyKey
  split
  · cases keyExpr with
    | none => exact .failure
    | some expression => exact keeps_evaluateObjectPropertyKey keeping spares
  · exact .pureAny _

theorem keeps_objectProperties {known : ReturnProperties} {properties : List ObjectProperty}
    (hknown : D.Properties world known) (spares : D.Spares (propertiesAssign · properties)) :
    D.Keeps world (objectProperties host ev known properties) D.Properties := by
  induction properties generalizing world known with
  | nil => exact .pure hknown
  | cons property rest ih =>
      obtain ⟨key, keyExpr, value, computed, spread⟩ := property
      obtain ⟨hkey, hvalues⟩ := spares_or spares
      obtain ⟨hvalue, hrest⟩ := spares_or hvalues
      unfold objectProperties
      split
      · exact .failure
      · split
        · have hspread : D.Keeps world (ev.objectProperties value <|> evaluateObjectIIFELiteralProperties ev value)
              D.Properties :=
            (keeping.objectProperties hvalue).orElse (keeping.calls keeping.objectProperties .properties hvalue)
          exact hspread.bind fun _ _ grows hspread =>
            ih (properties_withSpread (properties_grow grows hknown) hspread) hrest
        · refine (keeps_propertyKey keeping hkey).bind fun later name grows _ => ?_
          refine (keeps_evaluateArrayLiteralElement keeping hvalue).bind fun last element grows' helement => ?_
          exact ih (properties_withProperty (properties_grow (D.trans grows grows') hknown) helement _) hrest

theorem keeps_evaluateObjectLiteralProperties {expression : Expression}
    (spares : D.Spares (expressionAssigns · expression)) :
    D.Keeps world (evaluateObjectLiteralProperties host ev expression) D.Properties := by
  unfold evaluateObjectLiteralProperties
  split
  · exact keeps_objectProperties keeping properties_none spares
  · exact .failure

section Target

variable {target : Expression} (htarget : D.Spares (expressionAssigns · target))
include htarget

theorem keeps_literalProperties : D.Keeps world (literalProperties ev target) D.Properties :=
  (keeping.objectProperties htarget).probe.orElse
    (keeping.calls keeping.objectProperties .properties htarget).probe

theorem keeps_literalElements : D.Keeps world (literalElements ev target) D.Elements :=
  (keeping.arrayElements htarget).probe.orElse (keeping.calls keeping.arrayElements .elements htarget).probe

theorem keeps_evaluateObjectMemberElement (property : String) :
    D.Keeps world (evaluateObjectMemberElement ev target property) D.Value := by
  unfold evaluateObjectMemberElement
  split
  · exact .failure
  · exact (keeps_literalProperties keeping htarget).bind fun _ _ _ known =>
      .pure (value_propertyOrUndefined known _)

theorem keeps_memberElement {select : ReturnValue → Option α} (selects : Selects D select result) (property : String) :
    D.Keeps world (memberElement ev select target property) result :=
  (keeps_evaluateObjectMemberElement keeping htarget property).bind fun later value _ known =>
    .ofOption fun a h => selects later value a known h

variable {index : Expression} (hindex : D.Spares (expressionAssigns · index))
include hindex

theorem keeps_evaluateObjectIndexElement : D.Keeps world (evaluateObjectIndexElement ev target index) D.Value :=
  .probe <| (keeps_literalProperties keeping htarget).bind fun _ _ _ known =>
    (keeps_evaluateObjectPropertyKey keeping hindex).bind fun _ _ grows _ =>
      .pure (value_propertyOrUndefined (properties_grow grows known) _)

theorem keeps_evaluateArrayIndexElement : D.Keeps world (evaluateArrayIndexElement ev target index) D.Value :=
  .probe <| (keeps_literalElements keeping htarget).bind fun _ _ _ known =>
    (keeps_evaluateIndexPropertyNumber keeping hindex).bind fun _ _ grows _ =>
      .pure (value_elementAt (elements_grow grows known) _)

theorem keeps_indexElement {select : ReturnValue → Option α} (selects : Selects D select result) :
    D.Keeps world (indexElement ev select target index) result := by
  apply Keeps.orElse
  · exact (keeps_evaluateArrayIndexElement keeping htarget hindex).bind fun later value _ known =>
      .ofOption fun a h => selects later value a known h
  · exact (keeps_evaluateObjectIndexElement keeping htarget hindex).bind fun later value _ known =>
      .ofOption fun a h => selects later value a known h

theorem keeps_evaluateStringIndex : D.Keeps world (evaluateStringIndex ev target index) D.Any := by
  apply Keeps.probe
  apply (keeping.string htarget).bindAny
  intro _ value
  apply (keeps_evaluateIndexPropertyNumber keeping hindex).bindAny
  intro _ number
  split
  · exact .failure
  · exact .pureAny _

end Target

end Elements

theorem keeps_lookup {read : ReturnScope → Option α}
    (known : ∀ later scope value, D.Snapshot later scope → read scope = some value →
      result later value) :
    D.Keeps world (do
      let scope ← Eval.scope
      Eval.ofOption (read scope)) result :=
  Keeps.scope.bind fun later scope _ snapshot => .ofOption fun value h =>
    known later scope value snapshot h

theorem keeps_lookupAny (read : ReturnScope → Option α) :
    D.Keeps world (do
      let scope ← Eval.scope
      Eval.ofOption (read scope)) D.Any :=
  keeps_lookup fun _ _ _ _ _ => trivial

end Discipline

end Jayess.Lowering
