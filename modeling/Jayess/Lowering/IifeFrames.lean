import Jayess.Lowering.CallFrames
import Jayess.Lowering.Identities

/-!
# Frames of immediately invoked functions

The names that a callee declares are taken from the caller one after the other: the parameters as
they are bound, the callee's own name before the defaults, the hoisted names before the body.
-/

namespace Jayess.Lowering

section

variable (ev : Evaluators)

def scalarValue (expression : Expression) : Eval ReturnValue :=
  (do return .int (← Eval.probe (ev.int expression))) <|>
  (do return .string (← Eval.probe (ev.string expression))) <|>
  (do return .bigInt (← Eval.probe (ev.bigInt expression))) <|>
  (do return .nullish (← Eval.probe (ev.nullish expression))) <|>
  do return .bool (← Eval.probe (ev.bool expression))

/-- The value that is bound to a parameter, and whether the parameter takes its default. -/
def parameterValue : Parameter → Option Expression → Eval (ReturnValue × Bool)
  | ⟨_, _, _, default⟩, none => return (.nullish .undefined, default.isSome)
  | ⟨_, _, _, none⟩, some argument => do return (← scalarValue ev argument, false)
  | ⟨_, _, _, some _⟩, some argument => do
      match ← Eval.attempt (Eval.probe (ev.nullish argument)) with
      | some kind => return (.nullish kind, kind = .undefined)
      | none => return (← scalarValue ev argument, false)

def displacedBindings : List Parameter → List Expression → Evaluation → List (String × VariableBinding)
  | [], _, _ => []
  | param :: params, arguments, state =>
      (parameterName param, ((parameterValue ev param arguments.head?).outcome state).2.scope.bindingOf
          (parameterName param)) ::
        displacedBindings params arguments.tail ((bindIIFEParameter ev param arguments.head?).outcome state).2

end

/-- What a call is asked for, one kind for each function that evaluates calls. -/
inductive IifeKind where
  | int | string | bigInt | bool | nullish | function | object | arrayElements | objectProperties

def IifeKind.Result : IifeKind → Type
  | int => Int64
  | string => GoString
  | bigInt => GoString
  | bool => Bool
  | nullish => ReturnNullishKind
  | function => Identity
  | object => Identity
  | arrayElements => List ReturnValue
  | objectProperties => ReturnProperties

/-- The evaluator of the value that the body returns. -/
def IifeKind.evaluate (ev : Evaluators) : (kind : IifeKind) → Expression → Eval kind.Result
  | int => ev.int
  | string => ev.string
  | bigInt => ev.bigInt
  | bool => ev.bool
  | nullish => ev.nullish
  | function => ev.materializeFunction
  | object => ev.materializeObject
  | arrayElements => ev.arrayElements
  | objectProperties => ev.objectProperties

theorem IifeKind.keeps_evaluate {name : String} {ev : Evaluators} (keeping : (frameDiscipline name).Keeping ev)
    (kind : IifeKind) : (frameDiscipline name).KeepsUnassigned (kind.evaluate ev) (frameDiscipline name).Any := by
  intro world expression spares
  cases kind with
  | int => exact keeping.int spares
  | string => exact keeping.string spares
  | bigInt => exact keeping.bigInt spares
  | bool => exact keeping.bool spares
  | nullish => exact keeping.nullish spares
  | function => exact (keeping.materializeFunction spares).any
  | object => exact (keeping.materializeObject spares).any
  | arrayElements => exact (keeping.arrayElements spares).any
  | objectProperties => exact (keeping.objectProperties spares).any

namespace IifeCall

variable {α : Type} {ev : Evaluators} {evaluate : Expression → Eval α} {callee : Expression}
  {arguments : List Expression} {state after : Evaluation} {value : α} {name : String}
  (call : IifeCall ev evaluate callee arguments state value after)

def callerBinding (name : String) : VariableBinding :=
  match (displacedBindings ev call.body.params arguments call.called).lookup name with
  | some binding => binding
  | none =>
      if name = call.body.selfName then call.argued.scope.bindingOf name
      else call.bound.scope.bindingOf name

/-- The names that the callee declares are what the caller had for them, and of the others only those that
the body assigns are not what they were before it. -/
structure Frames : Prop where
  declared : ∀ name, name ≠ "" → call.body.declares name = true →
    after.scope.bindingOf name = call.callerBinding name
  outer : ∀ name, name ≠ "" → call.body.declares name = false →
    after.scope.bindingOf name ≠ call.bound.scope.bindingOf name → call.body.assigns name = true

/-- Nothing is known of a parameter's name where the parameter is bound. Of the hoisted names, those that the
caller knows when the callee is found are left alone by the defaults, and of the others nothing is known just
before the body. -/
structure Orderly : Prop where
  params : ∀ name, name ∈ call.body.params.map parameterName → call.callerBinding name = unknownBinding
  known : ∀ name, name ≠ "" → ownName call.body.selfName call.body.params name = false →
    hoistedName call.body.statements name = true → call.called.scope.bindingKnown name = true →
      call.bound.scope.bindingOf name = call.argued.scope.bindingOf name
  unknown : ∀ name, name ≠ "" → ownName call.body.selfName call.body.params name = false →
    hoistedName call.body.statements name = true → call.called.scope.bindingKnown name = false →
      call.bound.scope.bindingOf name = unknownBinding

theorem lookup_displacedBindings {params : List Parameter} (hmem : name ∉ params.map parameterName) :
    (displacedBindings ev params arguments state).lookup name = none := by
  induction params generalizing arguments state with
  | nil => rfl
  | cons param params ih =>
      rw [List.map_cons, List.mem_cons, not_or] at hmem
      rw [displacedBindings, List.lookup_cons, beq_false_of_ne hmem.1]
      exact ih hmem.2

section Own

variable {call : IifeCall ev evaluate callee arguments state value after}

theorem callerBinding_self (hmem : name ∉ call.body.params.map parameterName)
    (hself : name = call.body.selfName) : call.callerBinding name = call.argued.scope.bindingOf name := by
  rw [callerBinding, lookup_displacedBindings hmem]
  exact if_pos hself

theorem callerBinding_outer (hown : ownName call.body.selfName call.body.params name = false) :
    call.callerBinding name = call.bound.scope.bindingOf name := by
  obtain ⟨hself, hparam⟩ := Bool.or_eq_false_iff.mp hown
  rw [callerBinding, lookup_displacedBindings (of_decide_eq_false hparam)]
  exact if_neg (of_decide_eq_false hself)

theorem after_param (hname : name ≠ "") (hparam : name ∈ call.body.params.map parameterName) :
    after.scope.bindingOf name = unknownBinding := by
  rw [call.after_bindingOf hname, IifeBody.leftBinding, if_pos hparam]

theorem after_self (hname : name ≠ "") (hparam : name ∉ call.body.params.map parameterName)
    (hself : name = call.body.selfName) :
    after.scope.bindingOf name = call.argued.scope.bindingOf name := by
  rw [call.after_bindingOf hname, IifeBody.leftBinding, if_neg hparam, if_pos (.inl hself)]

variable (keeping : (frameDiscipline name).Keeping ev) (hname : name ≠ "")
  (hown : ownName call.body.selfName call.body.params name = false)
include keeping hname hown

theorem after_hoisted (hhoisted : hoistedName call.body.statements name = true) :
    after.scope.bindingOf name =
      if call.called.scope.bindingKnown name then call.argued.scope.bindingOf name else unknownBinding := by
  obtain ⟨hself, hparam⟩ := Bool.or_eq_false_iff.mp hown
  have hcollected := keeping.collected call.found
  have hrestored := IifeBody.mem_restored hname hown hcollected
  have hcleared := IifeBody.mem_cleared hname hown hcollected
  rw [call.after_bindingOf hname, IifeBody.leftBinding, if_neg (of_decide_eq_false hparam)]
  cases hknown : call.called.scope.bindingKnown name with
  | true => rw [if_pos (.inr (hrestored.mpr ⟨hhoisted, hknown⟩)), if_pos rfl]
  | false =>
      have hnot : name ∉ call.body.restored := fun hmem =>
        Bool.false_ne_true (hknown.symm.trans (hrestored.mp hmem).2)
      rw [if_neg (not_or.mpr ⟨of_decide_eq_false hself, hnot⟩), if_pos (hcleared.mpr ⟨hhoisted, hknown⟩)]
      rfl

theorem after_outer (hhoisted : hoistedName call.body.statements name = false)
    (hevaluate : (frameDiscipline name).KeepsUnassigned evaluate (frameDiscipline name).Any)
    (hspares : call.body.assigns name = false) :
    after.scope.bindingOf name = call.bound.scope.bindingOf name := by
  obtain ⟨hself, hparam⟩ := Bool.or_eq_false_iff.mp hown
  have hcollected := keeping.collected call.found
  have hnotHoisted : ¬hoistedName call.body.statements name = true := Bool.eq_false_iff.mp hhoisted
  have hrestored : name ∉ call.body.restored := fun hmem =>
    hnotHoisted ((IifeBody.mem_restored hname hown hcollected).mp hmem).1
  have hcleared : name ∉ call.body.cleared := fun hmem =>
    hnotHoisted ((IifeBody.mem_cleared hname hown hcollected).mp hmem).1
  rw [call.after_bindingOf hname, IifeBody.leftBinding, if_neg (of_decide_eq_false hparam),
    if_neg (not_or.mpr ⟨of_decide_eq_false hself, hrestored⟩), if_neg hcleared]
  exact call.evaluated_bindingOf keeping hevaluate hcleared hrestored hspares

end Own

/-- A call frames its names exactly if neither its arguments nor its defaults change what the callee
declares. -/
theorem frames_iff (keeping : ∀ name, name ≠ "" → (frameDiscipline name).Keeping ev)
    (hevaluate : ∀ name, name ≠ "" →
      (frameDiscipline name).KeepsUnassigned evaluate (frameDiscipline name).Any) :
    call.Frames ↔ call.Orderly := by
  constructor
  · intro hframes
    refine ⟨?params, ?known, ?unknown⟩
    case params =>
      intro name hparam
      have hname : name ≠ "" := (call.bindable_param hparam).1
      have hown : ownName call.body.selfName call.body.params name = true :=
        (Bool.or_eq_true _ _).mpr (.inr (decide_eq_true hparam))
      have hdeclares : call.body.declares name = true := (Bool.or_eq_true _ _).mpr (.inl hown)
      rw [← hframes.declared name hname hdeclares, after_param hname hparam]
    case known =>
      intro name hname hown hhoisted hknown
      have hdeclares : call.body.declares name = true := (Bool.or_eq_true _ _).mpr (.inr hhoisted)
      rw [← callerBinding_outer hown, ← hframes.declared name hname hdeclares,
        after_hoisted (keeping name hname) hname hown hhoisted, if_pos hknown]
    case unknown =>
      intro name hname hown hhoisted hunknown
      have hdeclares : call.body.declares name = true := (Bool.or_eq_true _ _).mpr (.inr hhoisted)
      rw [← callerBinding_outer hown, ← hframes.declared name hname hdeclares,
        after_hoisted (keeping name hname) hname hown hhoisted, hunknown]
      rfl
  · intro horderly
    refine ⟨?declared, ?outer⟩
    case declared =>
      intro name hname hdeclares
      by_cases hparam : name ∈ call.body.params.map parameterName
      · rw [after_param hname hparam, horderly.params name hparam]
      by_cases hself : name = call.body.selfName
      · rw [after_self hname hparam hself, callerBinding_self hparam hself]
      have hown : ownName call.body.selfName call.body.params name = false :=
        Bool.or_eq_false_iff.mpr ⟨decide_eq_false hself, decide_eq_false hparam⟩
      have hhoisted : hoistedName call.body.statements name = true := by
        rwa [IifeBody.declares, hown, Bool.false_or] at hdeclares
      rw [after_hoisted (keeping name hname) hname hown hhoisted, callerBinding_outer hown]
      cases hknown : call.called.scope.bindingKnown name with
      | true => exact (horderly.known name hname hown hhoisted hknown).symm
      | false => exact (horderly.unknown name hname hown hhoisted hknown).symm
    case outer =>
      intro name hname hdeclares hchanged
      obtain ⟨hown, hhoisted⟩ := Bool.or_eq_false_iff.mp hdeclares
      by_contra hassigns
      exact hchanged (after_outer (keeping name hname) hname hown hhoisted (hevaluate name hname)
        (Bool.eq_false_iff.mpr hassigns))

end IifeCall

/-- In every call that succeeds, of whatever kind, the names are framed exactly if the arguments and the
defaults leave alone what the callee declares. -/
theorem evaluateIIFEValue_frames_iff (host : Host) (depth : ℕ) (kind : IifeKind) (pos : SourcePos)
    (callee : Expression) (arguments : List Expression) (optional : Bool) {state after : Evaluation}
    {value : kind.Result}
    (hrun : (evaluateIIFEValue (evaluators host depth) (kind.evaluate (evaluators host depth))
      (.invoke pos callee arguments optional)).outcome state = (some value, after)) :
    ∃ call : IifeCall (evaluators host depth) (kind.evaluate (evaluators host depth)) callee arguments state
      value after, call.Frames ↔ call.Orderly := by
  obtain ⟨call⟩ := nonempty_iifeCall hrun
  refine ⟨call, call.frames_iff ?_ ?_⟩
  · exact fun name hname => Discipline.keeping_evaluators (frame_scopes hname) host depth
  · exact fun name hname => kind.keeps_evaluate (Discipline.keeping_evaluators (frame_scopes hname) host depth)

/-- `(function (a) { var b; return a; })(null)`. -/
def nullArgument : Expression :=
  .functionExpression ⟨0, 0⟩ "" [⟨"a", some (.name "a"), false, none⟩]
    [.variableDecl ⟨0, 0⟩ .var "b" none none, .returnStatement ⟨0, 0⟩ (some (identifierOf "a"))] none

theorem nullArgument_frames_iff :
    ∃ call : IifeCall (evaluators plainHost 4) (evaluators plainHost 4).nullish nullArgument
        [.nullLiteral ⟨0, 0⟩] initialEvaluation .null
        ((evaluateIIFEValue (evaluators plainHost 4) (evaluators plainHost 4).nullish
          (.invoke ⟨0, 0⟩ nullArgument [.nullLiteral ⟨0, 0⟩] false)).outcome initialEvaluation).2,
      call.Frames ↔ call.Orderly :=
  evaluateIIFEValue_frames_iff plainHost 4 .nullish ⟨0, 0⟩ nullArgument [.nullLiteral ⟨0, 0⟩] false
    (Prod.ext rfl rfl)

/-- `(function (a = value++) { var value; })()`. -/
def shiftingDefault : Expression :=
  .functionExpression ⟨0, 0⟩ ""
    [⟨"a", some (.name "a"), false, some (.update ⟨0, 0⟩ .increment (identifierOf "value") false)⟩]
    [.variableDecl ⟨0, 0⟩ .var "value" none none] none

def valueKnown : Evaluation :=
  { initialEvaluation with scope := ReturnScope.empty.store "value" (.int 7) }

/-- The default counts the caller's variable up before the body, and the call ends with what it was before
that. -/
theorem shiftingDefault_not_framed :
    ¬∀ (host : Host) (depth : ℕ) (kind : IifeKind) (pos : SourcePos) (callee : Expression)
      (arguments : List Expression) (optional : Bool) (state after : Evaluation) (value : kind.Result),
      (evaluateIIFEValue (evaluators host depth) (kind.evaluate (evaluators host depth))
        (.invoke pos callee arguments optional)).outcome state = (some value, after) →
      ∃ call : IifeCall (evaluators host depth) (kind.evaluate (evaluators host depth)) callee arguments state
        value after, call.Frames := by
  intro hholds
  obtain ⟨⟨body, defaults, called, argued, bound, evaluated, hfound, hbindable, hbinds, hpresets, hruns,
    hleaves⟩, hframes⟩ := hholds plainHost 4 .nullish ⟨0, 0⟩ shiftingDefault [] false valueKnown _ .undefined
      (Prod.ext rfl rfl)
  cases hfound
  cases hbinds
  obtain rfl := congrArg Prod.snd hpresets
  have hvalue := hframes.declared "value" (by decide) rfl
  have hcount : some (7 : Int64) = some 8 := congrArg VariableBinding.int hvalue
  exact absurd hcount (by decide)

end Jayess.Lowering
