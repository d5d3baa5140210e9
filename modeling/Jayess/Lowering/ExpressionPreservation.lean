import Jayess.Lowering.Preservation

/-! # What the evaluators of expressions preserve -/

namespace Jayess.Lowering

namespace Discipline

variable {α β : Type} {D : Discipline} {ev : Evaluators} {host : Host} {world : D.World}
  {result : D.World → α → Prop}

theorem keeps_typeofProbe {evaluate : Eval α} (hevaluate : D.Keeps world evaluate result) (text : α → String) :
    D.Keeps world (typeofProbe evaluate text) D.Any :=
  hevaluate.map.probe

section Strings

variable (keeping : D.KeepingCalls ev)
include keeping

theorem keeps_evaluateTypeofString {expression : Expression}
    (spares : D.Spares (expressionAssigns · expression)) :
    D.Keeps world (evaluateTypeofString ev expression) D.Any := by
  unfold evaluateTypeofString
  split
  · exact Keeps.scope.map
  all_goals try exact .pureAny _
  exact (keeps_typeofProbe (keeping.int spares) _).orElse <|
    (keeps_typeofProbe (keeping.string spares) _).orElse <|
    (keeps_typeofProbe (keeping.bigInt spares) _).orElse <|
    (keeps_typeofProbe (keeping.functionReference spares) _).orElse <|
    (keeps_typeofProbe (keeping.objectReference spares) _).orElse <|
    (keeps_typeofProbe (keeping.nullish spares) _).orElse <|
    keeps_typeofProbe (keeping.bool spares) _

theorem keeps_evaluateStringBinary {operator : BinaryOperator} {left right : Expression}
    (hleft : D.Spares (expressionAssigns · left)) (hright : D.Spares (expressionAssigns · right)) :
    D.Keeps world (evaluateStringBinary ev operator left right) D.Any := by
  unfold evaluateStringBinary
  split
  · apply (keeping.string hleft).probing
    · exact fun _ _ => (keeps_evaluateStringCoercion keeping hright).map
    · exact ((keeps_evaluateStringCoercion keeping hleft).bindAny fun _ => (keeping.string hright).map).probe
  · exact .failure

omit keeping in
theorem spares_mem {expressions : List Expression} {expression : Expression}
    (spares : D.Spares (expressionsAssign · expressions)) (hmem : expression ∈ expressions) :
    D.Spares (expressionAssigns · expression) := by
  induction expressions with
  | nil => cases hmem
  | cons other rest ih =>
      obtain ⟨hother, hrest⟩ := spares_or spares
      rcases List.mem_cons.mp hmem with rfl | hmem
      · exact hother
      · exact ih hrest hmem

theorem keeps_evaluateTemplateLiteral {value : String} {expressions : List Expression}
    (spares : D.Spares (expressionsAssign · expressions)) :
    D.Keeps world (evaluateTemplateLiteral host ev value expressions) D.Any := by
  apply Keeps.map
  apply evaluateTemplateStringLoop_parts (motive := fun m => ∀ world, D.Keeps world m D.Any)
  · exact fun _ => .pureAny _
  · exact fun _ => .failure
  · intro expression hmem rest ih world
    have hexpression := spares_mem spares hmem
    exact (keeps_evaluateStringCoercion keeping hexpression).map.bindAny fun _ => (ih _).map
  · exact fun _ _ ih world => (ih world).map

theorem keeps_evaluateStringExpression {expression : Expression}
    (spares : D.Spares (expressionAssigns · expression)) :
    D.Keeps world (evaluateStringExpression host ev expression) D.Any := by
  unfold evaluateStringExpression
  split
  · exact keeps_lookupAny _
  · exact .pureAny _
  · exact keeps_evaluateTemplateLiteral keeping spares
  · next pos value =>
    have hvalue : D.Spares (expressionAssigns · value) := spares
    exact keeps_evaluateTypeofString keeping hvalue
  · next pos target property _ _ =>
    have htarget : D.Spares (expressionAssigns · target) := spares
    exact keeps_memberElement keeping htarget (selects_any _) _
  · obtain ⟨htarget, hindex⟩ := spares_or spares
    exact (keeps_indexElement keeping htarget hindex (selects_any _)).orElse
      (keeps_evaluateStringIndex keeping htarget hindex)
  · exact keeping.calls keeping.string .any spares
  · obtain ⟨hleft, hright⟩ := spares_or spares
    exact keeps_evaluateStringBinary keeping hleft hright
  · exact keeps_logically keeping keeping.string spares
  · exact keeps_conditionally keeping keeping.string spares
  · exact keeps_afterDiscarding keeping keeping.string spares
  · exact keeps_coalescing keeping keeping.string spares keeping.string
  · exact .failure

theorem keeps_evaluateIntMember {target : Expression} {property : String}
    (htarget : D.Spares (expressionAssigns · target)) :
    D.Keeps world (evaluateIntMember ev target property) D.Any := by
  unfold evaluateIntMember
  split
  · exact (keeping.string htarget).map.probe.orElse <|
      (keeping.arrayElements htarget).map.probe.orElse <|
      (keeping.calls keeping.arrayElements .elements htarget).map.probe
  · exact keeps_memberElement keeping htarget (selects_any _) _

end Strings

variable {target : Expression} {isPrefix : Bool} {known : D.World → Identity → Prop}

theorem spares_update {pos : SourcePos} {operator : UpdateOperator}
    (spares : D.Spares (expressionAssigns · (.update pos operator target isPrefix))) :
    D.Spares (isTarget · target) :=
  (spares_or spares).1

theorem keeps_reading {next : ReturnScope → Eval α}
    (reading : ∀ state, D.Holds world state → ∃ later, D.Grows world later ∧
      D.Holds later ((next state.scope).outcome state).2 ∧
      ∀ value, ((next state.scope).outcome state).1 = some value → result later value) :
    D.Keeps world (Eval.scope >>= next) result := by
  intro state holds
  rw [Eval.outcome_bind]
  exact reading state holds

theorem keeps_evaluateIntUpdateExpression {operator : UpdateOperator}
    (spares : D.Spares (isTarget · target)) :
    D.Keeps world (evaluateIntUpdateExpression operator isPrefix target) D.Any := by
  unfold evaluateIntUpdateExpression
  split
  · apply keeps_reading
    intro state holds
    split
    · exact Keeps.failure state holds
    · rename_i name _
      cases hcurrent : state.scope.ints name with
      | none => exact Keeps.failure state holds
      | some current =>
        have bound : (state.scope.ints name).isSome := by rw [hcurrent]; rfl
        exact ⟨world, D.refl world, D.overwrite_int name _ (spares_target spares) holds bound, fun _ _ => trivial⟩
  · exact .failure

theorem keeps_evaluateBigIntUpdateExpression {operator : UpdateOperator}
    (spares : D.Spares (isTarget · target)) :
    D.Keeps world (evaluateBigIntUpdateExpression operator isPrefix target) D.Any := by
  unfold evaluateBigIntUpdateExpression
  split
  · apply keeps_reading
    intro state holds
    split
    · exact Keeps.failure state holds
    · rename_i name _
      cases hcurrent : state.scope.bigints name with
      | none => exact Keeps.failure state holds
      | some current =>
        have bound : (state.scope.bigints name).isSome := by rw [hcurrent]; rfl
        cases hnext : updatedBigIntValue operator current with
        | none =>
          simp only [Eval.ofOption, pure_bind, hnext]
          exact Keeps.failure state holds
        | some next =>
          simp only [Eval.ofOption, pure_bind, hnext]
          exact ⟨world, D.refl world, D.overwrite_bigInt name _ (spares_target spares) holds bound, fun _ _ => trivial⟩
  · exact .failure

section Values

variable (keeping : D.KeepingCalls ev)
include keeping

theorem keeps_evaluateIntExpression {expression : Expression}
    (spares : D.Spares (expressionAssigns · expression)) :
    D.Keeps world (evaluateIntExpression host ev expression) D.Any := by
  unfold evaluateIntExpression
  split
  · exact keeps_lookupAny _
  · exact .ofOptionAny _
  · next pos target property _ _ =>
    have htarget : D.Spares (expressionAssigns · target) := spares
    exact keeps_evaluateIntMember keeping htarget
  · obtain ⟨htarget, hindex⟩ := spares_or spares
    exact keeps_indexElement keeping htarget hindex (selects_any _)
  · next pos operator right =>
    have hright : D.Spares (expressionAssigns · right) := spares
    exact (keeps_evaluateUnaryNumericOperand keeping hright _).bindAny fun _ => .ofOptionAny _
  · exact keeps_evaluateIntUpdateExpression (spares_update spares)
  · exact keeping.calls keeping.int .any spares
  · obtain ⟨hleft, hright⟩ := spares_or spares
    exact (keeps_evaluateBinaryNumericOperand keeping hleft _).bindAny fun _ =>
      (keeps_evaluateBinaryNumericOperand keeping hright _).bindAny fun _ => .ofOptionAny _
  · exact keeps_logically keeping keeping.int spares
  · exact keeps_conditionally keeping keeping.int spares
  · exact keeps_afterDiscarding keeping keeping.int spares
  · exact keeps_coalescing keeping keeping.int spares keeping.int
  · exact .failure

theorem keeps_evaluateBigIntUnary {operator : UnaryOperator} {right : Expression}
    (hright : D.Spares (expressionAssigns · right)) :
    D.Keeps world (evaluateBigIntUnary ev operator right) D.Any := by
  cases operator with
  | negate => exact (keeping.bigInt hright).map
  | bitNot => exact (keeping.bigInt hright).bindAny fun _ => .ofOptionAny _
  | positive | not | void | delete => exact .failure

theorem keeps_evaluateBigIntValue {expression : Expression}
    (spares : D.Spares (expressionAssigns · expression)) :
    D.Keeps world (evaluateBigIntValue ev expression) D.Any := by
  unfold evaluateBigIntValue
  split
  · exact keeps_lookupAny _
  · next pos target property _ _ =>
    have htarget : D.Spares (expressionAssigns · target) := spares
    exact keeps_memberElement keeping htarget (selects_any _) _
  · obtain ⟨htarget, hindex⟩ := spares_or spares
    exact keeps_indexElement keeping htarget hindex (selects_any _)
  · next pos operator right =>
    have hright : D.Spares (expressionAssigns · right) := spares
    exact keeps_evaluateBigIntUnary keeping hright
  · exact keeps_evaluateBigIntUpdateExpression (spares_update spares)
  · exact keeping.calls keeping.bigInt .any spares
  · obtain ⟨hleft, hright⟩ := spares_or spares
    exact (keeping.bigInt hleft).bindAny fun _ => (keeping.bigInt hright).bindAny fun _ => .ofOptionAny _
  · exact keeps_logically keeping keeping.bigInt spares
  · exact keeps_conditionally keeping keeping.bigInt spares
  · exact keeps_afterDiscarding keeping keeping.bigInt spares
  · exact keeps_coalescing keeping keeping.bigInt spares keeping.bigInt
  · exact .ofOptionAny _

variable {target : Expression}

theorem keeps_evaluateNullishIndex {index : Expression} {optional : Bool}
    (htarget : D.Spares (expressionAssigns · target))
    (hindex : D.Spares (expressionAssigns · index)) :
    D.Keeps world (evaluateNullishIndex ev target index optional) D.Any := by
  apply (keeps_optionally keeping htarget).orElse
  intro _
  apply Keeps.probe
  apply (keeping.string htarget).bindAny
  intro _ value
  apply (keeps_evaluateIndexPropertyNumber keeping hindex).bindAny
  intro _ number
  split
  · exact .failure
  · exact .pureAny _

theorem keeps_evaluateNullishExpression {expression : Expression}
    (spares : D.Spares (expressionAssigns · expression)) :
    D.Keeps world (evaluateNullishExpression ev expression) D.Any := by
  unfold evaluateNullishExpression
  split
  · exact keeps_lookupAny _
  · exact .pureAny _
  · exact .pureAny _
  · next pos target property _ _ =>
    have htarget : D.Spares (expressionAssigns · target) := spares
    exact (keeps_optionally keeping htarget).orElse (keeps_memberElement keeping htarget (selects_any _) _)
  · obtain ⟨htarget, hindex⟩ := spares_or spares
    exact (keeps_indexElement keeping htarget hindex (selects_any _)).orElse
      (keeps_evaluateNullishIndex keeping htarget hindex)
  · next pos operator right =>
    have hright : D.Spares (expressionAssigns · right) := spares
    split
    · exact (keeping.discard hright).map
    · exact .failure
  · obtain ⟨hcallee, harguments⟩ := spares_or spares
    exact (keeping.calls keeping.nullish .any spares).orElse
      (keeps_evaluateNullishCall keeping hcallee harguments)
  · exact keeps_logically keeping keeping.nullish spares
  · exact keeps_conditionally keeping keeping.nullish spares
  · exact keeps_afterDiscarding keeping keeping.nullish spares
  · exact keeps_coalescing keeping keeping.nullish spares fun _ => .failure
  · exact .failure

theorem keeps_evaluateMemberTruthiness {property : String}
    (htarget : D.Spares (expressionAssigns · target)) :
    D.Keeps world (evaluateMemberTruthiness ev target property) D.Any :=
  (keeps_evaluateObjectMemberElement keeping htarget property).map.probe.orElse
    (keeps_evaluateIntMember keeping htarget).map.probe

theorem keeps_evaluateIndexTruthiness {index : Expression} {optional : Bool}
    (htarget : D.Spares (expressionAssigns · target))
    (hindex : D.Spares (expressionAssigns · index)) :
    D.Keeps world (evaluateIndexTruthiness ev target index optional) D.Any :=
  (keeps_evaluateArrayIndexElement keeping htarget hindex).map.probe.orElse <|
    (keeps_evaluateObjectIndexElement keeping htarget hindex).map.probe.orElse <|
    (keeps_evaluateStringIndex keeping htarget hindex).map.probe.orElse
    (keeps_evaluateNullishIndex keeping htarget hindex).map.probe

theorem keeps_evaluateFoldedExpressionTruthiness {expression : Expression}
    (spares : D.Spares (expressionAssigns · expression)) :
    D.Keeps world (evaluateFoldedExpressionTruthiness ev expression) D.Any := by
  have hoperator : ∀ {expression}, D.Spares (expressionAssigns · expression) →
      D.Keeps world (evaluateOperatorTruthiness ev expression) D.Any := fun h =>
    (keeping.int h).map.probe.orElse <| (keeping.nullish h).map.probe.orElse <|
      (keeping.bigInt h).map.probe.orElse (keeping.string h).map.probe
  unfold evaluateFoldedExpressionTruthiness
  split
  · exact hoperator spares
  · exact hoperator spares
  · exact (keeping.string spares).map.probe
  · exact (keeping.string spares).map.probe
  · exact .failure

theorem keeps_evaluateBoolLogical {operator : LogicalOperator} {left right : Expression}
    (hleft : D.Spares (expressionAssigns · left)) (hright : D.Spares (expressionAssigns · right)) :
    D.Keeps world (evaluateBoolLogical ev operator left right) D.Any := by
  apply (keeping.bool hleft).bindAny
  intro _ value
  cases operator with
  | and =>
      cases value with
      | true => exact keeping.bool hright
      | false => exact .pureAny _
  | or =>
      cases value with
      | true => exact .pureAny _
      | false => exact keeping.bool hright

end Values

theorem keeps_evaluateUpdateTruthiness {operator : UpdateOperator}
    (htarget : D.Spares (isTarget · target)) :
    D.Keeps world (evaluateUpdateTruthiness operator isPrefix target) D.Any :=
  (keeps_evaluateIntUpdateExpression htarget).map.orElse
    (keeps_evaluateBigIntUpdateExpression htarget).map

def Reference (known : D.World → Identity → Prop) (world : D.World)
    (reference : ComparisonReference) : Prop :=
  ∀ identity, reference = some identity → known world identity

theorem reference_some {identity : Identity} (h : known world identity) :
    Reference known world (some identity) := by
  intro other heq
  rw [← Option.some.inj heq]
  exact h

theorem reference_none : Reference known world none := by
  intro other heq
  exact nomatch heq

theorem keeps_sameComparisonReference
    (compare : ∀ {world left right}, known world left → known world right →
      D.Keeps world (sameIdentity left right) D.Any) {left right : ComparisonReference}
    (hleft : Reference known world left) (hright : Reference known world right) :
    D.Keeps world (sameComparisonReference left right) D.Any := by
  unfold sameComparisonReference
  split
  · exact compare (hleft _ rfl) (hright _ rfl)
  · exact .pureAny _

/-- What the comparison of references of one sort needs: that identities of the sort stay known, and
that two of them may be compared. -/
structure Comparable (D : Discipline) (known : D.World → Identity → Prop) : Prop where
  grows : ∀ {world later identity}, D.Grows world later → known world identity →
    known later identity
  compare : ∀ {world left right}, known world left → known world right →
    D.Keeps world (sameIdentity left right) D.Any

theorem comparable_objects : Comparable D D.Object := ⟨D.object_grows, Keeps.compareObjects⟩

theorem comparable_functions : Comparable D D.Function := ⟨D.function_grows, Keeps.compareFunctions⟩

variable (keeping : D.KeepingCalls ev)
include keeping

theorem keeps_evaluateFunctionIdentity {expression : Expression}
    (spares : D.Spares (expressionAssigns · expression)) :
    D.Keeps world (evaluateFunctionIdentity ev expression) D.Function := by
  unfold evaluateFunctionIdentity
  split
  · exact keeps_lookup fun _ _ _ => D.function_of_snapshot
  · next pos target property _ _ =>
    have htarget : D.Spares (expressionAssigns · target) := spares
    exact keeps_memberElement keeping htarget selects_function _
  · obtain ⟨htarget, hindex⟩ := spares_or spares
    exact keeps_indexElement keeping htarget hindex selects_function
  · exact keeping.calls keeping.materializeFunction .function spares
  · exact keeps_logically keeping keeping.functionIdentity spares
  · exact keeps_conditionally keeping keeping.functionIdentity spares
  · exact keeps_afterDiscarding keeping keeping.functionIdentity spares
  · exact keeps_coalescingReference keeping keeping.functionIdentity spares
  · exact .failure

theorem keeps_evaluateObjectIdentity {expression : Expression}
    (spares : D.Spares (expressionAssigns · expression)) :
    D.Keeps world (evaluateObjectIdentity ev expression) D.Object := by
  unfold evaluateObjectIdentity
  split
  · exact keeps_lookup fun _ _ _ => D.object_of_snapshot
  · next pos target property _ _ =>
    have htarget : D.Spares (expressionAssigns · target) := spares
    exact keeps_memberElement keeping htarget selects_object _
  · obtain ⟨htarget, hindex⟩ := spares_or spares
    exact keeps_indexElement keeping htarget hindex selects_object
  · exact keeping.calls keeping.materializeObject .object spares
  · exact keeps_logically keeping keeping.objectIdentity spares
  · exact keeps_conditionally keeping keeping.objectIdentity spares
  · exact keeps_afterDiscarding keeping keeping.objectIdentity spares
  · exact keeps_coalescingReference keeping keeping.objectIdentity spares
  · exact .failure

theorem keeps_materializeFunctionIdentity {expression : Expression}
    (spares : D.Spares (expressionAssigns · expression)) :
    D.Keeps world (materializeFunctionIdentity ev expression) D.Function := by
  unfold materializeFunctionIdentity
  split
  · exact keeps_afterDiscarding keeping keeping.materializeFunction spares
  · exact .allocateFunction
  · exact keeping.calls keeping.materializeFunction .function spares
  · exact keeps_logically keeping keeping.materializeFunction spares
  · exact keeps_conditionally keeping keeping.materializeFunction spares
  · exact keeps_coalescingReference keeping keeping.materializeFunction spares
  · exact keeping.functionIdentity spares

theorem keeps_materializeObjectIdentity {expression : Expression}
    (spares : D.Spares (expressionAssigns · expression)) :
    D.Keeps world (materializeObjectIdentity ev expression) D.Object := by
  unfold materializeObjectIdentity
  split
  · exact keeps_afterDiscarding keeping keeping.materializeObject spares
  · exact .allocateObject
  · exact .allocateObject
  · exact keeping.calls keeping.materializeObject .object spares
  · exact keeps_logically keeping keeping.materializeObject spares
  · exact keeps_conditionally keeping keeping.materializeObject spares
  · exact keeps_coalescingReference keeping keeping.materializeObject spares
  · obtain ⟨hcallee, harguments⟩ := spares_or spares
    exact (keeps_evaluateNewObject keeping hcallee harguments).andThen .allocateObject
  · exact keeping.objectIdentity spares

theorem keeps_evaluateFunctionReferenceExpression {expression : Expression}
    (spares : D.Spares (expressionAssigns · expression)) :
    D.Keeps world (evaluateFunctionReferenceExpression ev expression) D.Any := by
  apply (keeping.functionIdentity spares).map.orElse
  unfold functionReferenceForms
  split
  · exact .pureAny _
  · exact keeps_logically keeping keeping.functionReference spares
  · exact keeps_conditionally keeping keeping.functionReference spares
  · exact keeps_afterDiscarding keeping keeping.functionReference spares
  · exact keeps_coalescingReference keeping keeping.functionReference spares
  · exact .failure

theorem keeps_evaluateObjectReferenceExpression {expression : Expression}
    (spares : D.Spares (expressionAssigns · expression)) :
    D.Keeps world (evaluateObjectReferenceExpression ev expression) D.Any := by
  apply (keeping.objectIdentity spares).map.orElse
  unfold objectReferenceForms
  split
  · exact .pureAny _
  · exact .pureAny _
  · obtain ⟨hcallee, harguments⟩ := spares_or spares
    exact keeps_evaluateNewObject keeping hcallee harguments
  · exact keeps_logically keeping keeping.objectReference spares
  · exact keeps_conditionally keeping keeping.objectReference spares
  · exact keeps_afterDiscarding keeping keeping.objectReference spares
  · exact keeps_coalescingReference keeping keeping.objectReference spares
  · exact .failure

theorem keeps_evaluateAssignmentTargetReference (spares : D.Spares (expressionAssigns · target)) :
    D.Keeps world (evaluateAssignmentTargetReference ev target) D.Any := by
  unfold evaluateAssignmentTargetReference
  split
  · next pos inner _ _ _ =>
    have hinner : D.Spares (expressionAssigns · inner) := spares
    split
    · exact .failure
    · exact keeping.discard hinner
  · obtain ⟨hinner, hindex⟩ := spares_or spares
    split
    · exact .failure
    · exact (keeping.discard hinner).andThen (keeps_evaluateObjectPropertyKey keeping hindex).map
  · exact .failure

theorem keeps_evaluateReferenceUpdateExpression {expression : Expression}
    (spares : D.Spares (expressionAssigns · expression)) :
    D.Keeps world (evaluateReferenceUpdateExpression ev expression) D.Any := by
  unfold evaluateReferenceUpdateExpression
  split
  · exact .failure
  · exact keeps_evaluateAssignmentTargetReference keeping (spares_or spares).2
  · exact .failure

omit keeping in
theorem keeps_discarding {evaluate : Eval α} (hevaluate : D.Keeps world evaluate result) :
    D.Keeps world (discarding evaluate) D.Any :=
  hevaluate.map.probe

section Expression

variable {expression : Expression} (spares : D.Spares (expressionAssigns · expression))
include spares

theorem keeps_evaluateDiscardExpression : D.Keeps world (evaluateDiscardExpression ev expression) D.Any := by
  unfold evaluateDiscardExpression
  split
  · exact keeps_evaluateEmptyCallExpression keeping spares
  · exact (keeps_discarding (keeping.int spares)).orElse <|
      (keeps_discarding (keeping.string spares)).orElse <|
      (keeps_discarding (keeping.bigInt spares)).orElse <|
      (keeps_discarding (keeping.nullish spares)).orElse <|
      (keeps_discarding (keeps_evaluateEmptyCallExpression keeping spares)).orElse <|
      (keeps_discarding (keeps_evaluateReferenceUpdateExpression keeping spares)).orElse <|
      (keeps_discarding (keeping.objectProperties spares)).orElse <|
      (keeps_discarding (keeping.arrayElements spares)).orElse <|
      (keeps_discarding (keeping.objectReference spares)).orElse <|
      (keeps_discarding (keeping.functionReference spares)).orElse <|
      keeps_discarding (keeping.bool spares)

theorem keeps_evaluateDeleteTarget : D.Keeps world (evaluateDeleteTarget ev expression) D.Any :=
  (keeps_discarding (keeping.objectProperties spares)).orElse <|
    (keeps_discarding (keeping.arrayElements spares)).orElse <|
    (keeps_discarding (keeping.discard spares)).orElse <|
    (keeps_discarding (keeping.objectReference spares)).orElse <|
    keeps_discarding (keeping.functionReference spares)

theorem keeps_evaluatePrimitiveKind : D.Keeps world (evaluatePrimitiveKind ev expression) D.Any :=
  (keeping.int spares).map.probe.orElse <| (keeping.string spares).map.probe.orElse <|
    (keeping.bigInt spares).map.probe.orElse <| (keeping.nullish spares).map.probe.orElse
    (keeping.boolValue spares).map.probe

theorem keeps_evaluatePrimitiveInstanceofLeft :
    D.Keeps world (evaluatePrimitiveInstanceofLeft ev expression) D.Any :=
  (keeps_discarding (keeping.int spares)).orElse <| (keeps_discarding (keeping.string spares)).orElse <|
    (keeps_discarding (keeping.nullish spares)).orElse <|
    (keeps_discarding (keeping.bigInt spares)).orElse (keeps_discarding (keeping.boolValue spares))

theorem keeps_evaluateMixedRelationalBigIntValue :
    D.Keeps world (evaluateMixedRelationalBigIntValue host ev expression) D.Any :=
  (keeping.string spares).map.probe.orElse <| (keeping.int spares).map.probe.orElse
    (keeping.boolValue spares).map.probe

theorem keeps_evaluateObjectComparisonReference :
    D.Keeps world (evaluateObjectComparisonReference ev expression) (Reference D.Object) := by
  apply Keeps.orElse
  · exact (keeping.objectIdentity spares).bind fun _ _ _ known => .pure (reference_some known)
  · intro _
    split
    · exact .pure reference_none
    · exact .failure

theorem keeps_evaluateFunctionComparisonReference :
    D.Keeps world (evaluateFunctionComparisonReference ev expression) (Reference D.Function) := by
  apply Keeps.orElse
  · exact (keeping.functionIdentity spares).bind fun _ _ _ known => .pure (reference_some known)
  · intro _
    split
    · exact .pure reference_none
    · exact .failure

theorem keeps_isReferenceComparisonOperand : D.Keeps world (isReferenceComparisonOperand ev expression) D.Any :=
  (keeps_discarding (keeps_evaluateObjectComparisonReference keeping spares)).orElse
    (keeps_discarding (keeps_evaluateFunctionComparisonReference keeping spares))

end Expression

theorem keeps_evaluateDeleteExpression {expression : Expression}
    (spares : D.Spares (expressionAssigns · expression)) :
    D.Keeps world (evaluateDeleteExpression ev expression) D.Any := by
  unfold evaluateDeleteExpression
  split
  · next pos target _ _ _ =>
    have htarget : D.Spares (expressionAssigns · target) := spares
    exact (keeps_evaluateDeleteTarget keeping htarget).map
  · obtain ⟨htarget, hindex⟩ := spares_or spares
    exact (keeps_evaluateDeleteTarget keeping htarget).andThen
      (keeps_evaluateObjectPropertyKey keeping hindex).map
  · exact (keeps_evaluateDeleteTarget keeping spares).map

/-! ## Comparisons -/

section Operands

variable {operator : ComparisonOperator} {left right : Expression}
  (hleft : D.Spares (expressionAssigns · left)) (hright : D.Spares (expressionAssigns · right))
include hleft hright

theorem keeps_evaluateInstanceofExpression : D.Keeps world (evaluateInstanceofExpression ev left right) D.Any :=
  ((keeps_evaluatePrimitiveInstanceofLeft keeping hleft).andThen
    (keeping.functionReference hright).map).probe

theorem keeps_evaluateInExpression : D.Keeps world (evaluateInExpression ev left right) D.Any :=
  ((keeps_evaluateObjectPropertyKey keeping hleft).bindAny fun _ =>
    (keeping.objectProperties hright).map).probe.orElse
  ((keeps_evaluateObjectPropertyKey keeping hleft).bindAny fun _ =>
    (keeping.calls keeping.objectProperties .properties hright).map).probe

theorem keeps_evaluateBigIntEquality : D.Keeps world (evaluateBigIntEquality ev operator left right) D.Any := by
  unfold evaluateBigIntEquality
  split
  · exact (keeping.bigInt hleft).bindAny fun _ => (keeping.bigInt hright).map
  · exact .failure

theorem keeps_evaluateBigIntRelationalComparison :
    D.Keeps world (evaluateBigIntRelationalComparison ev operator left right) D.Any := by
  unfold evaluateBigIntRelationalComparison
  split
  · exact .failure
  · exact (keeping.bigInt hleft).bindAny fun _ => (keeping.bigInt hright).map

theorem keeps_evaluateBigIntMixedRelationalComparison :
    D.Keeps world (evaluateBigIntMixedRelationalComparison host ev operator left right) D.Any := by
  unfold evaluateBigIntMixedRelationalComparison
  split
  · exact .failure
  · exact ((keeping.bigInt hleft).bindAny fun _ =>
      (keeps_evaluateMixedRelationalBigIntValue keeping hright).map).orElse <|
      (keeps_evaluateMixedRelationalBigIntValue keeping hleft).bindAny fun _ => (keeping.bigInt hright).map

theorem keeps_evaluateNumericRelationalComparison :
    D.Keeps world (evaluateNumericRelationalComparison host ev operator left right) D.Any := by
  unfold evaluateNumericRelationalComparison
  split
  · exact .failure
  · exact (keeps_evaluateNumericCoercion keeping hleft).bindAny fun _ =>
      (keeps_evaluateNumericCoercion keeping hright).bindAny fun _ => .ofOptionAny _

theorem keeps_evaluateReferenceEquality {known : D.World → Identity → Prop} (comparable : Comparable D known)
    {reference : Expression → Eval ComparisonReference}
    (hreference : D.KeepsUnassigned reference (Reference known)) :
    D.Keeps world (evaluateReferenceEquality ev reference operator left right) D.Any := by
  unfold evaluateReferenceEquality
  split
  · apply (hreference hleft).attempt.bind
    intro later leftReference _ hleftReference
    apply (hreference hright).attempt.bind
    intro last rightReference grows hrightReference
    split
    · next leftReference rightReference =>
      have hleftReference : Reference known last leftReference := fun identity h =>
        comparable.grows grows (hleftReference leftReference rfl identity h)
      exact (keeps_sameComparisonReference comparable.compare hleftReference (hrightReference _ rfl)).map
    · exact (keeping.nullish hright).map
    · exact (keeping.nullish hleft).map
    · exact .failure
  · exact .failure

theorem keeps_evaluateReferenceBooleanEquality {known : D.World → ComparisonReference → Prop}
    {reference : Expression → Eval ComparisonReference} (hreference : D.KeepsUnassigned reference known) :
    D.Keeps world (evaluateReferenceBooleanEquality ev reference operator left right) D.Any := by
  unfold evaluateReferenceBooleanEquality
  split
  · exact (((hreference hleft).bindAny fun _ => (keeping.boolValue hright).map).orElse
      ((hreference hright).bindAny fun _ => (keeping.boolValue hleft).map)).map
  · exact .failure

theorem keeps_evaluateReferencePrimitiveMismatchProbe :
    D.Keeps world (evaluateReferencePrimitiveMismatchProbe ev left right) D.Any :=
  ((keeps_isReferenceComparisonOperand keeping hleft).andThen
    (keeps_evaluatePrimitiveKind keeping hright).map).probe

omit keeping hleft hright in
theorem keeps_evaluateLooseEquality {compare : Expression → Expression → Eval Bool}
    (hcompare : ∀ {world}, D.Keeps world (compare left right) D.Any)
    (hcompare' : ∀ {world}, D.Keeps world (compare right left) D.Any) :
    D.Keeps world (evaluateLooseEquality compare operator left right) D.Any := by
  unfold evaluateLooseEquality
  split
  · exact (hcompare.probe.orElse hcompare'.probe).map
  · exact .failure

theorem keeps_compareLooseStringNumber : D.Keeps world (compareLooseStringNumber host ev left right) D.Any := by
  apply (keeping.string hleft).bindAny
  intro _ text
  apply (keeping.int hright).bindAny
  intro _ number
  split
  · exact .pureAny _
  · exact .pureAny _

theorem keeps_compareLooseStringBoolean : D.Keeps world (compareLooseStringBoolean host ev left right) D.Any := by
  apply (keeping.string hleft).bindAny
  intro _ text
  apply (keeping.boolValue hright).bindAny
  intro _ value
  split
  · exact .pureAny _
  · exact .pureAny _

theorem keeps_compareLooseStringBigInt : D.Keeps world (compareLooseStringBigInt host ev left right) D.Any := by
  apply (keeping.string hleft).bindAny
  intro _ text
  apply (keeping.bigInt hright).bindAny
  intro _ value
  split
  · exact .pureAny _
  · exact .pureAny _

theorem keeps_compareLooseBooleanNumber : D.Keeps world (compareLooseBooleanNumber ev left right) D.Any :=
  (keeping.boolValue hleft).bindAny fun _ => (keeping.int hright).map

theorem keeps_compareLooseNumberBigInt : D.Keeps world (compareLooseNumberBigInt ev left right) D.Any :=
  (keeping.int hleft).bindAny fun _ => (keeping.bigInt hright).map

theorem keeps_compareLooseBooleanBigInt : D.Keeps world (compareLooseBooleanBigInt ev left right) D.Any :=
  (keeping.boolValue hleft).bindAny fun _ => (keeping.bigInt hright).map

theorem keeps_evaluateReferenceStrictPrimitiveMismatch :
    D.Keeps world (evaluateReferenceStrictPrimitiveMismatch ev operator left right) D.Any := by
  unfold evaluateReferenceStrictPrimitiveMismatch
  split
  · exact ((keeps_evaluateReferencePrimitiveMismatchProbe keeping hleft hright).orElse
      (keeps_evaluateReferencePrimitiveMismatchProbe keeping hright hleft)).map
  · exact .failure

theorem keeps_evaluateLooseNullishPrimitiveMismatch :
    D.Keeps world (evaluateLooseNullishPrimitiveMismatch ev operator left right) D.Any := by
  unfold evaluateLooseNullishPrimitiveMismatch
  split
  · apply (keeps_evaluatePrimitiveKind keeping hleft).attempt.bindAny
    intro _ leftKind
    apply (keeps_evaluatePrimitiveKind keeping hright).attempt.bindAny
    intro _ rightKind
    split
    · split
      · exact .failure
      · exact .pureAny _
    · exact .failure
  · exact .failure

theorem keeps_evaluateStrictPrimitiveMismatch :
    D.Keeps world (evaluateStrictPrimitiveMismatch ev operator left right) D.Any := by
  unfold evaluateStrictPrimitiveMismatch
  split
  · apply (keeps_evaluatePrimitiveKind keeping hleft).bindAny
    intro _ leftKind
    apply (keeps_evaluatePrimitiveKind keeping hright).bindAny
    intro _ rightKind
    split
    · exact .failure
    · exact .pureAny _
  · exact .failure

theorem keeps_evaluateBoolEquality : D.Keeps world (evaluateBoolEquality ev operator left right) D.Any := by
  apply (keeping.boolValue hleft).attempt.bindAny
  intro _ leftValue
  apply (keeping.boolValue hright).attempt.bindAny
  intro _ rightValue
  split
  · exact .pureAny _
  · exact .failure
  · split
    · exact .pureAny _
    · exact .failure

theorem keeps_evaluateEqualityProbes : D.Keeps world (evaluateEqualityProbes host ev operator left right) D.Any := by
  exact .orElse ((keeping.string hleft).bindAny fun _ => (keeping.string hright).map).probe <|
    .orElse ((keeping.nullish hleft).bindAny fun _ => (keeping.nullish hright).map).probe <|
    .orElse (keeps_evaluateBigIntEquality keeping hleft hright).probe <|
    .orElse (keeps_evaluateReferenceEquality keeping hleft hright comparable_objects
      (keeps_evaluateObjectComparisonReference keeping)).probe <|
    .orElse (keeps_evaluateReferenceBooleanEquality keeping hleft hright
      (keeps_evaluateObjectComparisonReference keeping)).probe <|
    .orElse (keeps_evaluateReferenceEquality keeping hleft hright comparable_functions
      (keeps_evaluateFunctionComparisonReference keeping)).probe <|
    .orElse (keeps_evaluateReferenceBooleanEquality keeping hleft hright
      (keeps_evaluateFunctionComparisonReference keeping)).probe <|
    .orElse (keeps_evaluateReferenceStrictPrimitiveMismatch keeping hleft hright).probe <|
    .orElse (keeps_evaluateLooseNullishPrimitiveMismatch keeping hleft hright).probe <|
    .orElse (keeps_evaluateLooseEquality (keeps_compareLooseStringNumber keeping hleft hright)
      (keeps_compareLooseStringNumber keeping hright hleft)).probe <|
    .orElse (keeps_evaluateLooseEquality
      (keeps_compareLooseStringBoolean keeping hleft hright)
      (keeps_compareLooseStringBoolean keeping hright hleft)).probe <|
    .orElse (keeps_evaluateLooseEquality
      (keeps_compareLooseBooleanNumber keeping hleft hright)
      (keeps_compareLooseBooleanNumber keeping hright hleft)).probe <|
    .orElse (keeps_evaluateLooseEquality
      (keeps_compareLooseStringBigInt keeping hleft hright)
      (keeps_compareLooseStringBigInt keeping hright hleft)).probe <|
    .orElse (keeps_evaluateLooseEquality
      (keeps_compareLooseNumberBigInt keeping hleft hright)
      (keeps_compareLooseNumberBigInt keeping hright hleft)).probe <|
    .orElse (keeps_evaluateLooseEquality
      (keeps_compareLooseBooleanBigInt keeping hleft hright)
      (keeps_compareLooseBooleanBigInt keeping hright hleft)).probe <|
    .orElse (keeps_evaluateStrictPrimitiveMismatch keeping hleft hright).probe <|
    (keeps_evaluateBoolEquality keeping hleft hright).probe

theorem keeps_evaluateComparisonExpression :
    D.Keeps world (evaluateComparisonExpression host ev operator left right) D.Any := by
  unfold evaluateComparisonExpression
  split
  · exact keeps_evaluateInExpression keeping hleft hright
  · refine .orElse ((keeping.int hleft).bindAny fun _ => (keeping.int hright).bindAny fun _ => .ofOptionAny _).probe <|
      .orElse ((keeping.string hleft).bindAny fun _ => (keeping.string hright).bindAny fun _ => .ofOptionAny _).probe <|
      .orElse (keeps_evaluateBigIntRelationalComparison keeping hleft hright).probe <|
      .orElse (keeps_evaluateBigIntMixedRelationalComparison keeping hleft hright).probe <|
      .orElse (keeps_evaluateNumericRelationalComparison keeping hleft hright).probe <|
      fun {_} => ?_
    split
    · exact keeps_evaluateEqualityProbes keeping hleft hright
    · exact .failure

end Operands

theorem keeps_evaluateUnaryTruthiness {pos : SourcePos} {operator : UnaryOperator} {right : Expression}
    (hright : D.Spares (expressionAssigns · right)) :
    D.Keeps world (evaluateUnaryTruthiness ev pos operator right) D.Any := by
  have spares : D.Spares (expressionAssigns · (.unary pos operator right)) := hright
  cases operator with
  | delete => exact keeps_evaluateDeleteExpression keeping hright
  | not => exact (keeping.bool hright).map
  | negate | positive | bitNot | void => exact keeps_evaluateFoldedExpressionTruthiness keeping spares

theorem keeps_evaluateBoolExpression {expression : Expression}
    (spares : D.Spares (expressionAssigns · expression)) :
    D.Keeps world (evaluateBoolExpression host ev expression) D.Any := by
  unfold evaluateBoolExpression
  split
  · exact .pureAny _
  · exact keeps_lookupAny _
  · exact .pureAny _
  · exact .pureAny _
  · exact (keeping.int spares).map
  · exact .ofOptionAny _
  · exact keeps_evaluateUpdateTruthiness (spares_update spares)
  · exact .pureAny _
  · exact .pureAny _
  · exact .pureAny _
  · exact .pureAny _
  · obtain ⟨hcallee, harguments⟩ := spares_or spares
    exact (keeps_evaluateNewObject keeping hcallee harguments).map
  · next pos target property _ _ =>
    have htarget : D.Spares (expressionAssigns · target) := spares
    exact keeps_evaluateMemberTruthiness keeping htarget
  · obtain ⟨htarget, hindex⟩ := spares_or spares
    exact keeps_evaluateIndexTruthiness keeping htarget hindex
  · exact keeps_evaluateFoldedExpressionTruthiness keeping spares
  · exact keeps_evaluateFoldedExpressionTruthiness keeping spares
  · exact keeps_evaluateFoldedExpressionTruthiness keeping spares
  · exact keeps_evaluateUnaryTruthiness keeping spares
  · obtain ⟨hleft, hright⟩ := spares_or spares
    exact keeps_evaluateComparisonExpression keeping hleft hright
  · obtain ⟨hleft, hright⟩ := spares_or spares
    exact keeps_evaluateInstanceofExpression keeping hleft hright
  · exact keeping.calls keeping.bool .any spares
  · obtain ⟨hleft, hright⟩ := spares_or spares
    exact keeps_evaluateBoolLogical keeping hleft hright
  · exact keeps_conditionally keeping keeping.bool spares
  · exact keeps_afterDiscarding keeping keeping.bool spares
  · exact keeps_coalescing keeping keeping.bool spares keeping.bool
  · exact .failure

theorem keeps_evaluateBoolValue {expression : Expression}
    (spares : D.Spares (expressionAssigns · expression)) :
    D.Keeps world (evaluateBoolValue host ev expression) D.Any := by
  unfold evaluateBoolValue
  split
  · exact .pureAny _
  · exact keeps_lookupAny _
  · next pos target property _ _ =>
    have htarget : D.Spares (expressionAssigns · target) := spares
    exact keeps_memberElement keeping htarget (selects_any _) _
  · obtain ⟨htarget, hindex⟩ := spares_or spares
    exact keeps_indexElement keeping htarget hindex (selects_any _)
  · obtain ⟨hleft, hright⟩ := spares_or spares
    exact keeps_evaluateInstanceofExpression keeping hleft hright
  · next pos operator right =>
    have hright : D.Spares (expressionAssigns · right) := spares
    split
    · exact keeps_evaluateDeleteExpression keeping hright
    · exact (keeping.bool hright).map
    · exact .failure
  · obtain ⟨hleft, hright⟩ := spares_or spares
    exact keeps_evaluateComparisonExpression keeping hleft hright
  · exact keeps_conditionally keeping keeping.boolValue spares
  · exact .failure

end Discipline

end Jayess.Lowering
