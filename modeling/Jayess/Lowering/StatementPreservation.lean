import Jayess.Lowering.ExpressionPreservation

/-!
# What runs of the evaluator preserve

Statements that assign no guarded name keep a discipline, and so does the evaluator at any depth: a run that
starts where the discipline holds ends where it holds.
-/

namespace Jayess.Lowering

namespace Discipline

variable {α β : Type} {D : Discipline} {ev : Evaluators} {host : Host} {world : D.World}
  {result : D.World → α → Prop}

section Assignments

variable (keeping : D.KeepingCalls ev)
include keeping

theorem keeps_applyVariableDecl {declared : String} {value : Option Expression} (hfree : ¬D.Guarded declared)
    (spares : D.Spares (optionExpressionAssigns · value)) :
    D.Keeps world (applyVariableDecl ev declared value) D.Any := by
  cases value with
  | none => exact .pureAny _
  | some expression =>
      unfold applyVariableDecl
      dsimp only
      split
      · exact .pureAny _
      · apply Keeps.map
        apply Keeps.attempt
        apply Keeps.orElse
        · exact (keeps_assignScalar hfree (keeping.materializeFunction spares) fun _ _ => value_function).orElse
            (keeps_assignScalar hfree (keeping.materializeObject spares) fun _ _ => value_object)
        · exact (keeps_applyScalarVariableDecl hfree keeping.toKeeping spares).orElse (keeping.discard spares)

section Value

variable {target : String} {operator : AssignmentOperator} {value : Expression} (hfree : ¬D.Guarded target)
  (spares : D.Spares (expressionAssigns · value))
include hfree spares

theorem keeps_applyScalarAssignment : D.Keeps world (applyScalarAssignment ev target value) D.Any :=
  (keeps_assignPlainScalar hfree (keeping.int spares) fun _ => ⟨rfl, rfl⟩).orElse <|
    (keeps_assignPlainScalar hfree (keeping.string spares) fun _ => ⟨rfl, rfl⟩).orElse <|
    (keeps_assignPlainScalar hfree (keeping.bigInt spares) fun _ => ⟨rfl, rfl⟩).orElse <|
    (keeps_assignPlainScalar hfree (keeping.nullish spares) fun _ => ⟨rfl, rfl⟩).orElse <|
    (keeps_assignScalar hfree (keeping.materializeFunction spares) fun _ _ => value_function).orElse <|
    (keeps_assignScalar hfree (keeping.materializeObject spares) fun _ _ => value_object).orElse <|
    keeps_assignPlainScalar hfree (keeping.bool spares) fun _ => ⟨rfl, rfl⟩

theorem keeps_applyLogicalAssignment : D.Keeps world (applyLogicalAssignment ev target operator value) D.Any := by
  have htarget : D.Spares (expressionAssigns · (identifierOf target)) := fun _ _ => rfl
  unfold applyLogicalAssignment
  split
  · apply Keeps.scope.bindAny
    intro _ scope
    split
    · exact keeps_applyScalarAssignment keeping hfree spares
    · split
      · exact .pureAny _
      · exact .failure
  · apply (keeping.bool htarget).bindAny
    intro _ truthy
    split
    · exact .pureAny _
    · exact keeps_applyScalarAssignment keeping hfree spares
  · apply (keeping.bool htarget).bindAny
    intro _ truthy
    split
    · exact keeps_applyScalarAssignment keeping hfree spares
    · exact .pureAny _
  · exact .failure

omit hfree in
theorem keeps_evaluateNumericAssignmentOperand :
    D.Keeps world (evaluateNumericAssignmentOperand ev host operator value) D.Any := by
  unfold evaluateNumericAssignmentOperand
  split
  · exact (keeps_refuseString keeping spares).andThen (keeps_evaluateNumericCoercion keeping spares)
  · exact keeps_evaluateNumericCoercion keeping spares

omit keeping spares in
theorem keeps_assignPlain {evaluate : Eval α} {assigned : α → ReturnValue} (hevaluate : D.Keeps world evaluate result)
    (known : ∀ later a, result later a → D.Value later (assigned a)) :
    D.Keeps world (assignPlain operator target evaluate assigned) D.Any := by
  unfold assignPlain
  split
  · exact hevaluate.bind fun later a _ h => .assign hfree (known later a h)
  · exact .failure

theorem keeps_applyIntAssignment : D.Keeps world (applyIntAssignment ev host target operator value) D.Any := by
  unfold applyIntAssignment
  split
  · exact keeps_assignPlain hfree (keeping.int spares) fun _ _ _ => value_scalar ⟨rfl, rfl⟩
  · exact Keeps.scope.bindAny fun _ => (Keeps.ofOptionAny _).bindAny fun _ =>
      (keeps_evaluateNumericAssignmentOperand keeping spares).bindAny fun _ =>
      (Keeps.ofOptionAny _).bindAny fun _ => .assign hfree (value_scalar ⟨rfl, rfl⟩)

theorem keeps_applyStringAssignment : D.Keeps world (applyStringAssignment ev target operator value) D.Any := by
  unfold applyStringAssignment
  split
  · exact Keeps.scope.bindAny fun _ => (Keeps.ofOptionAny _).bindAny fun _ =>
      (keeps_evaluateStringCoercion keeping spares).bindAny fun _ => .assign hfree (value_scalar ⟨rfl, rfl⟩)
  · exact keeps_assignPlain hfree (keeping.string spares) fun _ _ _ => value_scalar ⟨rfl, rfl⟩

theorem keeps_applyBigIntAssignment : D.Keeps world (applyBigIntAssignment ev target operator value) D.Any := by
  unfold applyBigIntAssignment
  split
  · exact keeps_assignPlain hfree (keeping.bigInt spares) fun _ _ _ => value_scalar ⟨rfl, rfl⟩
  · exact (Keeps.ofOptionAny _).bindAny fun _ => Keeps.scope.bindAny fun _ => (Keeps.ofOptionAny _).bindAny fun _ =>
      (keeping.bigInt spares).bindAny fun _ => (Keeps.ofOptionAny _).bindAny fun _ => .assign hfree (value_scalar ⟨rfl, rfl⟩)

theorem keeps_applyIdentifierAssignment :
    D.Keeps world (applyIdentifierAssignment ev host target operator value) D.Any :=
  (keeps_applyLogicalAssignment keeping hfree spares).probe.orElse <|
    (keeps_applyIntAssignment keeping hfree spares).probe.orElse <|
    (keeps_applyStringAssignment keeping hfree spares).probe.orElse <|
    (keeps_applyBigIntAssignment keeping hfree spares).probe.orElse <|
    (keeps_assignPlain hfree (keeping.nullish spares) fun _ _ _ => value_scalar ⟨rfl, rfl⟩).probe.orElse <|
    (keeps_assignPlain hfree (keeping.materializeFunction spares) fun _ _ => value_function).probe.orElse <|
    (keeps_assignPlain hfree (keeping.materializeObject spares) fun _ _ => value_object).probe.orElse <|
    (keeps_assignPlain hfree (keeping.bool spares) fun _ _ _ => value_scalar ⟨rfl, rfl⟩).probe

end Value

theorem keeps_applyAssignmentStatement {operator : AssignmentOperator} {value target : Expression}
    (hassigned : D.Spares (isTarget · target)) (htarget : D.Spares (expressionAssigns · target))
    (spares : D.Spares (expressionAssigns · value)) :
    D.Keeps world (applyAssignmentStatement ev host operator value target) D.Any := by
  unfold applyAssignmentStatement
  split
  · next pos assigned =>
    split
    · exact .pureAny _
    · exact (keeps_applyIdentifierAssignment keeping (spares_target hassigned) spares).attempt.map
  · apply Keeps.map
    apply Keeps.attempt
    exact ((keeps_evaluateAssignmentTargetReference keeping htarget).andThen (keeping.discard spares)).probe

end Assignments

theorem statementsAssign_append (name : String) (statements statements' : List Statement) :
    statementsAssign name (statements ++ statements') =
      (statementsAssign name statements || statementsAssign name statements') := by
  induction statements with
  | nil => rfl
  | cons statement rest ih => rw [List.cons_append, statementsAssign, statementsAssign, ih, Bool.or_assoc]

theorem spares_append {statements statements' : List Statement} (first : D.Spares (statementsAssign · statements))
    (second : D.Spares (statementsAssign · statements')) :
    D.Spares (statementsAssign · (statements ++ statements')) := by
  intro name hguarded
  exact (statementsAssign_append name statements statements').trans
    (Bool.or_eq_false_iff.mpr ⟨first name hguarded, second name hguarded⟩)

theorem spares_consequents {cases : List SwitchCase} (spares : D.Spares (casesAssign · cases)) :
    D.Spares (statementsAssign · (consequents cases)) := by
  induction cases with
  | nil => exact fun _ _ => rfl
  | cons switchCase rest ih =>
      obtain ⟨test, consequent⟩ := switchCase
      obtain ⟨-, hparts⟩ := spares_or spares
      obtain ⟨hconsequent, hrest⟩ := spares_or hparts
      exact spares_append hconsequent (ih hrest)

section Cases

variable {evaluate : Expression → Eval Bool} {cases : List SwitchCase} {default : List Statement}

theorem keeps_firstMatch (hevaluate : D.KeepsUnassigned evaluate D.Any) (spares : D.Spares (casesAssign · cases)) :
    D.Keeps world (firstMatch evaluate cases) fun _ found =>
      ∀ matching, found = some matching → D.Spares (casesAssign · matching) := by
  induction cases generalizing world with
  | nil => exact .pure fun _ hsome => nomatch hsome
  | cons switchCase rest ih =>
      obtain ⟨test, consequent⟩ := switchCase
      obtain ⟨htest, hparts⟩ := spares_or spares
      apply (hevaluate htest).attempt.bindAny
      intro _ found
      split
      · apply Keeps.pure
        rintro matching ⟨⟩
        exact spares
      · exact ih (spares_or hparts).2

def Statements (D : Discipline) (_ : D.World) (statements : List Statement) : Prop :=
  D.Spares (statementsAssign · statements)

theorem keeps_matchingConsequent [DecidableEq α] {evaluateCase : Expression → Eval α} {value : α}
    (hevaluate : D.KeepsUnassigned evaluateCase D.Any) (spares : D.Spares (casesAssign · cases))
    (hdefault : D.Spares (statementsAssign · default)) :
    D.Keeps world (matchingConsequent evaluateCase value cases default) D.Statements := by
  apply (keeps_firstMatch (fun h => (hevaluate h).map) spares).bind
  intro _ found _ hfound
  split
  · exact .pure (spares_append (spares_consequents (hfound _ rfl)) hdefault)
  · split
    · exact .failure
    · exact .pure hdefault

end Cases

theorem keeps_matchingSwitchConsequent (keeping : D.KeepingCalls ev) {discriminant : Expression}
    {cases : List SwitchCase} {default : List Statement} (hdiscriminant : D.Spares (expressionAssigns · discriminant))
    (hcases : D.Spares (casesAssign · cases)) (hdefault : D.Spares (statementsAssign · default)) :
    D.Keeps world (matchingSwitchConsequent ev discriminant cases default) D.Statements := by
  refine (keeping.int hdiscriminant).attempting ?_ fun _ _ => keeps_matchingConsequent keeping.int hcases hdefault
  intro _
  refine (keeping.bigInt hdiscriminant).attempting ?_ fun _ _ =>
    keeps_matchingConsequent keeping.bigInt hcases hdefault
  intro _
  refine (keeping.nullish hdiscriminant).attempting ?_ fun _ _ =>
    keeps_matchingConsequent keeping.nullish hcases hdefault
  intro _
  refine (keeping.string hdiscriminant).attempting ?_ fun _ _ =>
    keeps_matchingConsequent keeping.string hcases hdefault
  intro _
  exact (keeping.bool hdiscriminant).bindAny fun _ => keeps_matchingConsequent keeping.bool hcases hdefault

section Control

variable (keeping : D.KeepingCalls ev) {condition : Expression} {body : List Statement}
include keeping

variable {init : Option Statement} {label : String} {statement : Statement}

theorem keeps_initStatement (spares : D.Spares (optionStatementAssigns · init)) :
    D.Keeps world (initStatement ev init) D.Any := by
  cases init with
  | none => exact .pureAny _
  | some statement => exact keeping.nonReturnStatement spares

theorem keeps_bodyBreaks (hbody : D.Spares (statementsAssign · body)) :
    D.Keeps world (bodyBreaks ev body) D.Any := by
  apply Keeps.probe
  apply (keeping.nonReturn hbody).bindAny
  intro _ flow
  split
  · exact .pureAny _
  · exact .failure

theorem keeps_returnCodeFromForBody (hbody : D.Spares (statementsAssign · body)) :
    D.Keeps world (returnCodeFromForBody ev body) D.Any := by
  apply (keeping.returnCode _).attempting
  · intro _
    apply (keeps_bodyBreaks keeping hbody).succeeds.bindAny
    intro _ breaks
    split
    · exact .pureAny _
    · exact .pureAny _
  · exact fun _ _ => .pureAny _

theorem keeps_returnCodeFromWhile (hcondition : D.Spares (expressionAssigns · condition))
    (hbody : D.Spares (statementsAssign · body)) : D.Keeps world (returnCodeFromWhile ev condition body) D.Any := by
  apply (keeping.bool hcondition).attempting
  · exact .pureAny _
  · intro _ value _
    cases value with
    | false => exact .pureAny _
    | true =>
        apply (keeping.returnCode _).attempting
        · intro _
          apply (keeps_bodyBreaks keeping hbody).succeeds.bindAny
          intro _ breaks
          split
          · exact .pureAny _
          · exact .pureAny _
        · exact fun _ _ => .pureAny _

theorem keeps_forCondition {onBody onFalse onUnknown : Eval (Bool × α)} {condition : Option Expression}
    (hcondition : D.Spares (optionExpressionAssigns · condition)) (hbody : ∀ {world}, D.Keeps world onBody D.Any)
    (hfalse : ∀ {world}, D.Keeps world onFalse D.Any) (hunknown : ∀ {world}, D.Keeps world onUnknown D.Any) :
    D.Keeps world (match condition with
      | none => onBody
      | some condition => do
          match ← Eval.attempt (ev.bool condition) with
          | none => onUnknown
          | some false => onFalse
          | some true => onBody) D.Any := by
  cases condition with
  | none => exact hbody
  | some condition =>
      apply (keeping.bool hcondition).attempting hunknown
      intro _ value _
      cases value with
      | false => exact hfalse
      | true => exact hbody

theorem keeps_returnCodeFromFor {condition : Option Expression}
    (hinit : D.Spares (optionStatementAssigns · init))
    (hcondition : D.Spares (optionExpressionAssigns · condition))
    (hbody : D.Spares (statementsAssign · body)) :
    D.Keeps world (returnCodeFromFor ev init condition body) D.Any :=
  ((keeps_initStatement keeping hinit).andThen <|
    keeps_forCondition keeping hcondition (keeps_returnCodeFromForBody keeping hbody) (.pureAny _)
      (.pureAny _)).onClone

theorem keeps_returnCodeFromDoWhile (hbody : D.Spares (statementsAssign · body))
    (hcondition : D.Spares (expressionAssigns · condition)) :
    D.Keeps world (returnCodeFromDoWhile ev body condition) D.Any := by
  apply (keeping.returnCode _).attempting
  · intro _
    dsimp only
    split
    · exact .pureAny _
    · apply Keeps.onClone
      apply (keeping.nonReturn hbody).bindAny
      intro _ flow
      split
      · exact .pureAny _
      · split
        · exact .pureAny _
        · apply (keeping.bool hcondition).attempt.bindAny
          intro _ value
          split
          · exact .pureAny _
          · exact .pureAny _
  · exact fun _ _ => .pureAny _

theorem keeps_applyNonReturnLabeled (spares : D.Spares (statementAssigns · statement)) :
    D.Keeps world (applyNonReturnLabeled ev label statement) D.Any :=
  (keeping.nonReturnStatement spares).map

/-! ## Control statements, for their side effects -/

theorem keeps_applyNonReturnIf {consequence alternative : List Statement}
    (hcondition : D.Spares (expressionAssigns · condition))
    (hconsequence : D.Spares (statementsAssign · consequence))
    (halternative : D.Spares (statementsAssign · alternative)) :
    D.Keeps world (applyNonReturnIf ev condition consequence alternative) D.Any := by
  apply (keeping.bool hcondition).attempting
  · exact .pureAny _
  · intro _ value _
    cases value with
    | true => exact keeping.nonReturn hconsequence
    | false => exact keeping.nonReturn halternative

theorem keeps_applyLoopLabeledFlow (hbody : D.Spares (statementsAssign · body)) :
    D.Keeps world (applyLoopLabeledFlow ev body) D.Any := by
  apply Keeps.onClone
  apply (keeping.nonReturn hbody).bindAny
  intro _ flow
  split
  · exact .pureAny _
  · exact .pureAny _

theorem keeps_applyNonReturnWhile (hcondition : D.Spares (expressionAssigns · condition))
    (hbody : D.Spares (statementsAssign · body)) : D.Keeps world (applyNonReturnWhile ev condition body) D.Any := by
  apply (keeps_returnCodeFromWhile keeping hcondition hbody).bindAny
  intro _ folded
  split
  · exact .pureAny _
  · apply (keeping.bool hcondition).attempting
    · exact .pureAny _
    · intro _ value _
      cases value with
      | true => exact keeps_applyLoopLabeledFlow keeping hbody
      | false => exact .pureAny _

theorem keeps_applyNonReturnFor {condition : Option Expression}
    (hinit : D.Spares (optionStatementAssigns · init))
    (hcondition : D.Spares (optionExpressionAssigns · condition))
    (hbody : D.Spares (statementsAssign · body)) :
    D.Keeps world (applyNonReturnFor ev init condition body) D.Any := by
  apply (keeps_returnCodeFromFor keeping hinit hcondition hbody).bindAny
  intro _ folded
  split
  · exact .pureAny _
  · exact ((keeps_initStatement keeping hinit).andThen <|
      keeps_forCondition keeping hcondition (keeps_applyLoopLabeledFlow keeping hbody).map (.pureAny _)
        (.pureAny _)).onClone

theorem keeps_applyNonReturnDoWhile (hbody : D.Spares (statementsAssign · body))
    (hcondition : D.Spares (expressionAssigns · condition)) :
    D.Keeps world (applyNonReturnDoWhile ev body condition) D.Any := by
  apply (keeps_returnCodeFromDoWhile keeping hbody hcondition).bindAny
  intro _ folded
  split
  · exact .pureAny _
  · exact keeps_applyLoopLabeledFlow keeping hbody

theorem keeps_applyNonReturnTry {tryBody catchBody finallyBody : List Statement}
    (htry : D.Spares (statementsAssign · tryBody)) (hfinally : D.Spares (statementsAssign · finallyBody)) :
    D.Keeps world (applyNonReturnTry ev tryBody catchBody finallyBody) D.Any := by
  unfold applyNonReturnTry
  split
  · exact .pureAny _
  · exact (keeping.nonReturn htry).bindAny fun _ => (keeping.nonReturn hfinally).map

theorem keeps_applyNonReturnStatement (spares : D.Spares (statementAssigns · statement)) :
    D.Keeps world (applyNonReturnStatement ev host statement) D.Any := by
  unfold applyNonReturnStatement
  split
  · obtain ⟨hdeclared, hvalue⟩ := spares_or spares
    exact (keeps_applyVariableDecl keeping (fun hguarded => of_decide_eq_false (hdeclared _ hguarded) rfl) hvalue).map
  · obtain ⟨hassigned, hparts⟩ := spares_or spares
    obtain ⟨htarget, hvalue⟩ := spares_or hparts
    exact (keeps_applyAssignmentStatement keeping hassigned htarget hvalue).map
  · next pos expression =>
    have hexpression : D.Spares (expressionAssigns · expression) := spares
    exact (keeping.discard hexpression).attempt.map.map
  · next pos statements =>
    have hstatements : D.Spares (statementsAssign · statements) := spares
    exact keeping.nonReturn hstatements
  · obtain ⟨hcondition, hbranches⟩ := spares_or spares
    obtain ⟨hconsequence, halternative⟩ := spares_or hbranches
    exact keeps_applyNonReturnIf keeping hcondition hconsequence halternative
  · obtain ⟨hdiscriminant, hparts⟩ := spares_or spares
    obtain ⟨hcases, hdefault⟩ := spares_or hparts
    exact (keeps_matchingSwitchConsequent keeping hdiscriminant hcases hdefault).attempting (.pureAny _)
      fun _ hstatements => (keeping.nonReturn hstatements).map
  · obtain ⟨hcondition, hbody⟩ := spares_or spares
    exact keeps_applyNonReturnWhile keeping hcondition hbody
  · obtain ⟨hinit, hparts⟩ := spares_or spares
    obtain ⟨hcondition, hparts⟩ := spares_or hparts
    exact keeps_applyNonReturnFor keeping hinit hcondition (spares_or hparts).2
  · obtain ⟨hbody, hcondition⟩ := spares_or spares
    exact keeps_applyNonReturnDoWhile keeping hbody hcondition
  · obtain ⟨htry, hparts⟩ := spares_or spares
    exact keeps_applyNonReturnTry keeping htry (spares_or hparts).2
  · next pos label statement =>
    have hstatement : D.Spares (statementAssigns · statement) := spares
    exact keeps_applyNonReturnLabeled keeping hstatement
  · exact .pureAny _
  · exact .pureAny _
  · exact .pureAny _

theorem keeps_applyNonReturnStatements {statements : List Statement}
    (spares : D.Spares (statementsAssign · statements)) :
    D.Keeps world (applyNonReturnStatements ev statements) D.Any := by
  induction statements generalizing world with
  | nil => exact .pureAny _
  | cons statement rest ih =>
      obtain ⟨hstatement, hrest⟩ := spares_or spares
      unfold applyNonReturnStatements
      split
      · exact .pureAny _
      · exact .pureAny _
      · exact .pureAny _
      · next heq =>
        cases heq
        apply (keeping.nonReturnStatement hstatement).bindAny
        intro _ flow
        split
        · exact ih hrest
        · exact .pureAny _

theorem keeps_applyLabeledBreakFor {condition : Option Expression}
    (hinit : D.Spares (optionStatementAssigns · init))
    (hcondition : D.Spares (optionExpressionAssigns · condition))
    (hbody : D.Spares (statementsAssign · body)) :
    D.Keeps world (applyLabeledBreakFor ev init condition body label) D.Any := by
  apply Keeps.probe
  apply (keeps_initStatement keeping hinit).bindAny
  intro _ flow
  cases condition with
  | none => exact keeping.labeledBreak label hbody
  | some condition =>
      apply (keeping.bool hcondition).bindAny
      intro _ value
      split
      · exact keeping.labeledBreak label hbody
      · exact .failure

theorem keeps_applyLabeledBreakSwitch {discriminant : Expression} {cases : List SwitchCase}
    {default : List Statement} (hdiscriminant : D.Spares (expressionAssigns · discriminant))
    (hcases : D.Spares (casesAssign · cases)) (hdefault : D.Spares (statementsAssign · default)) :
    D.Keeps world (applyLabeledBreakSwitch ev discriminant cases default label) D.Any :=
  (keeps_matchingSwitchConsequent keeping hdiscriminant hcases hdefault).bind fun _ _ _ hstatements =>
    (keeping.labeledBreak label hstatements).probe

theorem keeps_applyLabeledBreakStatement (spares : D.Spares (statementAssigns · statement)) :
    D.Keeps world (applyLabeledBreakStatement ev statement label) D.Any := by
  unfold applyLabeledBreakStatement
  split
  · split
    · exact .pureAny _
    · exact .failure
  · next pos statements =>
    have hstatements : D.Spares (statementsAssign · statements) := spares
    exact (keeping.labeledBreak label hstatements).probe
  · obtain ⟨hcondition, hbranches⟩ := spares_or spares
    obtain ⟨hconsequence, halternative⟩ := spares_or hbranches
    apply (keeping.bool hcondition).bindAny
    intro _ value
    cases value with
    | true => exact (keeping.labeledBreak label hconsequence).probe
    | false => exact (keeping.labeledBreak label halternative).probe
  · obtain ⟨hdiscriminant, hparts⟩ := spares_or spares
    obtain ⟨hcases, hdefault⟩ := spares_or hparts
    exact keeps_applyLabeledBreakSwitch keeping hdiscriminant hcases hdefault
  · obtain ⟨hcondition, hbody⟩ := spares_or spares
    apply (keeping.bool hcondition).bindAny
    intro _ value
    split
    · exact (keeping.labeledBreak label hbody).probe
    · exact .failure
  · obtain ⟨hinit, hparts⟩ := spares_or spares
    obtain ⟨hcondition, hparts⟩ := spares_or hparts
    exact keeps_applyLabeledBreakFor keeping hinit hcondition (spares_or hparts).2
  · exact (keeping.labeledBreak label (spares_or spares).1).probe
  · next pos inner statement =>
    have hstatement : D.Spares (statementAssigns · statement) := spares
    split
    · exact .failure
    · exact (keeping.labeledBreakStatement label hstatement).probe
  · exact .failure

theorem keeps_applyLabeledBreakStatements {statements : List Statement}
    (spares : D.Spares (statementsAssign · statements)) :
    D.Keeps world (applyLabeledBreakStatements ev label statements) D.Any := by
  induction statements generalizing world with
  | nil => exact .failure
  | cons statement rest ih =>
      obtain ⟨hstatement, hrest⟩ := spares_or spares
      apply (keeping.labeledBreakStatement label hstatement).succeeds.bindAny
      intro _ breaks
      split
      · exact .pureAny _
      · apply (keeping.nonReturnStatement hstatement).bindAny
        intro _ flow
        split
        · exact ih hrest
        · exact .failure

end Control

/-- What is left to a discipline: what it makes of the names that are written and given back, by a call or a
catch clause, and of return values, which are looked for with the bodies of switches and clauses. -/
structure Scopes (D : Discipline) : Prop where
  calls : ∀ {ev}, D.Keeping ev → D.KeepingCalls ev
  catches : ∀ {α : Type} {evaluate : Eval α} {catchPattern : Option BindingPattern},
    ((∀ name ∈ patternNames catchPattern, ¬D.Guarded name) → ∀ {world}, D.Keeps world evaluate D.Any) →
      ∀ {world}, D.Keeps world (withCatchBindingScope catchPattern evaluate) D.Any
  returns : ∀ {ev host}, D.KeepingCalls ev → ∀ {world} statements,
    D.Keeps world (returnCodeFromStatements ev host statements) D.Any

section Try

variable (keeping : D.KeepingCalls ev)
include keeping

theorem keeps_tryBodyUntilThrowFlow {statements : List Statement}
    (spares : D.Spares (statementsAssign · statements)) :
    D.Keeps world (tryBodyUntilThrowFlow ev statements) D.Any := by
  induction statements generalizing world with
  | nil => exact .pureAny _
  | cons statement rest ih =>
      obtain ⟨hstatement, hrest⟩ := spares_or spares
      apply (keeping.tryStatement hstatement).bindAny
      intro _ flow
      split
      · exact ih hrest
      · exact .pureAny _

theorem keeps_tryIf {condition : Expression} {consequence alternative : List Statement}
    (hcondition : D.Spares (expressionAssigns · condition))
    (hconsequence : D.Spares (statementsAssign · consequence))
    (halternative : D.Spares (statementsAssign · alternative)) :
    D.Keeps world (tryIf ev condition consequence alternative) D.Any := by
  apply (keeping.bool hcondition).attempting
  · exact .pureAny _
  · intro _ value _
    cases value with
    | true => exact keeping.tryBody hconsequence
    | false => exact keeping.tryBody halternative

theorem keeps_tryWhile {condition : Expression} {body : List Statement}
    (hcondition : D.Spares (expressionAssigns · condition)) (hbody : D.Spares (statementsAssign · body)) :
    D.Keeps world (tryWhile ev condition body) D.Any := by
  apply (keeping.bool hcondition).attempting
  · exact .pureAny _
  · intro _ value _
    cases value with
    | false => exact .pureAny _
    | true => exact keeping.tryBody hbody

theorem keeps_tryFor {init : Option Statement} {condition : Option Expression} {body : List Statement}
    (hinit : D.Spares (optionStatementAssigns · init))
    (hcondition : D.Spares (optionExpressionAssigns · condition))
    (hbody : D.Spares (statementsAssign · body)) : D.Keeps world (tryFor ev init condition body) D.Any :=
  ((keeps_initStatement keeping hinit).andThen <|
    keeps_forCondition keeping hcondition (keeping.tryBody hbody).map (.pureAny _) (.pureAny _)).onClone

theorem keeps_applyNestedTryUntilThrow (scopes : D.Scopes) {tryBody catchBody finallyBody : List Statement}
    {catchPattern : Option BindingPattern} (htry : D.Spares (statementsAssign · tryBody))
    (hcatch : D.Spares fun name => !(name ∈ patternNames catchPattern) && statementsAssign name catchBody)
    (hfinally : D.Spares (statementsAssign · finallyBody)) :
    D.Keeps world (applyNestedTryUntilThrow ev tryBody catchPattern catchBody finallyBody) D.Any := by
  apply (keeping.tryBody htry).bindAny
  intro _ tryFlow
  split
  · exact .pureAny _
  · refine Keeps.bindAny (?_ : D.Keeps _ _ D.Any) ?_
    · unfold nestedCatchFlow
      split
      · apply scopes.catches
        intro hfree _
        apply keeping.tryBody
        intro name hguarded
        have hmem : decide (name ∈ patternNames catchPattern) = false :=
          decide_eq_false fun hmem => hfree name hmem hguarded
        simpa only [hmem, Bool.not_false, Bool.true_and] using hcatch name hguarded
      · exact .pureAny _
    · intro _ catchFlow
      split
      · exact .pureAny _
      · exact (keeping.tryBody hfinally).map

theorem keeps_applyTryStatementUntilThrow (scopes : D.Scopes) {statement : Statement}
    (spares : D.Spares (statementAssigns · statement)) :
    D.Keeps world (applyTryStatementUntilThrow ev statement) D.Any := by
  unfold applyTryStatementUntilThrow
  split
  · exact .pureAny _
  · next pos statements =>
    have hstatements : D.Spares (statementsAssign · statements) := spares
    exact keeping.tryBody hstatements
  · obtain ⟨hcondition, hbranches⟩ := spares_or spares
    obtain ⟨hconsequence, halternative⟩ := spares_or hbranches
    exact keeps_tryIf keeping hcondition hconsequence halternative
  · obtain ⟨hdiscriminant, hparts⟩ := spares_or spares
    obtain ⟨hcases, hdefault⟩ := spares_or hparts
    exact (keeps_matchingSwitchConsequent keeping hdiscriminant hcases hdefault).attempting (.pureAny _)
      fun _ hstatements => keeping.tryBody hstatements
  · obtain ⟨hcondition, hbody⟩ := spares_or spares
    exact keeps_tryWhile keeping hcondition hbody
  · obtain ⟨hinit, hparts⟩ := spares_or spares
    obtain ⟨hcondition, hparts⟩ := spares_or hparts
    exact keeps_tryFor keeping hinit hcondition (spares_or hparts).2
  · exact keeping.tryBody (spares_or spares).1
  · next pos label statement =>
    have hstatement : D.Spares (statementAssigns · statement) := spares
    exact keeping.tryStatement hstatement
  · obtain ⟨htry, hparts⟩ := spares_or spares
    obtain ⟨hcatch, hfinally⟩ := spares_or hparts
    exact (keeps_applyNestedTryUntilThrow keeping scopes htry hcatch hfinally).map.onClone
  · split
    · exact .pureAny _
    · exact (keeping.nonReturnStatement spares).map

end Try

section Evaluators

variable (scopes : D.Scopes)
include scopes

theorem keeping_evaluatorsOver (keeping : D.Keeping ev) : D.Keeping (evaluatorsOver host ev) :=
  have calls := scopes.calls keeping
  { int := keeps_evaluateIntExpression calls
    string := keeps_evaluateStringExpression calls
    bigInt := keeps_evaluateBigIntValue calls
    bool := keeps_evaluateBoolExpression calls
    boolValue := keeps_evaluateBoolValue calls
    nullish := keeps_evaluateNullishExpression calls
    discard := keeps_evaluateDiscardExpression calls
    functionIdentity := keeps_evaluateFunctionIdentity calls
    objectIdentity := keeps_evaluateObjectIdentity calls
    materializeFunction := keeps_materializeFunctionIdentity calls
    materializeObject := keeps_materializeObjectIdentity calls
    functionReference := keeps_evaluateFunctionReferenceExpression calls
    objectReference := keeps_evaluateObjectReferenceExpression calls
    arrayElements := keeps_evaluateArrayLiteralElements calls
    objectProperties := keeps_evaluateObjectLiteralProperties calls
    callable := keeps_evaluateCallableReturnExpression calls
    collected := collected_evaluateCallableReturnExpression calls
    emptyCallable := keeps_evaluateEmptyCallableExpression calls
    emptyConstructor := keeps_evaluateEmptyConstructorExpression calls
    returnCode := scopes.returns calls
    nonReturn := keeps_applyNonReturnStatements calls
    nonReturnStatement := keeps_applyNonReturnStatement calls
    tryBody := keeps_tryBodyUntilThrowFlow calls
    tryStatement := keeps_applyTryStatementUntilThrow calls scopes
    labeledBreak _ := keeps_applyLabeledBreakStatements calls
    labeledBreakStatement _ := keeps_applyLabeledBreakStatement calls }

omit scopes in
theorem keeping_failingEvaluators : D.Keeping failingEvaluators where
  int _ := .failure
  string _ := .failure
  bigInt _ := .failure
  bool _ := .failure
  boolValue _ := .failure
  nullish _ := .failure
  discard _ := .failure
  functionIdentity _ := .failure
  objectIdentity _ := .failure
  materializeFunction _ := .failure
  materializeObject _ := .failure
  functionReference _ := .failure
  objectReference _ := .failure
  arrayElements _ := .failure
  objectProperties _ := .failure
  callable _ := .failure
  collected hrun := nomatch hrun
  emptyCallable _ := .failure
  emptyConstructor _ := .failure
  returnCode _ := .failure
  nonReturn _ := .failure
  nonReturnStatement _ := .failure
  tryBody _ := .failure
  tryStatement _ := .failure
  labeledBreak _ _ := .failure
  labeledBreakStatement _ _ := .failure

theorem keeping_evaluators (host : Host) (depth : ℕ) : D.Keeping (evaluators host depth) := by
  induction depth with
  | zero => exact keeping_failingEvaluators
  | succ depth ih => exact keeping_evaluatorsOver scopes ih

theorem holds_mainReturnCode (host : Host) (depth : ℕ) (program : List Statement)
    (before : D.Holds world initialEvaluation) :
    ∃ later, D.Holds later (mainReturnCode host depth program).2 := by
  obtain ⟨later, -, after, -⟩ := (keeping_evaluators scopes host depth).returnCode
    (mainStatements program program) initialEvaluation before
  exact ⟨later, after⟩

end Evaluators

end Discipline

end Jayess.Lowering
