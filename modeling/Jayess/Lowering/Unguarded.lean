import Jayess.Lowering.StatementPreservation

/-!
# Disciplines that guard no name

A discipline of every mutation also says what it makes of the names that leave scope: calls and catch clauses
keep it, and so do the functions that look for return values.
-/

namespace Jayess.Lowering

namespace Discipline

variable {α β : Type} {D : Discipline} {ev : Evaluators} {host : Host} {world : D.World}
  {result : D.World → α → Prop}

/-- Every name may be written, and may leave scope. -/
structure Unguarded (D : Discipline) : Prop where
  free : ∀ name, ¬D.Guarded name
  hoist : ∀ {world state} name, D.Holds world state → ∃ later, D.Grows world later ∧
    D.Holds later (state.leaving name
      (((state.scope.clearBinding name).dropSequences name).store name (.nullish .undefined)))
  forget : ∀ {world state} name, D.Holds world state → ∃ later, D.Grows world later ∧
    D.Holds later (state.leaving name ((state.scope.clearBinding name).dropSequences name))
  restore : ∀ {world state source} name, D.Holds world state → D.Snapshot world source →
    ∃ later, D.Grows world later ∧
      D.Holds later (state.leaving name (state.scope.restoreBinding name source))

namespace Unguarded

variable (unguarded : D.Unguarded)
include unguarded

theorem spares (assigns : String → Bool) : D.Spares assigns :=
  fun name hguarded => absurd hguarded (unguarded.free name)

/-! ## Names that leave scope -/

theorem keeps_clear (name : String) : D.Keeps world (clearReturnScopeBinding name) D.Any := by
  intro state holds
  exact ⟨world, D.refl world, D.clear name (unguarded.free name) holds, fun _ _ => trivial⟩

theorem keeps_hoist (name : String) : D.Keeps world (hoistIIFEVarBinding name) D.Any := by
  intro state holds
  obtain ⟨later, grows, after⟩ := unguarded.hoist name holds
  exact ⟨later, grows, after, fun _ _ => trivial⟩

theorem keeps_forget (name : String) : D.Keeps world (leave name fun scope =>
    (scope.clearBinding name).dropSequences name) D.Any := by
  intro state holds
  obtain ⟨later, grows, after⟩ := unguarded.forget name holds
  exact ⟨later, grows, after, fun _ _ => trivial⟩

variable {source : ReturnScope}

theorem keeps_restore (name : String) (known : D.Snapshot world source) :
    D.Keeps world (restoreReturnScopeBinding name source) D.Any := by
  intro state holds
  obtain ⟨later, grows, after⟩ := unguarded.restore name holds known
  exact ⟨later, grows, after, fun _ _ => trivial⟩

theorem keeps_hoistIIFEVarBindings (body : IifeBody) : D.Keeps world (hoistIIFEVarBindings body) D.Any := by
  have hoisting (names : List String) {world} : D.Keeps world (eachName hoistIIFEVarBinding names) D.Any :=
    keeps_eachName fun _ => unguarded.keeps_hoist _
  have declaring (names : List String) {world} : D.Keeps world (eachName hoistIIFEFunctionBinding names) D.Any :=
    keeps_eachName fun _ => keeps_hoistIIFEFunctionBinding (unguarded.free _)
  exact (hoisting _).andThen ((hoisting _).andThen ((declaring _).andThen (declaring _)))

theorem keeps_clearIIFELocals (names : List String) : D.Keeps world (clearIIFELocals names) D.Any :=
  keeps_eachName fun _ => unguarded.keeps_forget _

theorem keeps_restoreBindings (known : D.Snapshot world source) (names : List String) :
    D.Keeps world (eachName (fun name => restoreReturnScopeBinding name source) names) D.Any := by
  induction names generalizing world with
  | nil => exact .pureAny _
  | cons name rest ih =>
      exact (unguarded.keeps_restore name known).bind fun _ _ grows _ => ih (D.snapshot_grows grows known)

theorem keeps_restoreIIFESelfName (known : D.Snapshot world source) (body : IifeBody) :
    D.Keeps world (restoreIIFESelfName body source) D.Any := by
  unfold restoreIIFESelfName
  split
  · exact .pureAny _
  · split
    · exact unguarded.keeps_restore _ known
    · exact unguarded.keeps_forget _

theorem keeps_bindIIFEParameters (keeping : D.Keeping ev) (body : IifeBody) (arguments : List Expression) :
    D.Keeps world (bindIIFEParameters ev body arguments) D.Snapshot := by
  apply Keeps.scope.bindAny
  intro _ before
  split
  · apply (keeps_bindIIFEArguments keeping (fun _ _ => unguarded.free _) (unguarded.spares _)).bindAny
    intro _ defaults
    apply Keeps.scope.bind
    intro later shadowScope _ known
    apply (keeps_bindIIFESelfName (unguarded.free _)).bind
    intro last _ grows _
    apply (keeps_bindIIFEDefaults keeping fun _ _ => ⟨unguarded.free _, unguarded.spares _⟩).bind
    intro final _ grows' _
    exact .pure (D.snapshot_grows (D.trans grows grows') known)
  · exact .failure

theorem keeps_leaveIIFE {shadowScope : ReturnScope} (snapshot : D.Snapshot world shadowScope)
    (body : IifeBody) : D.Keeps world (leaveIIFE body shadowScope) D.Any := by
  apply (unguarded.keeps_clearIIFELocals _).bind
  intro first _ grows _
  apply (unguarded.keeps_clearIIFELocals _).bind
  intro second _ grows' _
  have hsecond := D.trans grows grows'
  apply (unguarded.keeps_restoreBindings (D.snapshot_grows hsecond snapshot) _).bind
  intro third _ grows _
  have hthird := D.trans hsecond grows
  apply (unguarded.keeps_restoreBindings (D.snapshot_grows hthird snapshot) _).bind
  intro fourth _ grows _
  have hfourth := D.trans hthird grows
  apply (unguarded.keeps_restoreIIFESelfName (D.snapshot_grows hfourth snapshot) body).bind
  intro fifth _ _ _
  exact keeps_eachName fun _ => unguarded.keeps_clear _

theorem keepingCalls (keeping : D.Keeping ev) : D.KeepingCalls ev where
  toKeeping := keeping
  calls := by
    intro α evaluate result hevaluate hknown world expression _
    unfold evaluateIIFEValue
    split
    · apply Keeps.probe
      split
      · exact .failure
      · apply (keeping.callable (unguarded.spares _)).bindAny
        intro _ body
        apply (unguarded.keeps_bindIIFEParameters keeping body _).bind
        intro bound shadowScope _ snapshot
        apply (unguarded.keeps_hoistIIFEVarBindings body).bind
        intro hoisted _ grows _
        apply (keeps_iifeValue keeping hevaluate (unguarded.spares _)).bind
        intro evaluated value grows' known
        apply (unguarded.keeps_leaveIIFE (D.snapshot_grows (D.trans grows grows') snapshot) body).bind
        intro left _ grows _
        exact .pure (hknown.stays grows known)
    · exact .failure

theorem keeps_withCatchBindingScope {evaluate : Eval α} (hevaluate : ∀ {world}, D.Keeps world evaluate D.Any)
    (catchPattern : Option BindingPattern) : D.Keeps world (withCatchBindingScope catchPattern evaluate) D.Any := by
  apply Keeps.scope.bind
  intro later beforeCatch _ snapshot
  apply (keeps_eachName fun _ => unguarded.keeps_clear _).bind
  intro cleared _ grows _
  apply hevaluate.attempt.bind
  intro evaluated value grows' _
  apply (unguarded.keeps_restoreBindings (D.snapshot_grows (D.trans grows grows') snapshot) _).bind
  intro restored _ _ _
  exact .ofOptionAny _

section Returns

variable (keeping : D.KeepingCalls ev)
include keeping

theorem keeps_returnCodeFromIf (condition : Expression) (consequence alternative : List Statement) :
    D.Keeps world (returnCodeFromIf ev condition consequence alternative) D.Any := by
  apply (keeping.bool (unguarded.spares _)).attempting
  · intro _
    apply (keeping.returnCode _).attempting
    · intro _
      apply (keeping.returnCode _).attempting
      · exact .pureAny _
      · exact fun _ _ => .pureAny _
    · exact fun _ _ => .pureAny _
  · intro _ value _
    apply (keeping.returnCode _).attempting
    · exact (keeping.nonReturn (unguarded.spares _)).map
    · exact fun _ _ => .pureAny _

theorem keeps_returnCodeFromSwitchStatements (statements : List Statement) :
    D.Keeps world (returnCodeFromSwitchStatements ev statements) D.Any := by
  induction statements generalizing world with
  | nil => exact .failure
  | cons statement rest ih =>
      unfold returnCodeFromSwitchStatements
      split
      · exact .failure
      · exact .failure
      · exact .failure
      · next heq =>
        cases heq
        apply (keeping.returnCode _).attempting
        · intro _
          apply (keeping.nonReturnStatement (unguarded.spares _)).bindAny
          intro _ flow
          split
          · exact ih
          · exact .failure
        · exact fun _ _ => .pureAny _

theorem keeps_returnCodeFromSwitch (discriminant : Expression) (cases : List SwitchCase)
    (default : List Statement) : D.Keeps world (returnCodeFromSwitch ev discriminant cases default) D.Any := by
  apply (keeps_matchingSwitchConsequent keeping (unguarded.spares _) (unguarded.spares _)
    (unguarded.spares _)).attempting
  · exact .pureAny _
  · intro _ consequent _
    apply (unguarded.keeps_returnCodeFromSwitchStatements keeping _).isolate.attempting
    · exact (keeping.nonReturn (unguarded.spares _)).map
    · exact fun _ _ => .pureAny _

theorem keeps_returnCodeFromLabeled (label : String) (statement : Statement) :
    D.Keeps world (returnCodeFromLabeled ev label statement) D.Any := by
  apply (keeping.returnCode _).attempting
  · intro _
    dsimp only
    split
    · exact .pureAny _
    · apply (keeping.labeledBreakStatement _ (unguarded.spares _)).succeeds.bindAny
      intro _ breaks
      split
      · exact .pureAny _
      · exact (keeps_applyNonReturnLabeled keeping (unguarded.spares _)).map
  · exact fun _ _ => .pureAny _

theorem keeps_applyTrySideEffects (tryBody : List Statement) (catchPattern : Option BindingPattern)
    (catchBody finallyBody : List Statement) :
    D.Keeps world (applyTrySideEffects ev tryBody catchPattern catchBody finallyBody) D.Any := by
  unfold applyTrySideEffects
  split
  · exact (keeps_applyNonReturnTry keeping (unguarded.spares _) (unguarded.spares _)).map
  · apply Keeps.onClone
    apply (keeping.tryBody (unguarded.spares _)).bindAny
    intro _ tryFlow
    split
    · exact .pureAny _
    · apply (unguarded.keeps_withCatchBindingScope (keeping.nonReturn (unguarded.spares _)) _).bindAny
      exact fun _ => (keeping.nonReturn (unguarded.spares _)).map

theorem keeps_whileBlocksFollowing (condition : Expression) :
    D.Keeps world (whileBlocksFollowing ev condition) D.Any :=
  (keeping.bool (unguarded.spares _)).attempt.map

theorem keeps_forBlocksFollowing (init : Option Statement) (condition : Option Expression) :
    D.Keeps world (forBlocksFollowing ev init condition) D.Any := by
  cases condition with
  | none => exact .pureAny _
  | some condition =>
      exact ((keeps_initStatement keeping (unguarded.spares _)).andThen
        (keeping.bool (unguarded.spares _)).attempt.map).isolate

theorem keeps_doWhileBlocksFollowing (body : List Statement) (condition : Expression) :
    D.Keeps world (doWhileBlocksFollowing ev body condition) D.Any := by
  apply Keeps.isolate
  apply (keeping.nonReturn (unguarded.spares _)).bindAny
  intro _ flow
  split
  · exact .pureAny _
  · exact (keeping.bool (unguarded.spares _)).attempt.map

omit unguarded keeping in
theorem keeps_foldedStep {blocks : Eval Bool} (hblocks : D.Keeps world blocks D.Any) (folded : Folded) :
    D.Keeps world (foldedStep folded blocks) D.Any := by
  cases folded with
  | returned value => exact .pureAny _
  | handled => exact .pureAny _
  | unhandled => exact hblocks.map

theorem keeps_returnStep (statement : Statement) : D.Keeps world (returnStep ev host statement) D.Any := by
  unfold returnStep
  split
  · exact (keeps_applyVariableDecl keeping (unguarded.free _) (unguarded.spares _)).map
  · exact (keeps_applyAssignmentStatement keeping (unguarded.spares _) (unguarded.spares _)
      (unguarded.spares _)).map
  · exact (keeping.discard (unguarded.spares _)).attempt.map.map
  · exact .pureAny _
  · apply (keeping.int (unguarded.spares _)).attempting
    · exact .pureAny _
    · exact fun _ _ => .pureAny _
  · exact .pureAny _
  · apply (keeping.returnCode _).attempting
    · intro _
      dsimp only
      split
      · exact .pureAny _
      · exact (keeping.nonReturn (unguarded.spares _)).map
    · exact fun _ _ => .pureAny _
  · exact (unguarded.keeps_returnCodeFromLabeled keeping _ _).bindAny fun _ => keeps_foldedStep (.pureAny _) _
  · exact (unguarded.keeps_returnCodeFromIf keeping _ _ _).bindAny fun _ => keeps_foldedStep (.pureAny _) _
  · exact (keeps_returnCodeFromWhile keeping (unguarded.spares _) (unguarded.spares _)).bindAny fun _ =>
      keeps_foldedStep (unguarded.keeps_whileBlocksFollowing keeping _).map _
  · exact (keeps_returnCodeFromFor keeping (unguarded.spares _) (unguarded.spares _) (unguarded.spares _)).bindAny
      fun _ => keeps_foldedStep (unguarded.keeps_forBlocksFollowing keeping _ _).map _
  · exact (keeps_returnCodeFromDoWhile keeping (unguarded.spares _) (unguarded.spares _)).bindAny fun _ =>
      keeps_foldedStep (unguarded.keeps_doWhileBlocksFollowing keeping _ _).map _
  · exact (unguarded.keeps_returnCodeFromSwitch keeping _ _ _).bindAny fun _ => keeps_foldedStep (.pureAny _) _
  · apply (unguarded.keeps_applyTrySideEffects keeping _ _ _ _).bindAny
    intro _ flow
    split
    · exact .pureAny _
    · exact .pureAny _
  · exact .pureAny _

theorem keeps_returnCodeLoop (statements : List Statement) :
    D.Keeps world (returnCodeLoop ev host statements) D.Any := by
  induction statements generalizing world with
  | nil => exact .failure
  | cons statement rest ih =>
      apply (unguarded.keeps_returnStep keeping statement).bindAny
      intro _ step
      cases step with
      | continues => exact ih
      | returns value => exact .pureAny _
      | fails => exact .failure

end Returns

theorem scopes : D.Scopes where
  calls := unguarded.keepingCalls
  catches hevaluate := unguarded.keeps_withCatchBindingScope (hevaluate fun _ _ => unguarded.free _) _
  returns keeping _ statements := (unguarded.keeps_returnCodeLoop keeping statements).isolate

end Unguarded

end Discipline

end Jayess.Lowering
