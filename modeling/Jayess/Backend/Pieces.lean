import Jayess.Backend.Emitted

/-!
# The straight parts of statements

The rules for actions of the statement emitter that append a fragment, in the manner of those for
expressions, and their instances: cleanups, declarations, for-each targets, caught values.
-/

namespace Jayess.Backend

open Lifetime (Plan)

variable {α β : Type} {declares : Bool} {available : Set Name}

theorem expr_eq_ok {action : ExprM α} {emitter emitted : StatementEmitter} {value : α} :
    expr action emitter = .ok (value, emitted) ↔
      ∃ expressions, action emitter.expressions = .ok (value, expressions) ∧
        { emitter with expressions } = emitted := by
  unfold expr
  cases action emitter.expressions with
  | error error => simp
  | ok pair =>
      constructor
      · intro h
        simp only [Except.ok.injEq, Prod.mk.injEq] at h
        exact ⟨pair.2, by rw [← h.1], h.2⟩
      · rintro ⟨expressions, hpair, rfl⟩
        obtain ⟨rfl⟩ := hpair
        rfl

theorem addCleanups_nil (scopes : List (List String)) : addCleanups [] scopes = scopes := by
  cases scopes <;> rfl

theorem addCleanups_append (first second : List String) (scopes : List (List String)) :
    addCleanups second (addCleanups first scopes) = addCleanups (second ++ first) scopes := by
  cases scopes <;> simp [addCleanups]

namespace Straight

variable {emitter middle emitted : StatementEmitter} {first second : Fragment}

theorem nil (hlocals : LocalsIn available emitter.expressions) :
    Straight declares available emitter .nil emitter :=
  ⟨.nil hlocals, rfl, [], (addCleanups_nil _).symm, fun _ => rfl⟩

theorem seq (hfirst : Straight declares available emitter first middle)
    (hsecond : Straight declares (available ∪ first.exports) middle second emitted) :
    Straight declares available emitter (.seq first second) emitted := by
  obtain ⟨names, hnames, hnone⟩ := hfirst.cleanups
  obtain ⟨names', hnames', hnone'⟩ := hsecond.cleanups
  refine ⟨hfirst.emission.seq hsecond.emission, ?_, names' ++ names, ?_, fun hdeclares => ?_⟩
  · rw [hsecond.state, hfirst.state]
  · rw [hnames', hnames, addCleanups_append]
  · rw [hnone hdeclares, hnone' hdeclares, List.append_nil]

theorem cleanupScopes_eq (hstraight : Straight false available emitter first emitted) :
    emitted.cleanupScopes = emitter.cleanupScopes := by
  obtain ⟨names, hnames, hnone⟩ := hstraight.cleanups
  rw [hnames, hnone rfl, addCleanups_nil]

end Straight

def Appends (declares : Bool) (available : Set Name) (ready : α → Set Name → Prop) (shape : Shape)
    (action : StmtM α) : Prop :=
  ∀ emitter value emitted, LocalsIn available emitter.expressions →
    action emitter = .ok (value, emitted) →
    ∃ fragment, Straight declares available emitter fragment emitted ∧
      Gives ready available shape value fragment

abbrev AppendsLines (declares : Bool) (available : Set Name) (shape : Shape)
    (action : StmtM Unit) : Prop :=
  Appends declares available (fun _ _ => True) shape action

namespace Appends

variable {ready : α → Set Name → Prop} {ready' : β → Set Name → Prop} {shape shape' : Shape}

theorem lift {action : ExprM α} (haction : Emits declares available action
    (Gives ready available shape)) : Appends declares available ready shape (expr action) := by
  intro emitter value emitted hlocals hrun
  obtain ⟨expressions, haction', rfl⟩ := expr_eq_ok.mp hrun
  obtain ⟨fragment, hemission, hgives⟩ := haction _ _ _ hlocals haction'
  exact ⟨fragment, ⟨hemission, rfl, [], (addCleanups_nil _).symm, fun _ => rfl⟩, hgives⟩

theorem done {value : α} (hvalue : ready value available) :
    Appends declares available ready .straight (pure value) := by
  intro emitter result emitted hlocals hrun
  simp only [pure_eq_ok, Prod.mk.injEq] at hrun
  obtain ⟨rfl, rfl⟩ := hrun
  exact ⟨.nil, .nil hlocals, by simpa [Fragment.exports] using hvalue, rfl⟩

variable {action : StmtM α}

theorem step {next : α → StmtM β} (haction : Appends declares available ready shape action)
    (hnext : ∀ (larger : Set Name) value, available ⊆ larger → ready value larger →
      Appends declares larger ready' shape' (next value)) :
    Appends declares available ready' (shape.append shape') (action >>= next) := by
  intro emitter result emitted hlocals hrun
  obtain ⟨value, middle, hfirst, hsecond⟩ := bind_eq_ok.mp hrun
  obtain ⟨first, hstraight, hready, hshape⟩ := haction _ _ _ hlocals hfirst
  obtain ⟨second, hstraight', hready', hshape'⟩ :=
    hnext _ value Set.subset_union_left hready _ _ _ hstraight.emission.localsIn hsecond
  refine ⟨.seq first second, hstraight.seq hstraight', ?_, by rw [Fragment.shape, hshape, hshape']⟩
  simpa only [Fragment.exports, Set.union_assoc] using hready'

theorem get {next : StatementEmitter → StmtM β}
    (hnext : ∀ emitter, Appends declares available ready' shape' (next emitter)) :
    Appends declares available ready' shape' (get >>= next) := by
  intro emitter result emitted hlocals hrun
  obtain ⟨value, middle, hget, hsecond⟩ := bind_eq_ok.mp hrun
  obtain ⟨rfl, rfl⟩ := by simpa only [get_eq_ok, Prod.mk.injEq] using hget
  exact hnext emitter emitter result emitted hlocals hsecond

theorem withDiagnostic {pos : SourcePos} (haction : Appends declares available ready shape action) :
    Appends declares available ready shape (withDiagnostic pos action) :=
  fun emitter value emitted hlocals hrun =>
    haction emitter value emitted hlocals (withDiagnostic_eq_ok.mp hrun)

theorem forM {items : List α} {action : α → StmtM Unit}
    (haction : ∀ larger, available ⊆ larger → ∀ item ∈ items,
      AppendsLines declares larger .straight (action item)) :
    AppendsLines declares available .straight (items.forM action) := by
  induction items generalizing available with
  | nil => exact .done trivial
  | cons item rest ih =>
      rw [← Shape.straight.append_straight]
      refine (haction available subset_rfl item List.mem_cons_self).step fun larger _ hsub _ => ?_
      exact ih fun final hfinal other hother =>
        haction final (hsub.trans hfinal) other (List.mem_cons_of_mem item hother)

theorem piece {emitter emitted : StatementEmitter} {value : α}
    (haction : Appends declares available ready shape action)
    (hrun : action emitter = .ok (value, emitted))
    (hlocals : LocalsIn available emitter.expressions) :
    ∃ fragment, Piece declares ready available shape action emitter fragment value emitted := by
  obtain ⟨fragment, hstraight, hgives⟩ := haction emitter value emitted hlocals hrun
  exact ⟨fragment, hrun, hstraight, hgives⟩

end Appends

theorem locals_in_slots (emitter : StatementEmitter) : LocalsIn emitter.slots emitter.expressions :=
  fun binding slot hslot => ⟨binding, slot, hslot, rfl⟩

theorem locals_in_slotsAnd (emitter : StatementEmitter) (names : List Name) :
    LocalsIn (emitter.slotsAnd names) emitter.expressions :=
  (locals_in_slots emitter).mono Set.subset_union_left

theorem emitLifetimeCall_appends (symbol name : String) :
    AppendsLines declares available .straight (emitLifetimeCall symbol name) := by
  refine .get fun emitter => ?_
  by_cases hlocal : (emitter.expressions.locals name).isSome = true
  · rw [if_pos hlocal, ← Shape.straight.append_straight]
    refine (Appends.lift loadLocal_emits.declaring).step fun larger value _ hvalue => ?_
    exact .lift (emitRuntimeVoidCall_emits (argsIn_singleton hvalue)).declaring
  · rw [if_neg hlocal]
    exact .done trivial

theorem emitCleanupList_appends (cleanups : List String) :
    AppendsLines declares available .straight (emitCleanupList cleanups) :=
  .forM fun _ _ name _ => emitLifetimeCall_appends _ name

theorem emitCleanupsUntil_appends (boundary : Nat) :
    AppendsLines declares available .straight (emitCleanupsUntil boundary) :=
  .get fun _ => .forM fun _ _ cleanups _ => emitCleanupList_appends cleanups

theorem pushLifetimeCleanup_appends (name : String) :
    AppendsLines true available .straight (pushLifetimeCleanup name) := by
  intro emitter value emitted hlocals hrun
  simp only [pushLifetimeCleanup, modify_eq_ok, Prod.mk.injEq] at hrun
  obtain ⟨-, rfl⟩ := hrun
  refine ⟨.nil, ?_, trivial, rfl⟩
  cases hscopes : emitter.cleanupScopes with
  | nil => exact .nil hlocals
  | cons scope outer =>
      dsimp only
      by_cases hname : name = ""
      · rw [if_pos hname]
        exact .nil hlocals
      · rw [if_neg hname]
        refine ⟨.nil hlocals, rfl, [name], ?_, by simp⟩
        rw [hscopes]
        rfl

theorem registerLifetimes_appends (plan : Plan) (pos : SourcePos) (names : List String) :
    AppendsLines true available .straight (registerLifetimes plan pos names) := by
  refine .forM fun larger _ name _ => ?_
  have hpush : AppendsLines true larger .straight
      (if hasLifetimeCleanup plan name pos then pushLifetimeCleanup name else pure ()) := by
    split
    · exact pushLifetimeCleanup_appends name
    · exact .done trivial
  have hretain : ∀ final, AppendsLines true final .straight
      (if hasExtendedLifetime plan name pos then emitLifetimeCall "jayess_value_retain" name
        else pure ()) := by
    intro final
    split
    · exact emitLifetimeCall_appends _ name
    · exact .done trivial
  rw [← Shape.straight.append_straight]
  have hstep := hpush.step fun final _ _ _ => hretain final
  by_cases hcleanup : hasLifetimeCleanup plan name pos = true
  · simpa only [if_pos hcleanup] using hstep
  · simpa only [if_neg hcleanup, pure_bind] using hstep

theorem registerDeclarationLifetime_appends (pos : SourcePos) (pattern : Option BindingPattern) :
    AppendsLines true available .straight (registerDeclarationLifetime pos pattern) := by
  refine .get fun emitter => ?_
  cases emitter.lifetimePlan with
  | none => exact .done trivial
  | some plan => exact registerLifetimes_appends plan pos _

theorem emitVariableDeclaration_appends (pos : SourcePos) (pattern : Option BindingPattern)
    (value : Option Expression) :
    AppendsLines true available ((optionShape value).append (patternShape pattern))
      (emitVariableDeclaration pos pattern value) := by
  have hvalue : Appends true available ValueIn (optionShape value)
      (expr (emitOptionalValue value)) := .lift (emitOptionalValue_emits value available).declaring
  refine hvalue.step fun larger result _ hresult => ?_
  rw [← (patternShape pattern).append_straight]
  refine (Appends.lift (emitBindingDeclaration_emits hresult)).step fun final _ _ _ => ?_
  exact registerDeclarationLifetime_appends pos pattern

theorem emitStatement_appends {statement : Statement} (hstraight : isStraight statement = true) :
    AppendsLines true available (straightShape statement) (emitStatement statement) := by
  cases statement with
  | empty pos => exact .done trivial
  | variableDecl pos kind name pattern value =>
      exact .withDiagnostic (emitVariableDeclaration_appends pos pattern value)
  | functionDecl pos name params body =>
      exact .withDiagnostic (.lift emitFunctionDeclaration_emits)
  | classDecl pos name superClass members =>
      exact .withDiagnostic (.lift emitClassDeclaration_emits)
  | importDecl pos source specifiers sideEffect =>
      exact .withDiagnostic (.lift emitImportDeclaration_emits)
  | assignment pos target operator value =>
      exact .withDiagnostic (.lift emitAssignmentStatement_emits.declaring)
  | expressionStatement pos expression =>
      refine .withDiagnostic ?_
      rw [straightShape, ← expression.shape.append_straight]
      exact (Appends.lift (emitExpression_emits expression available).declaring).step
        fun larger _ _ _ => .done trivial
  | _ => simp [isStraight] at hstraight

theorem prepareForEachTarget_appends (pos : SourcePos) (pattern : Option BindingPattern)
    (target : Expression) :
    Appends true available (ForEachTarget.Ready pattern) (prepareShape pattern target)
      (prepareForEachTarget pos pattern target) := by
  cases pattern with
  | some pattern =>
      rw [prepareShape, Option.isSome_some, if_pos rfl, ← Shape.straight.append_straight]
      have hundef : Operand.undef.In available := .constant rfl
      refine (Appends.lift (declareBindingTargets_emits (some pattern) available hundef)).step
        fun larger _ _ _ => ?_
      rw [← Shape.straight.append_straight]
      refine (registerDeclarationLifetime_appends pos (some pattern)).step fun final _ _ _ => ?_
      exact .done ⟨rfl, by simp [ForEachTarget.names]⟩
  | none =>
      rw [prepareShape, Option.isSome_none, if_neg Bool.false_ne_true,
        ← target.shape.append_straight]
      refine (Appends.lift (resolveAssignmentTarget_emits target available).declaring).step
        fun larger assignment _ hassignment => ?_
      refine .done ⟨rfl, fun name hname => ?_⟩
      cases assignment with
      | localSlot binding => simp [ForEachTarget.names] at hname
      | runtimeSet getter setter deleter object key =>
          rw [ForEachTarget.names, List.mem_append] at hname
          exact hname.elim (hassignment.1 name) (hassignment.2 name)

theorem emitIteratorStep_emits {iterator : Operand} (hiterator : iterator.In available) :
    Emits false available (emitIteratorStep iterator) (Gives PairIn available .straight) := by
  rw [← Shape.straight.append_straight]
  refine (emitRuntimeUnaryValue_emits hiterator).step fun larger next _ hnext => ?_
  rw [← Shape.straight.append_straight]
  refine (emitRuntimeCall_emits (argsIn_singleton hnext)).step
    fun final done hfinal hdone => ?_
  exact .done ⟨hnext.mono hfinal, hdone⟩

theorem assign_emits {target : ForEachTarget} {value : Operand} {pattern : Option BindingPattern}
    (htarget : target.Ready pattern available) (hvalue : value.In available) :
    EmitsLines available (patternShape pattern) (target.assign value) := by
  obtain ⟨hpattern, hnames⟩ := htarget
  cases target with
  | pattern declared =>
      rw [hpattern]
      exact emitDestructureToPattern_emits (some declared) available hvalue
  | assignment assignment =>
      rw [hpattern]
      refine store_emits ?_ hvalue
      cases assignment with
      | localSlot binding => trivial
      | runtimeSet getter setter deleter object key =>
          exact ⟨fun name hname => hnames name (List.mem_append_left _ hname),
            fun name hname => hnames name (List.mem_append_right _ hname)⟩

theorem emitIteratorAssign_emits {next : Operand} {target : ForEachTarget}
    {pattern : Option BindingPattern} (hnext : next.In available)
    (htarget : target.Ready pattern available) :
    EmitsLines available (patternShape pattern) (emitIteratorAssign next target) := by
  rw [← (patternShape pattern).straight_append]
  refine (emitRuntimeUnaryValue_emits hnext).step fun larger value hlarger hvalue => ?_
  exact assign_emits ⟨htarget.1, fun name hname => hlarger (htarget.2 name hname)⟩ hvalue

theorem emitCaseTest_emits {discriminant : Operand} (hdiscriminant : discriminant.In available)
    (test : Expression) : EmitsValue available test.shape (emitCaseTest discriminant test) := by
  rw [← test.shape.append_straight]
  refine (emitExpression_emits test available).step fun larger value hlarger hvalue => ?_
  exact emitRuntimeCall_emits (argsIn_cons.mpr
    ⟨hdiscriminant.mono hlarger, argsIn_singleton hvalue⟩)

theorem emitLoopCondition_emits (condition : Option Expression) (available : Set Name) :
    EmitsValue available (optionShape condition) (emitLoopCondition condition) := by
  cases condition with
  | none => exact .done (.constant rfl)
  | some condition => exact emitCondition_emits condition available

theorem bindCaught_appends (pos : SourcePos) (pattern : BindingPattern) {caught : Operand}
    (hcaught : caught.In available) :
    AppendsLines true available pattern.shape (bindCaught pos pattern caught) := by
  rw [← pattern.shape.append_straight]
  have hpattern : AppendsLines true available pattern.shape
      (expr (emitDestructureToPattern (some pattern) caught)) :=
    .lift (emitDestructureToPattern_emits (some pattern) available hcaught).declaring
  exact hpattern.step fun larger _ _ _ => registerDeclarationLifetime_appends pos (some pattern)

theorem popScope_eq_ok {emitter emitted : ExpressionEmitter} :
    popScope emitter = .ok ((), emitted) ↔
      ∃ scope outer, emitter.scopes = scope :: outer ∧
        { emitter with scopes := outer, locals := scope.restore emitter.locals } = emitted := by
  unfold popScope
  cases emitter.scopes with
  | nil => simp
  | cons scope outer => simp

theorem leaveLexicalScope_leaves {emitter emitted : StatementEmitter}
    (hrun : leaveLexicalScope emitter = .ok ((), emitted)) :
    ∃ fragment, Leaves emitter fragment emitted := by
  have hleave := hrun
  obtain ⟨_, _, hget, hrest⟩ := bind_eq_ok.mp hleave
  obtain ⟨rfl, rfl⟩ := by simpa only [get_eq_ok, Prod.mk.injEq] using hget
  have hcleaned : ∃ fragment cleaned, Straight false emitter.slots emitter fragment cleaned ∧
      fragment.shape = .straight ∧ (emitter.returned = true → fragment = .nil) ∧
      (do
        modify fun emitter => { emitter with cleanupScopes := emitter.cleanupScopes.tail }
        expr popScope : StmtM Unit) cleaned = .ok ((), emitted) := by
    cases hreturned : emitter.returned with
    | true =>
        rw [hreturned] at hrest
        exact ⟨.nil, emitter, .nil (locals_in_slots emitter), rfl, fun _ => rfl, hrest⟩
    | false =>
        rw [hreturned] at hrest
        obtain ⟨_, cleaned, hlist, hpop⟩ := bind_eq_ok.mp hrest
        obtain ⟨fragment, hstraight, -, hshape⟩ :=
          emitCleanupList_appends _ _ _ _ (locals_in_slots emitter) hlist
        exact ⟨fragment, cleaned, hstraight, hshape, by simp, hpop⟩
  obtain ⟨fragment, cleaned, hstraight, hshape, hskipped, hpop⟩ := hcleaned
  obtain ⟨_, _, hmodify, hpop⟩ := bind_eq_ok.mp hpop
  obtain ⟨-, rfl⟩ := by simpa only [modify_eq_ok, Prod.mk.injEq] using hmodify
  obtain ⟨expressions, hscope, rfl⟩ := expr_eq_ok.mp hpop
  obtain ⟨scope, outer, hscopes, rfl⟩ := popScope_eq_ok.mp hscope
  have hemission := hstraight.emission
  have hkeeps := hemission.keeps
  refine ⟨fragment, hrun, hemission.body, hemission.numbered, hemission.closed, hshape, hskipped,
    ⟨scope, ?_, ?_⟩, ?_⟩
  · rw [← hkeeps.2]
    exact hscopes
  · rw [← hkeeps.1]
  · rw [hstraight.state]
    simp only [hstraight.cleanupScopes_eq]

end Jayess.Backend
