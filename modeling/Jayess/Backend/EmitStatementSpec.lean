import Jayess.Backend.Pieces

/-!
# The specification of the statement emitter

Every successful run of `EmitStatement` has a derivation: the constructs are inverted one by one and
assembled by recursion on the syntax tree.
-/

namespace Jayess.Backend

open StatementEmitter

theorem Piece.body {α : Type} {declares : Bool} {ready : α → Set Name → Prop}
    {available : Set Name} {shape : Shape} {action : StmtM α} {emitter emitted : StatementEmitter}
    {fragment : Fragment} {value : α}
    (hpiece : Piece declares ready available shape action emitter fragment value emitted) :
    emitted.expressions.body = emitter.expressions.body ++ fragment.lines :=
  hpiece.straight.emission.body

variable {lines : List Line} {node : Node} {action : StmtM Unit} {captured : CapturedStatements}

theorem EnsuresReturn.body {emitter emitted : StatementEmitter} {target : ReturnTarget}
    (hensures : EnsuresReturn emitter target lines emitted) :
    emitted.expressions.body = emitter.expressions.body ++ lines := by
  cases hensures <;> simp

theorem EnsuresThrowSlot.body {emitter emitted : StatementEmitter} {slot : LocalSlot}
    (hensures : EnsuresThrowSlot emitter slot lines emitted) :
    emitted.expressions.body = emitter.expressions.body ++ lines := by
  cases hensures <;> simp

theorem FindsThrowTarget.body {emitter emitted : StatementEmitter} {target : BlockLabel}
    (hfinds : FindsThrowTarget emitter target emitted) :
    emitted.expressions.body = emitter.expressions.body := by
  cases hfinds <;> simp

@[simp] theorem afterLabeled_expressions (emitter : StatementEmitter) (label : String) :
    (emitter.afterLabeled label).expressions = emitter.expressions := by
  unfold afterLabeled
  split <;> rfl

@[simp] theorem afterTry_expressions (emitter : StatementEmitter) (returns : Bool) :
    (emitter.afterTry returns).expressions = emitter.expressions := by
  unfold afterTry
  split <;> rfl

theorem Emitted.body {emitter emitted : StatementEmitter}
    (hemitted : Emitted node emitter lines emitted) :
    emitted.expressions.body = emitter.expressions.body ++ lines := by
  induction hemitted with
  | straight _ hpiece => exact hpiece.body
  | exportDecl _ hexports ih => rw [hexports.body, ih, List.append_assoc]
  | ifStatement hcondition _ _ _ _ => simp [hcondition.body]
  | loop _ _ hcondition _ _ => simp [hcondition.body]
  | doWhileReturns _ _ ih => simpa using ih
  | doWhile _ _ _ ihfirst ihloop => simpa [ihfirst] using ihloop
  | forLoop _ _ ihinit ihloop => simpa [ihinit] using ihloop
  | forEach hsource hprepare hiterator _ hstep hassign _ =>
      simp [hassign.body, hstep.body, hiterator.body, hprepare.body, hsource.body]
  | switchStatement hdiscriminant _ _ _ ihcases _ ihchecks =>
      simp [ihchecks, ihcases, hdiscriminant.body]
  | checksCons htest _ ih => simp [ih, htest.body]
  | labeledBlock _ _ ih => simp [ih]
  | breakStatement _ hcleanups => simp [hcleanups.body]
  | continueStatement _ _ hcleanups => simp [hcleanups.body]
  | returnStatement hvalue htarget hcleanups =>
      simp [hcleanups.body, htarget.body, hvalue.body]
  | throwStatement hvalue hslot htarget hcleanups =>
      simp [hcleanups.body, htarget.body, hslot.body, hvalue.body]
  | tryStatement _ _ hslot _ _ _ _ _ _ => simp [hslot.body]
  | caught hdeclare hbind _ ih => simp [ih, hbind.body, hdeclare.body]
  | inScope _ hleaves ih => simp [hleaves.body, ih]
  | statementsCons _ _ _ ihfirst ihrest => rw [ihrest, ihfirst, List.append_assoc]
  | casesCons _ _ _ ihrest => simpa using ihrest
  | _ => simp_all

def Node.isScoped : Node → Bool
  | .scoped _ => true
  | .part _ node => node.isScoped
  | _ => false

section Keeps

variable {emitter emitted : StatementEmitter}

variable {declares : Bool} {lines : List Line}

theorem Piece.keeps {α : Type} {ready : α → Set Name → Prop} {available : Set Name} {shape : Shape}
    {action : StmtM α} {fragment : Fragment} {value : α}
    (hpiece : Piece declares ready available shape action emitter fragment value emitted) :
    Keeps true emitter.expressions emitted.expressions :=
  hpiece.straight.emission.keeps.restores

theorem EnsuresReturn.keeps {target : ReturnTarget}
    (hensures : EnsuresReturn emitter target lines emitted) :
    Keeps declares emitter.expressions emitted.expressions := by
  cases hensures <;> exact .of_eq ⟨rfl, rfl⟩

theorem EnsuresThrowSlot.keeps {slot : LocalSlot}
    (hensures : EnsuresThrowSlot emitter slot lines emitted) :
    Keeps declares emitter.expressions emitted.expressions := by
  cases hensures <;> exact .of_eq ⟨rfl, rfl⟩

theorem FindsThrowTarget.keeps {target : BlockLabel}
    (hfinds : FindsThrowTarget emitter target emitted) :
    Keeps declares emitter.expressions emitted.expressions := by
  cases hfinds <;> exact .of_eq ⟨rfl, rfl⟩

theorem Leaves.keeps {inner : StatementEmitter} {fragment : Fragment}
    (hinner : Keeps true emitter.entered.expressions inner.expressions)
    (hleaves : Leaves inner fragment emitted) :
    Keeps false emitter.expressions emitted.expressions := by
  obtain ⟨scope', hscopes, hrestore⟩ := hinner.restore _ _ rfl
  obtain ⟨scope, hscopes', hlocals⟩ := hleaves.locals
  rw [hscopes, List.cons.injEq] at hscopes'
  obtain ⟨rfl, houter⟩ := hscopes'
  refine ⟨?_, houter.symm⟩
  rw [hlocals, hrestore]
  rfl

theorem Keeps.around {start first second final : ExpressionEmitter}
    (hkeeps : Keeps true first second)
    (hfirst : first.locals = start.locals ∧ first.scopes = start.scopes)
    (hsecond : final.locals = second.locals ∧ final.scopes = second.scopes) :
    Keeps true start final :=
  ((Keeps.of_eq hfirst).trans hkeeps).trans (.of_eq hsecond)

theorem Emitted.keeps {node : Node} (hemitted : Emitted node emitter lines emitted) :
    Keeps (!node.isScoped) emitter.expressions emitted.expressions := by
  induction hemitted with
  | straight _ hpiece => exact hpiece.keeps
  | exportDecl _ hexports ih => exact Keeps.trans ih hexports.keeps
  | ifStatement hcondition _ _ ihthen ihelse =>
      have hthen := hcondition.keeps.trans (Keeps.restores ihthen |>.around ⟨rfl, rfl⟩ ⟨rfl, rfl⟩)
      exact hthen.trans (Keeps.restores ihelse |>.around ⟨rfl, rfl⟩ ⟨rfl, rfl⟩)
  | loop _ _ hcondition ihbody ihupdate =>
      have hbody := Keeps.restores ihbody |>.around ⟨rfl, rfl⟩ ⟨rfl, rfl⟩
      have hupdate := hbody.trans (Keeps.restores ihupdate |>.around ⟨rfl, rfl⟩ ⟨rfl, rfl⟩)
      exact hupdate.trans (hcondition.keeps.around ⟨rfl, rfl⟩ ⟨rfl, rfl⟩)
  | whileStatement _ ih => exact Keeps.around ih ⟨rfl, rfl⟩ ⟨rfl, rfl⟩
  | doWhileReturns _ _ ih => exact Keeps.restores ih |>.around ⟨rfl, rfl⟩ ⟨rfl, rfl⟩
  | doWhile _ _ _ ihfirst ihloop =>
      have hfirst := Keeps.restores ihfirst |>.around ⟨rfl, rfl⟩ ⟨rfl, rfl⟩
      have hloop := hfirst.trans (Keeps.around ihloop ⟨rfl, rfl⟩ ⟨rfl, rfl⟩)
      exact hloop.around ⟨rfl, rfl⟩ ⟨rfl, rfl⟩
  | forLoop _ _ ihinit ihloop =>
      exact Keeps.trans ihinit (Keeps.around ihloop ⟨rfl, rfl⟩ ⟨rfl, rfl⟩)
  | forEach hsource hprepare hiterator _ hstep hassign ihbody =>
      have hhead := (hsource.keeps.trans hprepare.keeps).trans hiterator.keeps
      have hbody := hhead.trans (Keeps.restores ihbody |>.around ⟨rfl, rfl⟩ ⟨rfl, rfl⟩)
      have hstepped := hbody.trans (hstep.keeps.around ⟨rfl, rfl⟩ ⟨rfl, rfl⟩)
      exact hstepped.trans (hassign.keeps.around ⟨rfl, rfl⟩ ⟨rfl, rfl⟩)
  | switchStatement hdiscriminant _ _ _ ihcases ihdefault ihchecks =>
      have hcases := hdiscriminant.keeps.trans (Keeps.around ihcases ⟨rfl, rfl⟩ ⟨rfl, rfl⟩)
      have hdefault := hcases.trans (Keeps.restores ihdefault |>.around ⟨rfl, rfl⟩ ⟨rfl, rfl⟩)
      exact hdefault.trans (Keeps.around ihchecks ⟨rfl, rfl⟩ ⟨rfl, rfl⟩)
  | casesCons _ _ ihbody ihrest =>
      have hbody := Keeps.restores ihbody |>.around ⟨rfl, rfl⟩ ⟨rfl, rfl⟩
      exact hbody.trans (Keeps.around ihrest ⟨rfl, rfl⟩ ⟨rfl, rfl⟩)
  | checksCons htest _ ihrest =>
      have htested := htest.keeps.around ⟨rfl, rfl⟩ ⟨rfl, rfl⟩
      have hrest := htested.trans (Keeps.around ihrest ⟨rfl, rfl⟩ ⟨rfl, rfl⟩)
      exact hrest.around ⟨rfl, rfl⟩ ⟨rfl, rfl⟩
  | labeledStatement _ _ _ ih => exact Keeps.around ih ⟨rfl, rfl⟩ ⟨rfl, rfl⟩
  | labeledBlock _ _ ih =>
      refine Keeps.restores ih |>.around ⟨rfl, rfl⟩ ?_
      simp
  | breakStatement _ hcleanups => exact hcleanups.keeps.around ⟨rfl, rfl⟩ ⟨rfl, rfl⟩
  | continueStatement _ _ hcleanups => exact hcleanups.keeps.around ⟨rfl, rfl⟩ ⟨rfl, rfl⟩
  | returnStatement hvalue htarget hcleanups =>
      have hcleaned := (hvalue.keeps.trans htarget.keeps).trans hcleanups.keeps
      exact hcleaned.around ⟨rfl, rfl⟩ ⟨rfl, rfl⟩
  | throwStatement hvalue hslot htarget hcleanups =>
      have hcleaned := ((hvalue.keeps.trans hslot.keeps).trans htarget.keeps).trans hcleanups.keeps
      exact hcleaned.around ⟨rfl, rfl⟩ ⟨rfl, rfl⟩
  | tryStatement _ _ hslot _ _ _ ihtry ihcatch ihfinally =>
      have hslotted : Keeps true _ _ := hslot.keeps
      have htry := hslotted.trans (Keeps.restores ihtry |>.around ⟨rfl, rfl⟩ ⟨rfl, rfl⟩)
      have hcatch := htry.trans (Keeps.restores ihcatch |>.around ⟨rfl, rfl⟩ ⟨rfl, rfl⟩)
      have hfinally := hcatch.trans (Keeps.restores ihfinally |>.around ⟨rfl, rfl⟩ ⟨rfl, rfl⟩)
      refine hfinally.around ⟨rfl, rfl⟩ ?_
      simp
  | caught hdeclare hbind _ ih =>
      have hbound := hdeclare.keeps.trans (hbind.keeps.around ⟨rfl, rfl⟩ ⟨rfl, rfl⟩)
      exact hbound.trans ih
  | absent => exact .of_eq ⟨rfl, rfl⟩
  | present _ ih => exact ih
  | inScope _ hleaves ih => exact hleaves.keeps (Keeps.restores ih)
  | statementsCons _ _ _ ihfirst ihrest => exact Keeps.trans ihfirst ihrest
  | casesNil | checksNil | optionalNone | statementsNil => exact .of_eq ⟨rfl, rfl⟩
  | block _ ih | forStatement _ ih => exact Keeps.restores ih
  | forInStatement _ ih | forOfStatement _ ih | unlabeled _ ih | uncaught _ ih
  | optionalSome _ ih => exact ih

end Keeps

/-! ## Inverting the emitter -/

section Inversion

variable {emitter emitted : StatementEmitter}

theorem takeLabels_takeLabels (emitter : StatementEmitter) (first second : Nat) :
    (emitter.takeLabels first).takeLabels second = emitter.takeLabels (first + second) := by
  simp [takeLabels, Nat.add_assoc]

theorem blockLabel_takeLabels (emitter : StatementEmitter) (stem : String) (count offset : Nat) :
    (emitter.takeLabels count).blockLabel stem offset = emitter.blockLabel stem (count + offset) := by
  simp [blockLabel, Nat.add_assoc]

theorem blockLabels_takeLabels (emitter : StatementEmitter) (stem : String)
    (taken offset count : Nat) :
    (emitter.takeLabels taken).blockLabels stem offset count =
      emitter.blockLabels stem (taken + offset) count := by
  simp only [blockLabels, blockLabel_takeLabels, Nat.add_assoc]

theorem nextBlockLabel_eq_ok {stem : String} {label : BlockLabel} :
    expr (nextBlockLabel stem) emitter = .ok (label, emitted) ↔
      emitter.blockLabel stem 0 = label ∧ emitter.takeLabels 1 = emitted := by
  simp [expr, nextBlockLabel, blockLabel, takeLabels]

variable {value : Unit}

theorem appendLines_eq_ok {lines : List Line} :
    expr (appendLines lines) emitter = .ok (value, emitted) ↔ emitter.append lines = emitted := by
  simp [expr, appendLines, append]

theorem modify_run {f : StatementEmitter → StatementEmitter} :
    (modify f : StmtM Unit) emitter = .ok (value, emitted) ↔ f emitter = emitted := by
  simp

/-! The rest of an action runs from the emitter that its first step leaves. -/

theorem nextBlockLabel_bind {α : Type} {stem : String} {next : BlockLabel → StmtM α}
    {result : α × StatementEmitter} :
    (expr (nextBlockLabel stem) >>= next) emitter = .ok result ↔
      next (emitter.blockLabel stem 0) (emitter.takeLabels 1) = .ok result := by
  simp [bind_eq_ok, nextBlockLabel_eq_ok]

theorem appendLines_bind {α : Type} {lines : List Line} {next : Unit → StmtM α}
    {result : α × StatementEmitter} :
    (expr (appendLines lines) >>= next) emitter = .ok result ↔
      next () (emitter.append lines) = .ok result := by
  simp [bind_eq_ok, appendLines_eq_ok, Unique.exists_iff]

theorem modify_bind {α : Type} {f : StatementEmitter → StatementEmitter} {next : Unit → StmtM α}
    {result : α × StatementEmitter} :
    (modify f >>= next) emitter = .ok result ↔ next () (f emitter) = .ok result := by
  simp [bind_eq_ok, Unique.exists_iff]

theorem append_append (emitter : StatementEmitter) (first second : List Line) :
    (emitter.append first).append second = emitter.append (first ++ second) := by
  simp [append]

theorem checkReachable_eq_ok :
    checkReachable emitter = .ok (value, emitted) ↔
      emitter.returned = false ∧ emitter = emitted := by
  unfold checkReachable
  rw [bind_eq_ok]
  cases hreturned : emitter.returned <;> simp [hreturned, pure_eq_ok]

theorem append_nil (emitter : StatementEmitter) : emitter.append [] = emitter := by
  rw [append, List.append_nil]

theorem withStructuredExit_eq_ok {α : Type} {kind : StructuredExitKind} {breakLabel : BlockLabel}
    {continueLabel : Option BlockLabel} {action : StmtM α} {value : α} :
    withStructuredExit kind breakLabel continueLabel action emitter = .ok (value, emitted) ↔
      ∃ inner, action (emitter.pushExit kind breakLabel continueLabel) = .ok (value, inner) ∧
        inner.popExit = emitted := by
  simp only [withStructuredExit, pushStructuredExit, popStructuredExit, bind_eq_ok, modify_eq_ok,
    pure_eq_ok, Prod.mk.injEq]
  constructor
  · rintro ⟨_, _, ⟨-, rfl⟩, result, inner, haction, _, _, ⟨-, rfl⟩, rfl, rfl⟩
    exact ⟨inner, haction, rfl⟩
  · rintro ⟨inner, haction, rfl⟩
    exact ⟨(), _, ⟨trivial, rfl⟩, value, inner, haction, (), _, ⟨trivial, rfl⟩, rfl, rfl⟩

theorem withPendingLabel_eq_ok {label : String} {action : StmtM Unit} :
    withPendingLabel label action emitter = .ok (value, emitted) ↔
      ∃ inner, action (emitter.pushLabel label) = .ok ((), inner) ∧ inner.popLabel = emitted := by
  simp only [withPendingLabel, bind_eq_ok, modify_eq_ok, Prod.mk.injEq]
  constructor
  · rintro ⟨_, _, ⟨-, rfl⟩, _, inner, haction, -, rfl⟩
    exact ⟨inner, haction, rfl⟩
  · rintro ⟨inner, haction, rfl⟩
    exact ⟨(), _, ⟨trivial, rfl⟩, (), inner, haction, trivial, rfl⟩

theorem withThrowHandler_eq_ok {α : Type} {handler : BlockLabel} {action : StmtM α} {value : α} :
    withThrowHandler handler action emitter = .ok (value, emitted) ↔
      ∃ inner, action (emitter.pushHandler handler) = .ok (value, inner) ∧
        inner.popHandler = emitted := by
  simp only [withThrowHandler, bind_eq_ok, modify_eq_ok, pure_eq_ok, Prod.mk.injEq]
  constructor
  · rintro ⟨_, _, ⟨-, rfl⟩, result, inner, haction, _, _, ⟨-, rfl⟩, rfl, rfl⟩
    exact ⟨inner, haction, rfl⟩
  · rintro ⟨inner, haction, rfl⟩
    exact ⟨(), _, ⟨trivial, rfl⟩, value, inner, haction, (), _, ⟨trivial, rfl⟩, rfl, rfl⟩

end Inversion

def Derives (node : Node) (action : StmtM Unit) : Prop :=
  ∀ emitter emitted, action emitter = .ok ((), emitted) →
    ∃ lines, Nonempty (Emitted node emitter lines emitted)

theorem emitScopedStatements_derives (haction : Derives node action) :
    Derives (.scoped node) (emitScopedStatements action) := by
  intro emitter emitted hrun
  obtain ⟨_, entered, henter, hrest⟩ := bind_eq_ok.mp hrun
  obtain ⟨_, inner, hinner, hleave⟩ := bind_eq_ok.mp hrest
  have hentered : emitter.entered = entered := by
    obtain ⟨_, pushed, hpush, hmodify⟩ := bind_eq_ok.mp henter
    obtain ⟨expressions, hscope, rfl⟩ := expr_eq_ok.mp hpush
    simp only [pushScope, modify_eq_ok, Prod.mk.injEq] at hscope
    obtain ⟨-, rfl⟩ := hscope
    exact modify_run.mp hmodify
  subst hentered
  obtain ⟨lines, ⟨hemitted⟩⟩ := haction _ _ hinner
  obtain ⟨fragment, hleaves⟩ := leaveLexicalScope_leaves hleave
  exact ⟨_, ⟨.inScope hemitted hleaves⟩⟩

theorem captureStatements_derives (haction : Derives node action)
    {emitter emitted : StatementEmitter}
    (hrun : captureStatements action emitter = .ok (captured, emitted)) :
    ∃ lines inner, ∃ _ : Emitted node emitter.cleared lines inner,
      inner.capture lines = captured ∧ emitter.resumed inner = emitted := by
  unfold captureStatements at hrun
  cases hinner : action (emitter.withTermination false .none "") with
  | error error => simp [hinner] at hrun
  | ok pair =>
      obtain ⟨value, inner⟩ := pair
      obtain ⟨lines, ⟨hemitted⟩⟩ := haction _ _ hinner
      have hbody : inner.body = emitter.body ++ lines := hemitted.body
      simp only [hinner, Except.ok.injEq, Prod.mk.injEq] at hrun
      obtain ⟨hcaptured, hemittedState⟩ := hrun
      refine ⟨lines, inner, hemitted, ?_, ?_⟩
      · rw [← hcaptured, hbody, List.drop_left]
        rfl
      · rw [← hemittedState, hbody, List.take_left]
        rfl

theorem captureScopedStatements_derives (haction : Derives node action)
    {emitter emitted : StatementEmitter}
    (hrun : captureScopedStatements action emitter = .ok (captured, emitted)) :
    ∃ lines inner, ∃ _ : Emitted (.scoped node) emitter.cleared lines inner,
      inner.capture lines = captured ∧ emitter.resumed inner = emitted :=
  captureStatements_derives (emitScopedStatements_derives haction) hrun

theorem captureExit_derives (haction : Derives node action) {kind : StructuredExitKind}
    {breakLabel : BlockLabel} {continueLabel : Option BlockLabel}
    {emitter emitted : StatementEmitter}
    (hrun : withStructuredExit kind breakLabel continueLabel (captureScopedStatements action)
      emitter = .ok (captured, emitted)) :
    ∃ lines inner, ∃ _ : Emitted (.scoped node)
        (emitter.pushExit kind breakLabel continueLabel).cleared lines inner,
      inner.capture lines = captured ∧
      ((emitter.pushExit kind breakLabel continueLabel).resumed inner).popExit = emitted := by
  obtain ⟨after, hcapture, rfl⟩ := withStructuredExit_eq_ok.mp hrun
  obtain ⟨lines, inner, hemitted, hcaptured, rfl⟩ :=
    captureScopedStatements_derives haction hcapture
  exact ⟨lines, inner, hemitted, hcaptured, rfl⟩

def Emitted.cast {node : Node} {emitter emitted final : StatementEmitter} {lines : List Line}
    (hemitted : Emitted node emitter lines emitted) (hfinal : emitted = final) :
    Emitted node emitter lines final :=
  hfinal ▸ hemitted

section Constructs

variable {emitter emitted : StatementEmitter}

theorem valuePiece {shape : Shape} {action : ExprM Operand} {value : Operand}
    (haction : ∀ available, EmitsValue available shape action)
    (hrun : expr action emitter = .ok (value, emitted)) :
    ∃ fragment, ValuePiece shape action emitter fragment value emitted :=
  (Appends.lift (haction emitter.slots)).piece hrun (locals_in_slots emitter)

variable {pos : SourcePos} {update : Option Statement} {condition : Option Expression}
    {stem label : String} {pattern : Option BindingPattern} {cases : List SwitchCase}

theorem emitIfStatement_derives {condition : Expression} {consequence alternative : List Statement}
    (hthen : Derives (.statements consequence) (emitStatements consequence))
    (helse : Derives (.statements alternative) (emitStatements alternative)) :
    Derives (.statement (.ifStatement pos condition consequence alternative))
      (emitIfStatement condition (emitStatements consequence) (emitStatements alternative)) := by
  intro emitter emitted hrun
  obtain ⟨value, tested, hcondition, hrun⟩ := bind_eq_ok.mp hrun
  rw [nextBlockLabel_bind, nextBlockLabel_bind, nextBlockLabel_bind] at hrun
  obtain ⟨_, _, hconsequence, hrun⟩ := bind_eq_ok.mp hrun
  obtain ⟨thenLines, afterThen, hthenEmitted, rfl, rfl⟩ :=
    captureScopedStatements_derives hthen hconsequence
  obtain ⟨_, _, halternative, hrun⟩ := bind_eq_ok.mp hrun
  obtain ⟨elseLines, afterElse, helseEmitted, rfl, rfl⟩ :=
    captureScopedStatements_derives helse halternative
  rw [appendLines_bind] at hrun
  obtain ⟨fragment, hpiece⟩ := valuePiece (emitCondition_emits condition) hcondition
  refine ⟨_, ⟨(Emitted.ifStatement hpiece hthenEmitted helseEmitted).cast ?_⟩⟩
  cases hreturns : afterThen.returned && afterElse.returned with
  | true =>
      rw [capture, capture, hreturns] at hrun
      obtain rfl := modify_run.mp hrun
      simp [ifLines, joined, append, capture, hreturns, ifLabels, blockLabel]
  | false =>
      rw [capture, capture, hreturns] at hrun
      obtain rfl := appendLines_eq_ok.mp hrun
      simp [ifLines, joined, append, capture, hreturns, ifLabels, blockLabel]

theorem expr_bind {α β : Type} (action : ExprM α) (next : α → ExprM β) :
    expr (action >>= next) = expr action >>= fun value => expr (next value) := by
  funext emitter
  unfold expr
  cases haction : action emitter.expressions with
  | error error => simp [bind, StateT.bind, Except.bind, haction]
  | ok pair => simp [bind, StateT.bind, Except.bind, haction]

theorem expr_pure {α : Type} (value : α) : expr (pure value) = (pure value : StmtM α) := rfl

theorem emitPrimitiveLoop_run {loop : PrimitiveLoop}
    (hrun : expr (emitPrimitiveLoop loop) emitter = .ok ((), emitted)) :
    ∃ value tested, expr (emitLoopCondition loop.condition)
        (emitter.append [.br loop.conditionLabel, .label loop.conditionLabel]) =
          .ok (value, tested) ∧
      tested.append (loopLines ⟨loop.conditionLabel, loop.bodyLabel, loop.continueLabel,
        loop.endLabel⟩ value loop.body loop.continueBody) = emitted := by
  simp only [emitPrimitiveLoop, expr_bind] at hrun
  rw [appendLines_bind] at hrun
  obtain ⟨value, tested, hcondition, hrun⟩ := bind_eq_ok.mp hrun
  rw [appendLines_bind, appendLines_bind] at hrun
  obtain rfl := appendLines_eq_ok.mp hrun
  refine ⟨value, tested, hcondition, ?_⟩
  simp only [append_append, loopLines, PrimitiveLoop.continueLines]

theorem emitUpdateStatement_derives
    (hupdate : Derives (.optional update) (emitOptionalStatement update))
    {captured : CapturedStatements}
    (hrun : captureOptional ((emitUpdateStatement update).map captureStatements) emitter =
      .ok (captured, emitted)) :
    ∃ lines inner, ∃ _ : Emitted (.optional update) emitter.cleared lines inner,
      inner.capture lines = captured ∧ emitter.resumed inner = emitted := by
  cases update with
  | none =>
      obtain ⟨rfl, rfl⟩ := by
        simpa only [captureOptional, emitUpdateStatement, Option.map_none, pure_eq_ok,
          Prod.mk.injEq] using hrun
      exact ⟨[], emitter.cleared, .optionalNone, rfl, rfl⟩
  | some statement =>
      have hstatement : Derives (.optional (some statement)) (do
          checkReachable
          emitStatement statement) := by
        intro start final hcheck
        obtain ⟨_, _, hcheck, hrest⟩ := bind_eq_ok.mp hcheck
        obtain rfl := (checkReachable_eq_ok.mp hcheck).2
        exact hupdate _ _ hrest
      exact captureStatements_derives hstatement hrun

theorem emitLoop_derives {labels : LoopLabels} {body : List Statement}
    (hbody : Derives (.statements body) (emitStatements body))
    (hupdate : Derives (.optional update) (emitOptionalStatement update)) :
    Derives (.loop labels condition update body) (do
      let body ← withStructuredExit .loop labels.endLabel (some labels.continueLabel)
        (captureScopedStatements (emitStatements body))
      let update ← captureOptional ((emitUpdateStatement update).map captureStatements)
      expr (emitPrimitiveLoop ⟨labels.conditionLabel, labels.bodyLabel, labels.continueLabel,
        labels.endLabel, condition, body, update⟩)) := by
  intro emitter emitted hrun
  obtain ⟨_, _, hcapture, hrun⟩ := bind_eq_ok.mp hrun
  obtain ⟨bodyLines, afterBody, hbodyEmitted, rfl, rfl⟩ := captureExit_derives hbody hcapture
  obtain ⟨_, _, hcapture', hrun⟩ := bind_eq_ok.mp hrun
  obtain ⟨updateLines, afterUpdate, hupdateEmitted, rfl, rfl⟩ :=
    emitUpdateStatement_derives hupdate hcapture'
  obtain ⟨value, tested, hcondition, rfl⟩ := emitPrimitiveLoop_run hrun
  obtain ⟨fragment, hpiece⟩ := valuePiece (emitLoopCondition_emits condition) hcondition
  exact ⟨_, ⟨.loop hbodyEmitted hupdateEmitted hpiece⟩⟩

theorem emitPlainLoop_derives {labels : LoopLabels} {body : List Statement}
    (hbody : Derives (.statements body) (emitStatements body)) :
    Derives (.loop labels condition none body) (do
      let body ← withStructuredExit .loop labels.endLabel (some labels.continueLabel)
        (captureScopedStatements (emitStatements body))
      expr (emitPrimitiveLoop ⟨labels.conditionLabel, labels.bodyLabel, labels.continueLabel,
        labels.endLabel, condition, body, .empty⟩)) :=
  emitLoop_derives hbody fun emitter emitted hrun => by
    obtain ⟨-, rfl⟩ := by simpa [emitOptionalStatement] using hrun
    exact ⟨[], ⟨.optionalNone⟩⟩

theorem emitWhileStatement_derives {condition : Expression} {body : List Statement}
    (hbody : Derives (.statements body) (emitStatements body)) :
    Derives (.statement (.whileStatement pos condition body))
      (emitWhileStatement condition (emitStatements body)) := by
  intro emitter emitted hrun
  rw [emitWhileStatement, nextBlockLabel_bind, nextBlockLabel_bind, nextBlockLabel_bind] at hrun
  have hloop : Derives (.loop (emitter.whileLabels "while") (some condition) none body) _ :=
    emitPlainLoop_derives hbody
  obtain ⟨lines, ⟨hemitted⟩⟩ := hloop _ _ hrun
  exact ⟨lines, ⟨.whileStatement hemitted⟩⟩

theorem reopened_eq (emitter : StatementEmitter) :
    emitter.reopened =
      if emitter.returned then { emitter with returned := false, termination := .none }
      else emitter := by
  obtain ⟨_, returned, _⟩ := emitter
  cases returned <;> rfl

theorem emitDoWhileStatement_derives {condition : Expression} {body : List Statement}
    (hbody : Derives (.statements body) (emitStatements body)) :
    Derives (.statement (.doWhileStatement pos body condition))
      (emitDoWhileStatement (emitStatements body) condition) := by
  intro emitter emitted hrun
  rw [emitDoWhileStatement, nextBlockLabel_bind, nextBlockLabel_bind, nextBlockLabel_bind] at hrun
  obtain ⟨_, _, hexit, hrun⟩ := bind_eq_ok.mp hrun
  obtain ⟨afterFirst, hfirst, rfl⟩ := withStructuredExit_eq_ok.mp hexit
  obtain ⟨firstLines, ⟨hfirstEmitted⟩⟩ := emitScopedStatements_derives hbody _ _ hfirst
  obtain ⟨_, _, hget, hrun⟩ := bind_eq_ok.mp hrun
  obtain ⟨rfl, rfl⟩ := by simpa only [get_eq_ok, Prod.mk.injEq] using hget
  by_cases hreturns : afterFirst.popExit.returned = true ∧
      afterFirst.popExit.termination = .return
  · rw [if_pos hreturns] at hrun
    obtain ⟨-, rfl⟩ := by simpa using hrun
    exact ⟨firstLines, ⟨.doWhileReturns hfirstEmitted hreturns⟩⟩
  · rw [if_neg hreturns] at hrun
    obtain ⟨_, _, hreopen, hrun⟩ := bind_eq_ok.mp hrun
    have hstate := (reopened_eq _).trans (modify_run.mp hreopen)
    have hloop : Derives (.loop (emitter.whileLabels "do.while") (some condition) none body) _ :=
      emitPlainLoop_derives hbody
    obtain ⟨lines, ⟨hemitted⟩⟩ := hloop _ _ hrun
    exact ⟨_, ⟨.doWhile hfirstEmitted hreturns (hstate ▸ hemitted)⟩⟩

theorem emitForStatement_derives {init : Option Statement} {body : List Statement}
    (hinit : Derives (.optional init) (emitOptionalStatement init))
    (hupdate : Derives (.optional update) (emitOptionalStatement update))
    (hbody : Derives (.statements body) (emitStatements body)) :
    Derives (.statement (.forStatement pos init condition update body))
      (emitForStatement (emitOptionalStatement init) condition (emitUpdateStatement update)
        (emitStatements body)) := by
  have hforLoop : Derives (.forLoop init condition update body)
      (emitForLoop (emitOptionalStatement init) condition (emitUpdateStatement update)
        (emitStatements body)) := by
    intro emitter emitted hrun
    obtain ⟨_, afterInit, hinitRun, hrun⟩ := bind_eq_ok.mp hrun
    obtain ⟨initLines, ⟨hinitEmitted⟩⟩ := hinit _ _ hinitRun
    rw [nextBlockLabel_bind, nextBlockLabel_bind, nextBlockLabel_bind, nextBlockLabel_bind] at hrun
    have hloop : Derives (.loop afterInit.forLabels condition update body) _ :=
      emitLoop_derives hbody hupdate
    obtain ⟨lines, ⟨hemitted⟩⟩ := hloop _ _ hrun
    exact ⟨_, ⟨.forLoop hinitEmitted hemitted⟩⟩
  intro emitter emitted hrun
  obtain ⟨lines, ⟨hemitted⟩⟩ := emitScopedStatements_derives hforLoop _ _ hrun
  exact ⟨lines, ⟨.forStatement hemitted⟩⟩

theorem In.slotsAnd {value : Operand} {names : List Name}
    (hnames : ∀ name ∈ value.names, name ∈ names) (emitter : StatementEmitter) :
    value.In (emitter.slotsAnd names) :=
  fun name hname => Or.inr (hnames name hname)

theorem emitForEachLoop_derives {iteratorSymbol : String} {target source : Expression}
    {body : List Statement} (hbody : Derives (.statements body) (emitStatements body)) :
    Derives (.forEach pos stem iteratorSymbol pattern target source body) (do
      let source ← expr (emitExpression source)
      emitForEachLoop pos stem iteratorSymbol source pattern target (emitStatements body)) := by
  intro emitter emitted hrun
  obtain ⟨sourceValue, sourced, hsource, hrun⟩ := bind_eq_ok.mp hrun
  obtain ⟨sourceCode, hsourcePiece⟩ := valuePiece (emitExpression_emits source) hsource
  obtain ⟨assignment, prepared, hprepare, hrun⟩ := bind_eq_ok.mp hrun
  obtain ⟨prepareCode, hpreparePiece⟩ := (prepareForEachTarget_appends pos pattern target).piece
    hprepare (locals_in_slotsAnd sourced sourceValue.names)
  obtain ⟨iterator, iterated, hiterator, hrun⟩ := bind_eq_ok.mp hrun
  have hsourceIn : sourceValue.In (prepared.slotsAnd (sourceValue.names ++ assignment.names)) :=
    In.slotsAnd (fun _ => List.mem_append_left _) prepared
  obtain ⟨iteratorCode, hiteratorPiece⟩ :=
    (Appends.lift (emitRuntimeUnaryValue_emits hsourceIn)).piece hiterator (locals_in_slotsAnd _ _)
  rw [nextBlockLabel_bind, nextBlockLabel_bind, nextBlockLabel_bind] at hrun
  obtain ⟨_, _, hcapture, hrun⟩ := bind_eq_ok.mp hrun
  obtain ⟨bodyLines, afterBody, hbodyEmitted, rfl, rfl⟩ := captureExit_derives hbody hcapture
  rw [appendLines_bind] at hrun
  obtain ⟨⟨next, done⟩, stepped, hstep, hrun⟩ := bind_eq_ok.mp hrun
  have hiteratorIn : iterator.In (iterated.slotsAnd (iterator.names ++ assignment.names)) :=
    In.slotsAnd (fun _ => List.mem_append_left _) iterated
  have hlocals : afterBody.expressions.locals = iterated.expressions.locals :=
    hbodyEmitted.keeps.1
  obtain ⟨stepCode, hstepPiece⟩ := (Appends.lift (emitIteratorStep_emits hiteratorIn)).piece
    hstep ((locals_in_slotsAnd iterated _).congr hlocals)
  rw [appendLines_bind] at hrun
  obtain ⟨_, assigned, hassign, hrun⟩ := bind_eq_ok.mp hrun
  have hnextIn : next.In (stepped.slotsAnd (next.names ++ assignment.names)) :=
    In.slotsAnd (fun _ => List.mem_append_left _) stepped
  have htargetReady :
      assignment.Ready pattern (stepped.slotsAnd (next.names ++ assignment.names)) :=
    ⟨hpreparePiece.gives.1.1, fun name hname => Or.inr (List.mem_append_right _ hname)⟩
  obtain ⟨assignCode, hassignPiece⟩ :=
    (Appends.lift (emitIteratorAssign_emits hnextIn htargetReady)).piece
      hassign ((locals_in_slotsAnd stepped _).congr rfl)
  rw [appendLines_bind] at hrun
  obtain rfl := appendLines_eq_ok.mp hrun
  refine ⟨_, ⟨(Emitted.forEach hsourcePiece hpreparePiece hiteratorPiece hbodyEmitted hstepPiece
    hassignPiece).cast ?_⟩⟩
  rw [append_append]
  rfl

theorem emitForInStatement_derives {kind : DeclarationKind} {target object : Expression}
    {body : List Statement} (hbody : Derives (.statements body) (emitStatements body)) :
    Derives (.statement (.forInStatement pos kind pattern target object body))
      (emitForInStatement pos pattern target object (emitStatements body)) := by
  intro emitter emitted hrun
  obtain ⟨lines, ⟨hemitted⟩⟩ := emitForEachLoop_derives hbody emitter emitted hrun
  exact ⟨lines, ⟨.forInStatement hemitted⟩⟩

theorem emitForOfStatement_derives {kind : DeclarationKind} {target iterable : Expression}
    {body : List Statement} {isAwait : Bool}
    (hbody : Derives (.statements body) (emitStatements body)) :
    Derives (.statement (.forOfStatement pos kind pattern target iterable body isAwait))
      (emitForOfStatement pos pattern target iterable isAwait (emitStatements body)) := by
  intro emitter emitted hrun
  cases isAwait with
  | true =>
      obtain ⟨_, _, hfail, -⟩ := bind_eq_ok.mp hrun
      exact absurd hfail fail_ne_ok
  | false =>
      obtain ⟨lines, ⟨hemitted⟩⟩ := emitForEachLoop_derives hbody emitter emitted hrun
      exact ⟨lines, ⟨.forOfStatement hemitted⟩⟩

theorem ensureReturnTarget_ensures {target : ReturnTarget}
    (hrun : ensureReturnTarget emitter = .ok (target, emitted)) :
    ∃ lines, EnsuresReturn emitter target lines emitted := by
  obtain ⟨_, _, hget, hrun⟩ := bind_eq_ok.mp hrun
  obtain ⟨rfl, rfl⟩ := by simpa only [get_eq_ok, Prod.mk.injEq] using hget
  cases htarget : emitter.returnTarget with
  | some existing =>
      rw [htarget] at hrun
      obtain ⟨rfl, rfl⟩ := by simpa only [pure_eq_ok, Prod.mk.injEq] using hrun
      exact ⟨_, .existing htarget⟩
  | none =>
      rw [htarget] at hrun
      obtain ⟨_, _, hslot, hrun⟩ := bind_eq_ok.mp hrun
      obtain ⟨_, hslot, rfl⟩ := expr_eq_ok.mp hslot
      obtain ⟨rfl, rfl⟩ := by
        simpa only [nextLocalSlot, Except.ok.injEq, Prod.mk.injEq] using hslot
      rw [nextBlockLabel_bind, modify_bind, appendLines_bind] at hrun
      obtain ⟨rfl, rfl⟩ := by simpa only [pure_eq_ok, Prod.mk.injEq] using hrun
      exact ⟨_, .fresh htarget⟩

theorem ensureThrowSlot_ensures {slot : LocalSlot}
    (hrun : ensureThrowSlot emitter = .ok (slot, emitted)) :
    ∃ lines, EnsuresThrowSlot emitter slot lines emitted := by
  obtain ⟨_, _, hget, hrun⟩ := bind_eq_ok.mp hrun
  obtain ⟨rfl, rfl⟩ := by simpa only [get_eq_ok, Prod.mk.injEq] using hget
  cases hslot : emitter.throwSlot with
  | some existing =>
      rw [hslot] at hrun
      obtain ⟨rfl, rfl⟩ := by simpa only [pure_eq_ok, Prod.mk.injEq] using hrun
      exact ⟨_, .existing hslot⟩
  | none =>
      rw [hslot] at hrun
      obtain ⟨_, _, hnext, hrun⟩ := bind_eq_ok.mp hrun
      obtain ⟨_, hnext, rfl⟩ := expr_eq_ok.mp hnext
      obtain ⟨rfl, rfl⟩ := by
        simpa only [nextLocalSlot, Except.ok.injEq, Prod.mk.injEq] using hnext
      rw [modify_bind, appendLines_bind] at hrun
      obtain ⟨rfl, rfl⟩ := by simpa only [pure_eq_ok, Prod.mk.injEq] using hrun
      exact ⟨_, .fresh hslot⟩

theorem findThrowTarget_finds {target : BlockLabel}
    (hrun : findThrowTarget emitter = .ok (target, emitted)) :
    FindsThrowTarget emitter target emitted := by
  obtain ⟨_, _, hget, hrun⟩ := bind_eq_ok.mp hrun
  obtain ⟨rfl, rfl⟩ := by simpa only [get_eq_ok, Prod.mk.injEq] using hget
  cases hhandlers : emitter.throwHandlers with
  | cons handler outer =>
      rw [hhandlers] at hrun
      obtain ⟨rfl, rfl⟩ := by simpa only [pure_eq_ok, Prod.mk.injEq] using hrun
      exact .handler hhandlers
  | nil =>
      rw [hhandlers] at hrun
      obtain ⟨_, _, hget, hrun⟩ := bind_eq_ok.mp hrun
      obtain ⟨rfl, rfl⟩ := by simpa only [get_eq_ok, Prod.mk.injEq] using hget
      cases hlabel : emitter.throwLabel with
      | some existing =>
          rw [hlabel] at hrun
          obtain ⟨rfl, rfl⟩ := by simpa only [pure_eq_ok, Prod.mk.injEq] using hrun
          exact .existing hhandlers hlabel
      | none =>
          rw [hlabel] at hrun
          rw [nextBlockLabel_bind, modify_bind] at hrun
          obtain ⟨rfl, rfl⟩ := by simpa only [pure_eq_ok, Prod.mk.injEq] using hrun
          exact .fresh hhandlers hlabel

theorem switchLabels_eq_ok {count : Nat} {labels : List BlockLabel} :
    expr (switchLabels stem count) emitter = .ok (labels, emitted) ↔
      emitter.blockLabels stem 0 count = labels ∧ emitter.takeLabels count = emitted := by
  induction count generalizing emitter emitted labels with
  | zero =>
      have hnone : expr (switchLabels stem 0) emitter = .ok ([], emitter) := rfl
      rw [hnone, Except.ok.injEq, Prod.mk.injEq]
      rfl
  | succ count ih =>
      simp only [switchLabels, expr_bind, bind_eq_ok, nextBlockLabel_eq_ok, ih]
      have hrange : emitter.blockLabels stem 0 (count + 1) =
          emitter.blockLabel stem 0 :: (emitter.takeLabels 1).blockLabels stem 0 count := by
        simp only [blockLabels, blockLabel_takeLabels, List.range_succ_eq_map, List.map_cons,
          List.map_map]
        refine congrArg _ (List.map_congr_left fun index _ => ?_)
        simp [Nat.add_comm]
      rw [hrange, Nat.add_comm count 1, ← takeLabels_takeLabels]
      constructor
      · rintro ⟨_, _, ⟨rfl, rfl⟩, _, _, ⟨rfl, rfl⟩, hpure⟩
        simpa only [expr_pure, pure_eq_ok, Prod.mk.injEq] using hpure
      · rintro ⟨rfl, rfl⟩
        exact ⟨_, _, ⟨rfl, rfl⟩, _, _, ⟨rfl, rfl⟩, rfl⟩

theorem captureSwitchCases_derives
    (hbodies : ∀ switchCase ∈ cases, ∀ test consequent, switchCase = ⟨test, consequent⟩ →
      Derives (.statements consequent) (emitStatements consequent))
    {captured : List CapturedSwitchCase}
    (hrun : captureSwitchCases cases emitter = .ok (captured, emitted)) :
    Nonempty (Emitted (.cases cases captured) emitter [] emitted) := by
  induction cases generalizing emitter captured with
  | nil =>
      obtain ⟨rfl, rfl⟩ := by simpa only [captureSwitchCases, pure_eq_ok, Prod.mk.injEq] using hrun
      exact ⟨.casesNil⟩
  | cons switchCase rest ih =>
      obtain ⟨test, consequent⟩ := switchCase
      obtain ⟨_, _, hcapture, hrun⟩ := bind_eq_ok.mp hrun
      obtain ⟨lines, inner, hemitted, rfl, rfl⟩ := captureScopedStatements_derives
        (hbodies _ List.mem_cons_self test consequent rfl) hcapture
      obtain ⟨restCaptured, _, hrest, hrun⟩ := bind_eq_ok.mp hrun
      obtain ⟨rfl, rfl⟩ := by simpa only [pure_eq_ok, Prod.mk.injEq] using hrun
      obtain ⟨hrestEmitted⟩ := ih (fun other hother =>
        hbodies other (List.mem_cons_of_mem _ hother)) hrest
      exact ⟨.casesCons hemitted hrestEmitted⟩

theorem emitSwitchCases_derives {discriminant : Operand} {defaultLabel : BlockLabel}
    {cases : List CapturedSwitchCase} {checkLabels caseLabels : List BlockLabel}
    (hchecks : checkLabels.length = cases.length) (hcases : caseLabels.length = cases.length)
    (hrun : expr (emitSwitchCases discriminant defaultLabel cases checkLabels caseLabels)
      emitter = .ok ((), emitted)) :
    ∃ lines, Nonempty (Emitted (.checks discriminant defaultLabel cases checkLabels caseLabels)
      emitter lines emitted) := by
  induction cases generalizing emitter checkLabels caseLabels with
  | nil =>
      obtain rfl := List.length_eq_zero_iff.mp hchecks
      obtain rfl := List.length_eq_zero_iff.mp hcases
      obtain ⟨_, hpure, rfl⟩ := expr_eq_ok.mp hrun
      simp only [emitSwitchCases, pure_eq_ok, Prod.mk.injEq] at hpure
      obtain ⟨-, rfl⟩ := hpure
      exact ⟨[], ⟨.checksNil⟩⟩
  | cons switchCase rest ih =>
      obtain _ | ⟨checkLabel, checkLabels⟩ := checkLabels
      · simp at hchecks
      obtain _ | ⟨caseLabel, caseLabels⟩ := caseLabels
      · simp at hcases
      simp only [emitSwitchCases, expr_bind] at hrun
      rw [appendLines_bind] at hrun
      obtain ⟨matched, tested, htest, hrun⟩ := bind_eq_ok.mp hrun
      rw [appendLines_bind, appendLines_bind] at hrun
      rw [append_append] at hrun
      obtain ⟨lines, ⟨hemitted⟩⟩ := ih (by simpa using hchecks) (by simpa using hcases) hrun
      have hdiscriminant : discriminant.In (emitter.slotsAnd discriminant.names) :=
        In.slotsAnd (fun _ hname => hname) emitter
      obtain ⟨fragment, hpiece⟩ :=
        (Appends.lift (emitCaseTest_emits hdiscriminant switchCase.test)).piece
          htest ((locals_in_slotsAnd emitter _).congr rfl)
      exact ⟨_, ⟨.checksCons hpiece hemitted⟩⟩

theorem Emitted.cases_length {captured : List CapturedSwitchCase} {lines : List Line}
    (hcases : Emitted (.cases cases captured) emitter lines emitted) :
    captured.length = cases.length := by
  generalize hnode : Node.cases cases captured = node at hcases
  induction hcases generalizing cases captured with
  | casesNil => obtain ⟨rfl, rfl⟩ := hnode; rfl
  | casesCons _ _ _ ih =>
      obtain ⟨rfl, rfl⟩ := hnode
      rw [List.length_cons, List.length_cons, ih rfl]
  | _ => simp at hnode

theorem emitSwitchStatement_derives {discriminant : Expression} {default : List Statement}
    (hbodies : ∀ switchCase ∈ cases, ∀ test consequent, switchCase = ⟨test, consequent⟩ →
      Derives (.statements consequent) (emitStatements consequent))
    (hdefault : Derives (.statements default) (emitStatements default)) :
    Derives (.statement (.switchStatement pos discriminant cases default))
      (emitSwitchStatement discriminant cases.length do
        let captured ← captureSwitchCases cases
        let defaultCase ← captureScopedStatements (emitStatements default)
        return (captured, defaultCase)) := by
  intro emitter emitted hrun
  obtain ⟨value, tested, hdiscriminant, hrun⟩ := bind_eq_ok.mp hrun
  obtain ⟨fragment, hpiece⟩ := valuePiece (emitExpression_emits discriminant) hdiscriminant
  rw [nextBlockLabel_bind, nextBlockLabel_bind] at hrun
  obtain ⟨_, _, hcheckLabels, hrun⟩ := bind_eq_ok.mp hrun
  obtain ⟨rfl, rfl⟩ := switchLabels_eq_ok.mp hcheckLabels
  obtain ⟨_, _, hcaseLabels, hrun⟩ := bind_eq_ok.mp hrun
  obtain ⟨rfl, rfl⟩ := switchLabels_eq_ok.mp hcaseLabels
  obtain ⟨_, _, hexit, hrun⟩ := bind_eq_ok.mp hrun
  obtain ⟨afterCaptures, hcaptures, rfl⟩ := withStructuredExit_eq_ok.mp hexit
  obtain ⟨captured, afterCases, hcases, hcaptures⟩ := bind_eq_ok.mp hcaptures
  obtain ⟨hcasesEmitted⟩ := captureSwitchCases_derives hbodies hcases
  obtain ⟨_, _, hdefaultRun, hcaptures⟩ := bind_eq_ok.mp hcaptures
  obtain ⟨defaultCode, afterDefault, hdefaultEmitted, rfl, rfl⟩ :=
    captureScopedStatements_derives hdefault hdefaultRun
  simp only [pure_eq_ok, Prod.mk.injEq] at hcaptures
  obtain ⟨rfl, rfl⟩ := hcaptures
  rw [appendLines_bind] at hrun
  obtain ⟨_, checked, hchecks, hrun⟩ := bind_eq_ok.mp hrun
  obtain rfl := appendLines_eq_ok.mp hrun
  have hlabels : ∀ (start : StatementEmitter) stem offset,
      (start.blockLabels stem offset cases.length).length = captured.length := by
    intro start stem offset
    rw [blockLabels, List.length_map, List.length_range, hcasesEmitted.cases_length]
  obtain ⟨checkCode, ⟨hchecksEmitted⟩⟩ :=
    emitSwitchCases_derives (hlabels _ _ _) (hlabels _ _ _) hchecks
  have htaken : (((tested.takeLabels 1).takeLabels 1).takeLabels cases.length).takeLabels
      cases.length = tested.takeLabels (2 + 2 * cases.length) := by
    simp only [takeLabels_takeLabels]
    congr 1
    omega
  have hcaseLabels : (((tested.takeLabels 1).takeLabels 1).takeLabels cases.length).blockLabels
      "switch.case" 0 cases.length = (tested.switchLabels cases.length).caseLabels := by
    simp only [takeLabels_takeLabels, blockLabels_takeLabels]
    rfl
  have hcheckLabels : ((tested.takeLabels 1).takeLabels 1).blockLabels "switch.check" 0
      cases.length = (tested.switchLabels cases.length).checkLabels := by
    simp only [takeLabels_takeLabels, blockLabels_takeLabels]
    rfl
  rw [htaken] at hcasesEmitted
  rw [hcheckLabels, hcaseLabels] at hchecksEmitted
  exact ⟨_, ⟨.switchStatement hpiece hcasesEmitted hdefaultEmitted hchecksEmitted⟩⟩

theorem emitLabeledBlock_derives {blockPos : SourcePos} {statements : List Statement}
    (hlabel : label ≠ "") (hbody : Derives (.statements statements) (emitStatements statements)) :
    Derives (.statement (.labeledStatement pos label (.block blockPos statements)))
      (emitLabeledBlock label (emitScopedStatements (emitStatements statements))) := by
  intro emitter emitted hrun
  rw [emitLabeledBlock, nextBlockLabel_bind] at hrun
  obtain ⟨_, _, hpending, hrun⟩ := bind_eq_ok.mp hrun
  obtain ⟨_, hexit, rfl⟩ := withPendingLabel_eq_ok.mp hpending
  obtain ⟨inner, hblock, rfl⟩ := withStructuredExit_eq_ok.mp hexit
  obtain ⟨lines, ⟨hemitted⟩⟩ := emitScopedStatements_derives hbody _ _ hblock
  obtain ⟨_, _, hget, hrun⟩ := bind_eq_ok.mp hrun
  obtain ⟨rfl, rfl⟩ := by simpa only [get_eq_ok, Prod.mk.injEq] using hget
  simp only [popLabel_returned, popExit_returned, popLabel_termination, popExit_termination,
    popLabel_terminationLabel, popExit_terminationLabel] at hrun
  refine ⟨_, ⟨(Emitted.labeledBlock hlabel hemitted).cast ?_⟩⟩
  by_cases hbreaks : inner.breaksTo label = true
  · have hcondition : inner.returned = true ∧ inner.termination = .break ∧
        inner.terminationLabel = label := by
      simpa [breaksTo, and_assoc] using hbreaks
    rw [if_pos hcondition] at hrun
    rw [modify_bind] at hrun
    obtain rfl := appendLines_eq_ok.mp hrun
    have hbreaks' : inner.popExit.popLabel.breaksTo label = true := hbreaks
    rw [labeledEnd, hbreaks, Bool.true_or, if_pos rfl, afterLabeled, if_pos hbreaks']
    rfl
  · have hcondition : ¬(inner.returned = true ∧ inner.termination = .break ∧
        inner.terminationLabel = label) := by
      simpa [breaksTo, and_assoc] using hbreaks
    have hbreaks' : ¬inner.popExit.popLabel.breaksTo label = true := hbreaks
    rw [if_neg hcondition] at hrun
    rw [labeledEnd, Bool.eq_false_iff.mpr hbreaks, Bool.false_or, afterLabeled, if_neg hbreaks']
    cases hreturned : inner.returned with
    | true =>
        rw [hreturned, if_neg (by simp)] at hrun
        obtain ⟨-, rfl⟩ := by simpa only [pure_eq_ok, Prod.mk.injEq] using hrun
        exact append_nil _
    | false =>
        rw [hreturned, if_pos rfl] at hrun
        obtain rfl := appendLines_eq_ok.mp hrun
        rfl

theorem optionalBlockLabel_eq_ok {present : Bool} {label : Option BlockLabel} :
    expr (optionalBlockLabel present stem) emitter = .ok (label, emitted) ↔
      (if present then some (emitter.blockLabel stem 0) else none) = label ∧
        emitter.takeLabels present.toNat = emitted := by
  cases present with
  | false =>
      have hrun : expr (optionalBlockLabel false stem) emitter = .ok (none, emitter) := rfl
      rw [hrun, Except.ok.injEq, Prod.mk.injEq]
      rfl
  | true =>
      have hrun : expr (optionalBlockLabel true stem) emitter =
          .ok (some (emitter.blockLabel stem 0), emitter.takeLabels 1) := rfl
      rw [hrun, Except.ok.injEq, Prod.mk.injEq]
      rfl

theorem captureOptional_derives {present : Bool} {node : Node} {action : StmtM Unit}
    {capture : Option (StmtM CapturedStatements)}
    (hpresent : capture = if present then some (captureScopedStatements action) else none)
    (haction : Derives node action) {captured : CapturedStatements}
    (hrun : captureOptional capture emitter = .ok (captured, emitted)) :
    ∃ lines inner, ∃ _ : Emitted (.part present (.scoped node)) emitter.cleared lines inner,
      inner.capture lines = captured ∧ emitter.resumed inner = emitted := by
  subst hpresent
  cases present with
  | false =>
      obtain ⟨rfl, rfl⟩ := by
        simpa only [captureOptional, Bool.false_eq_true, if_false, pure_eq_ok,
          Prod.mk.injEq] using hrun
      exact ⟨[], emitter.cleared, .absent, rfl, rfl⟩
  | true =>
      obtain ⟨lines, inner, hemitted, hcaptured, hstate⟩ :=
        captureScopedStatements_derives haction hrun
      exact ⟨lines, inner, .present hemitted, hcaptured, hstate⟩

theorem emitCaught_derives {slot : LocalSlot} {body : List Statement}
    (hbody : Derives (.statements body) (emitStatements body)) :
    Derives (.caught pos slot pattern body) (do
      emitCatchBinding pos slot pattern
      emitStatements body) := by
  intro emitter emitted hrun
  obtain ⟨_, bound, hbinding, hrun⟩ := bind_eq_ok.mp hrun
  obtain ⟨lines, ⟨hemitted⟩⟩ := hbody _ _ hrun
  cases pattern with
  | none =>
      obtain ⟨-, rfl⟩ := by simpa only [emitCatchBinding, pure_eq_ok, Prod.mk.injEq] using hbinding
      exact ⟨lines, ⟨.uncaught hemitted⟩⟩
  | some pattern =>
      obtain ⟨_, declared, hdeclare, hbinding⟩ := bind_eq_ok.mp hbinding
      have hundef : Operand.undef.In emitter.slots := .constant rfl
      obtain ⟨declareCode, hdeclarePiece⟩ :=
        (Appends.lift (declareBindingTargets_emits (some pattern) _ hundef)).piece hdeclare
          (locals_in_slots emitter)
      obtain ⟨_, _, hvalue, hbinding⟩ := bind_eq_ok.mp hbinding
      obtain ⟨_, hvalue, rfl⟩ := expr_eq_ok.mp hvalue
      obtain ⟨rfl, rfl⟩ := by
        simpa only [nextValueName, Except.ok.injEq, Prod.mk.injEq] using hvalue
      rw [appendLines_bind] at hbinding
      have hcaught : (Operand.named declared.expressions.valueIndex).In
          (declared.slotsAnd [.value declared.expressions.valueIndex]) :=
        In.slotsAnd (fun _ hname => hname) declared
      obtain ⟨bindCode, hbindPiece⟩ := (bindCaught_appends pos pattern hcaught).piece hbinding
        ((locals_in_slotsAnd declared _).congr rfl)
      exact ⟨_, ⟨.caught hdeclarePiece hbindPiece hemitted⟩⟩

theorem finishTry_eq_ok {returns : Bool} {endLabel : BlockLabel} {value : Unit} :
    finishTry returns endLabel emitter = .ok (value, emitted) ↔
      (emitter.afterTry returns).append (tryEnd returns endLabel) = emitted := by
  cases returns with
  | true =>
      rw [finishTry, if_pos rfl, modify_run, tryEnd, if_pos rfl, append_nil]
      rfl
  | false =>
      rw [finishTry, if_neg Bool.false_ne_true, appendLines_eq_ok]
      rfl

theorem emitTryStatement_derives {tryBody catchBody finallyBody : List Statement}
    {catchPattern : Option BindingPattern}
    (htry : Derives (.statements tryBody) (emitStatements tryBody))
    (hcatch : Derives (.statements catchBody) (emitStatements catchBody))
    (hfinally : Derives (.statements finallyBody) (emitStatements finallyBody)) :
    Derives (.statement (.tryStatement pos tryBody catchPattern catchBody finallyBody))
      (emitTryStatement (emitStatements tryBody)
        (if catchBody.isEmpty then none
        else some fun slot => captureCatchBody pos slot catchPattern (emitStatements catchBody))
        (if finallyBody.isEmpty then none else some (emitStatements finallyBody))) := by
  intro emitter emitted hrun
  have hcatchSome : (if catchBody.isEmpty then none
      else some fun slot => captureCatchBody pos slot catchPattern
        (emitStatements catchBody)).isSome = !catchBody.isEmpty := by
    cases catchBody.isEmpty <;> rfl
  have hfinallySome : (if finallyBody.isEmpty then none
      else some (emitStatements finallyBody)).isSome = !finallyBody.isEmpty := by
    cases finallyBody.isEmpty <;> rfl
  rw [emitTryStatement, hcatchSome, hfinallySome] at hrun
  obtain ⟨_, _, hcatchLabel, hrun⟩ := bind_eq_ok.mp hrun
  obtain ⟨rfl, rfl⟩ := optionalBlockLabel_eq_ok.mp hcatchLabel
  obtain ⟨_, _, hfinallyLabel, hrun⟩ := bind_eq_ok.mp hrun
  obtain ⟨rfl, rfl⟩ := optionalBlockLabel_eq_ok.mp hfinallyLabel
  rw [nextBlockLabel_bind] at hrun
  simp only [takeLabels_takeLabels, blockLabel_takeLabels, Nat.add_zero] at hrun
  have hcatchLabel : (if (!catchBody.isEmpty) = true then
      some (emitter.blockLabel "try.catch" 0) else none) =
      (emitter.tryLabels (!catchBody.isEmpty) (!finallyBody.isEmpty)).catchLabel := rfl
  have hfinallyLabel : (if (!finallyBody.isEmpty) = true then
      some (emitter.blockLabel "try.finally" (!catchBody.isEmpty).toNat) else none) =
      (emitter.tryLabels (!catchBody.isEmpty) (!finallyBody.isEmpty)).finallyLabel := rfl
  have hendLabel : emitter.blockLabel "try.end"
      ((!catchBody.isEmpty).toNat + (!finallyBody.isEmpty).toNat) =
      (emitter.tryLabels (!catchBody.isEmpty) (!finallyBody.isEmpty)).endLabel := rfl
  rw [hcatchLabel, hfinallyLabel, hendLabel] at hrun
  cases hthrowTarget : (emitter.tryLabels (!catchBody.isEmpty) (!finallyBody.isEmpty)).catchLabel.or
      (emitter.tryLabels (!catchBody.isEmpty) (!finallyBody.isEmpty)).finallyLabel with
  | none =>
      rw [hthrowTarget] at hrun
      exact absurd hrun fail_ne_ok
  | some throwTarget =>
      rw [hthrowTarget] at hrun
      obtain ⟨_, _, hbodies, hrun⟩ := bind_eq_ok.mp hrun
      obtain ⟨slot, slotted, hslot, hbodies⟩ := bind_eq_ok.mp hbodies
      obtain ⟨allocation, hensures⟩ := ensureThrowSlot_ensures hslot
      obtain ⟨_, _, hhandler, hbodies⟩ := bind_eq_ok.mp hbodies
      obtain ⟨_, htryRun, rfl⟩ := withThrowHandler_eq_ok.mp hhandler
      obtain ⟨tryCode, afterTry, htryEmitted, rfl, rfl⟩ :=
        captureScopedStatements_derives htry htryRun
      obtain ⟨_, _, hcatchRun, hbodies⟩ := bind_eq_ok.mp hbodies
      have hcatchPresent : Option.map (· slot) (if catchBody.isEmpty then none
          else some fun slot => captureCatchBody pos slot catchPattern
            (emitStatements catchBody)) =
          if (!catchBody.isEmpty) = true then
            some (captureCatchBody pos slot catchPattern (emitStatements catchBody))
          else none := by
        cases catchBody.isEmpty <;> rfl
      obtain ⟨catchCode, afterCatch, hcatchEmitted, rfl, rfl⟩ :=
        captureOptional_derives hcatchPresent (emitCaught_derives hcatch) hcatchRun
      obtain ⟨_, _, hfinallyRun, hbodies⟩ := bind_eq_ok.mp hbodies
      have hfinallyPresent : Option.map captureScopedStatements
          (if finallyBody.isEmpty then none else some (emitStatements finallyBody)) =
          if (!finallyBody.isEmpty) = true then
            some (captureScopedStatements (emitStatements finallyBody))
          else none := by
        cases finallyBody.isEmpty <;> rfl
      obtain ⟨finallyCode, afterFinally, hfinallyEmitted, rfl, rfl⟩ :=
        captureOptional_derives hfinallyPresent hfinally hfinallyRun
      obtain ⟨rfl, rfl⟩ := by simpa only [pure_eq_ok, Prod.mk.injEq] using hbodies
      rw [appendLines_bind] at hrun
      obtain rfl := finishTry_eq_ok.mp hrun
      exact ⟨_, ⟨.tryStatement rfl hthrowTarget hensures htryEmitted hcatchEmitted hfinallyEmitted⟩⟩

theorem cleanupPiece {boundary : Nat} {value : Unit}
    (hrun : emitCleanupsUntil boundary emitter = .ok (value, emitted)) :
    ∃ fragment, LinesPiece false emitter.slots .straight (emitCleanupsUntil boundary) emitter
      fragment emitted :=
  (emitCleanupsUntil_appends boundary).piece hrun (locals_in_slots emitter)

theorem emitBreak_derives :
    Derives (.statement (.breakStatement pos label)) (emitBreak label) := by
  intro emitter emitted hrun
  obtain ⟨_, _, hget, hrun⟩ := bind_eq_ok.mp hrun
  obtain ⟨rfl, rfl⟩ := by simpa only [get_eq_ok, Prod.mk.injEq] using hget
  cases hexit : emitter.exits.find? (·.breaks label) with
  | none =>
      rw [hexit] at hrun
      by_cases hlabel : label ≠ ""
      · simp only [if_pos hlabel] at hrun
        obtain ⟨_, _, hfail, -⟩ := bind_eq_ok.mp hrun
        exact absurd hfail fail_ne_ok
      · simp only [if_neg hlabel] at hrun
        exact absurd hrun fail_ne_ok
  | some exit =>
      rw [hexit] at hrun
      obtain ⟨_, cleaned, hcleanups, hrun⟩ := bind_eq_ok.mp hrun
      obtain ⟨fragment, hpiece⟩ := cleanupPiece hcleanups
      rw [appendLines_bind] at hrun
      obtain rfl := modify_run.mp hrun
      exact ⟨_, ⟨.breakStatement hexit hpiece⟩⟩

theorem emitContinue_derives :
    Derives (.statement (.continueStatement pos label)) (emitContinue label) := by
  intro emitter emitted hrun
  obtain ⟨_, _, hget, hrun⟩ := bind_eq_ok.mp hrun
  obtain ⟨rfl, rfl⟩ := by simpa only [get_eq_ok, Prod.mk.injEq] using hget
  have hfail : ∀ value final, (do
      if label ≠ "" then fail ("runtime continue has no enclosing loop label " ++ label)
      fail "runtime continue has no enclosing loop" : StmtM Unit) emitter ≠
        .ok (value, final) := by
    intro value final hrun
    by_cases hlabel : label ≠ ""
    · rw [if_pos hlabel] at hrun
      obtain ⟨_, _, hfail, -⟩ := bind_eq_ok.mp hrun
      exact absurd hfail fail_ne_ok
    · rw [if_neg hlabel] at hrun
      exact absurd hrun fail_ne_ok
  cases hexit : emitter.exits.find? (·.continues label) with
  | none =>
      rw [hexit] at hrun
      exact absurd hrun (hfail _ _)
  | some exit =>
      rw [hexit, Option.bind_some] at hrun
      cases htarget : exit.continueLabel with
      | none =>
          rw [htarget] at hrun
          exact absurd hrun (hfail _ _)
      | some target =>
          rw [htarget, Option.map_some] at hrun
          obtain ⟨_, cleaned, hcleanups, hrun⟩ := bind_eq_ok.mp hrun
          obtain ⟨fragment, hpiece⟩ := cleanupPiece hcleanups
          rw [appendLines_bind] at hrun
          obtain rfl := modify_run.mp hrun
          exact ⟨_, ⟨.continueStatement hexit htarget hpiece⟩⟩

theorem emitReturnStatement_derives {value : Option Expression} :
    Derives (.statement (.returnStatement pos value))
      (emitReturnStatement (emitOptionalValue value)) := by
  intro emitter emitted hrun
  obtain ⟨result, valued, hvalue, hrun⟩ := bind_eq_ok.mp hrun
  obtain ⟨fragment, hpiece⟩ := valuePiece (emitOptionalValue_emits value) hvalue
  obtain ⟨target, targeted, htarget, hrun⟩ := bind_eq_ok.mp hrun
  obtain ⟨allocation, hensures⟩ := ensureReturnTarget_ensures htarget
  obtain ⟨_, cleaned, hcleanups, hrun⟩ := bind_eq_ok.mp hrun
  obtain ⟨cleanups, hcleanupPiece⟩ := cleanupPiece hcleanups
  rw [appendLines_bind] at hrun
  obtain rfl := modify_run.mp hrun
  exact ⟨_, ⟨.returnStatement hpiece hensures hcleanupPiece⟩⟩

theorem emitThrowStatement_derives {value : Expression} :
    Derives (.statement (.throwStatement pos value))
      (emitThrowStatement (emitExpression value)) := by
  intro emitter emitted hrun
  obtain ⟨thrown, valued, hvalue, hrun⟩ := bind_eq_ok.mp hrun
  obtain ⟨fragment, hpiece⟩ := valuePiece (emitExpression_emits value) hvalue
  obtain ⟨slot, slotted, hslot, hrun⟩ := bind_eq_ok.mp hrun
  obtain ⟨allocation, hensures⟩ := ensureThrowSlot_ensures hslot
  obtain ⟨target, targeted, htarget, hrun⟩ := bind_eq_ok.mp hrun
  obtain ⟨_, cleaned, hcleanups, hrun⟩ := bind_eq_ok.mp hrun
  obtain ⟨cleanups, hcleanupPiece⟩ := cleanupPiece hcleanups
  rw [appendLines_bind] at hrun
  obtain rfl := modify_run.mp hrun
  exact ⟨_, ⟨.throwStatement hpiece hensures (findThrowTarget_finds htarget) hcleanupPiece⟩⟩

theorem straight_derives {statement : Statement} (hstraight : isStraight statement = true) :
    Derives (.statement statement) (emitStatement statement) := by
  intro emitter emitted hrun
  obtain ⟨fragment, hpiece⟩ :=
    (emitStatement_appends hstraight).piece hrun (locals_in_slots emitter)
  exact ⟨_, ⟨.straight hstraight hpiece⟩⟩

theorem emitExportDeclaration_derives {declaration : Option Statement} {value : Option Expression}
    {specifiers : List ExportSpecifier} {source : String} {isDefault all : Bool}
    {namespaceName : String}
    (hdeclaration : Derives (.optional declaration) (emitOptionalStatement declaration)) :
    Derives (.statement (.exportDecl pos declaration value specifiers source isDefault all
        namespaceName))
      (emitExportDeclaration (emitOptionalStatement declaration) declaration value specifiers
        source isDefault all namespaceName) := by
  intro emitter emitted hrun
  obtain ⟨_, declared, hdeclare, hexports⟩ := bind_eq_ok.mp hrun
  obtain ⟨lines, ⟨hemitted⟩⟩ := hdeclaration _ _ hdeclare
  obtain ⟨fragment, hpiece⟩ :=
    (Appends.lift emitExports_emits).piece hexports (locals_in_slots declared)
  exact ⟨_, ⟨.exportDecl hemitted hpiece⟩⟩

theorem Derives.withDiagnostic {node : Node} {action : StmtM Unit} (haction : Derives node action) :
    Derives node (withDiagnostic pos action) :=
  fun emitter emitted hrun => haction emitter emitted (withDiagnostic_eq_ok.mp hrun)

theorem emitLabeledStatement_derives {statement : Statement}
    (hstatement : Derives (.statement statement) (emitStatement statement))
    (hblock : ∀ blockPos statements, statement = .block blockPos statements →
      Derives (.statements statements) (emitStatements statements)) :
    Derives (.statement (.labeledStatement pos label statement))
      (emitStatement (.labeledStatement pos label statement)) := by
  have hunlabeled : label = "" → Derives (.statement (.labeledStatement pos label statement))
      (emitStatement statement) := by
    rintro rfl emitter emitted hrun
    obtain ⟨lines, ⟨hemitted⟩⟩ := hstatement _ _ hrun
    exact ⟨lines, ⟨.unlabeled hemitted⟩⟩
  by_cases hisBlock : ∃ blockPos statements, statement = .block blockPos statements
  · obtain ⟨blockPos, statements, rfl⟩ := hisBlock
    have hlabeled : label ≠ "" → Derives
        (.statement (.labeledStatement pos label (.block blockPos statements)))
        (emitLabeledBlock label (emitScopedStatements (emitStatements statements))) :=
      fun hlabel => emitLabeledBlock_derives hlabel (hblock blockPos statements rfl)
    rw [emitStatement]
    refine .withDiagnostic ?_
    split
    · exact hunlabeled ‹_›
    · exact hlabeled ‹_›
  · have hpending : label ≠ "" → Derives (.statement (.labeledStatement pos label statement))
        (withPendingLabel label (emitStatement statement)) := by
      intro hlabel emitter emitted hrun
      obtain ⟨inner, hinner, rfl⟩ := withPendingLabel_eq_ok.mp hrun
      obtain ⟨lines, ⟨hemitted⟩⟩ := hstatement _ _ hinner
      refine ⟨lines, ⟨.labeledStatement hlabel (fun blockPos statements heq => ?_) hemitted⟩⟩
      exact hisBlock ⟨blockPos, statements, heq⟩
    have hnot : ∀ blockPos statements, statement = .block blockPos statements → False :=
      fun blockPos statements heq => hisBlock ⟨blockPos, statements, heq⟩
    rw [emitStatement]
    · refine .withDiagnostic ?_
      split
      · exact hunlabeled ‹_›
      · exact hpending ‹_›
    · exact hnot

end Constructs

mutual

theorem emitStatement_derives : ∀ statement : Statement,
    Derives (.statement statement) (emitStatement statement)
  | .empty _ => straight_derives rfl
  | .variableDecl .. => straight_derives rfl
  | .functionDecl .. => straight_derives rfl
  | .classDecl .. => straight_derives rfl
  | .importDecl .. => straight_derives rfl
  | .assignment .. => straight_derives rfl
  | .expressionStatement .. => straight_derives rfl
  | .exportDecl _ declaration _ _ _ _ _ _ =>
      .withDiagnostic (emitExportDeclaration_derives (emitOptionalStatement_derives declaration))
  | .block _ statements => .withDiagnostic fun emitter emitted hrun => by
      obtain ⟨lines, ⟨hemitted⟩⟩ :=
        emitScopedStatements_derives (emitStatements_derives statements) emitter emitted hrun
      exact ⟨lines, ⟨.block hemitted⟩⟩
  | .ifStatement _ _ consequence alternative => .withDiagnostic <|
      emitIfStatement_derives (emitStatements_derives consequence)
        (emitStatements_derives alternative)
  | .whileStatement _ _ body => .withDiagnostic <|
      emitWhileStatement_derives (emitStatements_derives body)
  | .doWhileStatement _ body _ => .withDiagnostic <|
      emitDoWhileStatement_derives (emitStatements_derives body)
  | .forStatement _ init _ update body => .withDiagnostic <|
      emitForStatement_derives (emitOptionalStatement_derives init)
        (emitOptionalStatement_derives update) (emitStatements_derives body)
  | .forInStatement _ _ _ _ _ body => .withDiagnostic <|
      emitForInStatement_derives (emitStatements_derives body)
  | .forOfStatement _ _ _ _ _ body _ => .withDiagnostic <|
      emitForOfStatement_derives (emitStatements_derives body)
  | .switchStatement _ _ cases default => .withDiagnostic <|
      emitSwitchStatement_derives (emitCases_derives cases) (emitStatements_derives default)
  | .labeledStatement _ _ statement =>
      emitLabeledStatement_derives (emitStatement_derives statement)
        (labeledBlock_derives statement)
  | .breakStatement .. => .withDiagnostic emitBreak_derives
  | .continueStatement .. => .withDiagnostic emitContinue_derives
  | .returnStatement .. => .withDiagnostic emitReturnStatement_derives
  | .throwStatement .. => .withDiagnostic emitThrowStatement_derives
  | .tryStatement _ tryBody _ catchBody finallyBody => .withDiagnostic <|
      emitTryStatement_derives (emitStatements_derives tryBody) (emitStatements_derives catchBody)
        (emitStatements_derives finallyBody)
  | .debugger _ => .withDiagnostic fun _ _ hrun => absurd hrun fail_ne_ok

theorem emitStatements_derives : ∀ statements : List Statement,
    Derives (.statements statements) (emitStatements statements)
  | [] => fun _ _ hrun => by
      obtain ⟨-, rfl⟩ := by simpa only [emitStatements, pure_eq_ok, Prod.mk.injEq] using hrun
      exact ⟨[], ⟨.statementsNil⟩⟩
  | statement :: rest => fun _ _ hrun => by
      obtain ⟨_, _, hcheck, hrun⟩ := bind_eq_ok.mp hrun
      obtain ⟨hopen, rfl⟩ := checkReachable_eq_ok.mp hcheck
      obtain ⟨_, middle, hstatement, hrun⟩ := bind_eq_ok.mp hrun
      obtain ⟨lines, ⟨hemitted⟩⟩ := emitStatement_derives statement _ _ hstatement
      obtain ⟨restLines, ⟨hrest⟩⟩ := emitStatements_derives rest _ _ hrun
      exact ⟨_, ⟨.statementsCons hopen hemitted hrest⟩⟩

theorem emitOptionalStatement_derives : ∀ statement : Option Statement,
    Derives (.optional statement) (emitOptionalStatement statement)
  | none => fun _ _ hrun => by
      obtain ⟨-, rfl⟩ := by simpa only [emitOptionalStatement, pure_eq_ok, Prod.mk.injEq] using hrun
      exact ⟨[], ⟨.optionalNone⟩⟩
  | some statement => fun _ _ hrun => by
      obtain ⟨lines, ⟨hemitted⟩⟩ := emitStatement_derives statement _ _ hrun
      exact ⟨lines, ⟨.optionalSome hemitted⟩⟩

theorem emitCases_derives : ∀ cases : List SwitchCase,
    ∀ switchCase ∈ cases, ∀ test consequent, switchCase = ⟨test, consequent⟩ →
      Derives (.statements consequent) (emitStatements consequent)
  | [], _, hmem, _, _, _ => by simp at hmem
  | ⟨_, consequent⟩ :: rest, switchCase, hmem, test, other, heq => by
      rcases List.mem_cons.mp hmem with rfl | hmem
      · obtain ⟨rfl, rfl⟩ := SwitchCase.mk.inj heq
        exact emitStatements_derives consequent
      · exact emitCases_derives rest switchCase hmem test other heq

theorem labeledBlock_derives : ∀ (statement : Statement) (pos : SourcePos)
    (statements : List Statement), statement = .block pos statements →
      Derives (.statements statements) (emitStatements statements)
  | .block _ statements, _, _, heq => by
      obtain ⟨rfl, rfl⟩ := Statement.block.inj heq
      exact emitStatements_derives statements

end

end Jayess.Backend
