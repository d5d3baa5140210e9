import Jayess.Backend.Evaluates
import Jayess.Backend.StatementSpec

/-!
# Evaluation in order

Every path through the code of an expression, or of an assignment, evaluates what JavaScript
evaluates, once and in its order, exactly where no function is applied to more than its receiver.
-/

namespace Jayess.Backend

open Flow (Traces Path labels)
open Flow.Traces (Lengthens)

/-- An expression, or an assignment over expressions. -/
inductive Evaluated where
  | expression (expression : Expression)
  | assignment (target : Expression) (operator : AssignmentOperator) (value : Expression)

namespace Evaluated

def emit : Evaluated → ExprM Unit
  | expression root => do
      let _ ← emitExpression root
  | assignment target operator value => emitAssignmentStatement target operator value

def evaluations (again : Bool) (context : Context) : Evaluated → Traces Event
  | expression root => root.evaluations again context
  | assignment target _ value => assignmentEvaluations again context target value

def appliesOnce : Evaluated → Bool
  | expression root => root.appliesOnce
  | assignment target _ value => target.targetAppliesOnce && value.appliesOnce

variable {emitter emitted : ExpressionEmitter}

theorem evaluations_lengthens (code : Evaluated) (emitter : ExpressionEmitter) :
    Lengthens code.appliesOnce (code.evaluations false emitter.context)
      (code.evaluations true emitter.context) := by
  cases code with
  | expression root => exact Backend.evaluations_lengthens emitter root
  | assignment target operator value =>
      exact (targetEvaluations_lengthens emitter target).seq
        ((Backend.evaluations_lengthens emitter value).before (same_targetStore _ target))

theorem emit_does (code : Evaluated) (context : Context) :
    Does context code.emit (code.evaluations true context) := by
  cases code with
  | expression root => exact (emitExpression_does context root).last fun _ _ => trivial
  | assignment target operator value =>
      refine .unless_fail fun _ => ?_
      refine (resolveAssignmentTarget_does context target).step fun resolved hresolved => ?_
      exact (emitExpression_does context value).step fun value _ => hresolved.store value

theorem emit_emits (code : Evaluated) :
    Emits false Set.univ code.emit fun _ _ => True := by
  cases code with
  | expression root =>
      have hroot := emitExpression_emits root Set.univ
      exact hroot.bind fun _ _ _ => .pure trivial
  | assignment target operator value =>
      exact emitAssignmentStatement_emits.mono fun _ _ _ => trivial

def appended (emitter emitted : ExpressionEmitter) : List Line :=
  emitted.body.drop emitter.body.length

/-- The paths through the appended lines are the traces with each applied argument evaluated
again. -/
theorem path_appended_iff {code : Evaluated} (hrun : code.emit emitter = .ok ((), emitted))
    (trace : List Event) :
    Path lineObservation (appended emitter emitted) (appended emitter emitted) trace [] ↔
      trace ∈ code.evaluations true emitter.context := by
  obtain ⟨-, -, fragment, hbody, hplain, htraces⟩ := code.emit_does _ _ _ _ rfl hrun
  obtain ⟨numbered, hemission, -⟩ :=
    code.emit_emits _ _ _ (fun _ _ _ => Set.mem_univ _) hrun
  have hlines : appended emitter emitted = fragment.lines := by
    rw [appended, hbody, List.drop_left]
  have hlines' : numbered.lines = fragment.lines :=
    List.append_cancel_left (hemission.body.symm.trans hbody)
  have hnodup : (labels fragment.lines).Nodup := hlines' ▸ hemission.numbered.labels_nodup
  rw [hlines, ← htraces]
  exact fragment.path_lines_iff hplain hnodup

/-- Every path through the appended lines evaluates what JavaScript evaluates on some path, once
and in its order, and no path of JavaScript is missing. -/
def EvaluatesInOrder (code : Evaluated) (emitter emitted : ExpressionEmitter) : Prop :=
  ∀ trace, Path lineObservation (appended emitter emitted) (appended emitter emitted) trace [] ↔
    trace ∈ code.evaluations false emitter.context

def emitterWith (names : List String) : ExpressionEmitter :=
  { newExpressionEmitter with
    slotIndex := names.length
    locals := fun name => (names.idxOf? name).map LocalSlot.mk }

/-- `f.apply(t, g())`. -/
def appliedCall : Evaluated :=
  .expression (.invoke ⟨1, 1⟩
    (.member ⟨1, 1⟩ (.identifier ⟨1, 1⟩ "f") "apply" false false)
    [.identifier ⟨1, 9⟩ "t", .call ⟨1, 12⟩ "g" []] false)

theorem exists_emitted (code : Evaluated) (emitter : ExpressionEmitter)
    (hok : (match code.emit emitter with | .ok _ => true | .error _ => false) = true) :
    ∃ emitted, code.emit emitter = .ok ((), emitted) := by
  obtain ⟨_, emitted, hrun, -⟩ := exists_ok_of_check (code.emit emitter) (fun _ => true) (by
    cases hresult : code.emit emitter with
    | error error => simp [hresult] at hok
    | ok result => rfl)
  exact ⟨emitted, hrun⟩

/-- `f.apply(t)`. -/
def appliedReceiver : Evaluated :=
  .expression (.invoke ⟨1, 1⟩
    (.member ⟨1, 1⟩ (.identifier ⟨1, 1⟩ "f") "apply" false false)
    [.identifier ⟨1, 9⟩ "t"] false)

end Evaluated

end Jayess.Backend
