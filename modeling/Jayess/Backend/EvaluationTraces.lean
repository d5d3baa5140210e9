import Jayess.Backend.Evaluation

/-!
# Evaluating an argument again

Evaluations are determined by their branches and do something on every path; where the second
argument of some `apply` is evaluated again they do strictly more.
-/

namespace Jayess.Backend

open Flow (Traces)
open Flow.Traces (seq choice Deterministic Lengthens)

/-! ## What does not depend on the arguments of `apply` -/

section Same

theorem same_once {event : Event} : Lengthens true (once event) (once event) := .singleton _

theorem same_called {symbol : String} : Lengthens true (called symbol) (called symbol) :=
  .singleton _

theorem same_capturing (context : Context) (bindings : List String) :
    Lengthens true (context.capturing bindings) (context.capturing bindings) := by
  induction bindings with
  | nil => exact .singleton []
  | cons binding rest ih => exact ((ih.after same_called).after same_called).after same_once

theorem same_creatingFunction (context : Context) (pos : SourcePos) :
    Lengthens true (context.creatingFunction pos) (context.creatingFunction pos) := by
  unfold Context.creatingFunction
  split
  · exact ((same_capturing context _).before same_called).after same_called
  · exact same_called

theorem same_foldedUnary (operator : UnaryOperator) (right : Expression) :
    Lengthens true (foldedUnaryEvaluation operator right)
      (foldedUnaryEvaluation operator right) := by
  unfold foldedUnaryEvaluation
  split <;> exact same_called

theorem same_targetLoad (context : Context) (target : Expression) :
    Lengthens true (targetLoad context target) (targetLoad context target) := by
  unfold targetLoad
  split <;> exact same_once

theorem same_targetStore (context : Context) (target : Expression) :
    Lengthens true (targetStore context target) (targetStore context target) := by
  unfold targetStore
  split <;> exact same_once

theorem same_targetDelete (target : Expression) :
    Lengthens true (targetDelete target) (targetDelete target) := by
  unfold targetDelete
  split <;> exact same_once

theorem lengthens_decide {exact exact' : Bool} {first first' second second' : Traces Event}
    (hfirst : Lengthens exact first first') (hsecond : Lengthens exact' second second') :
    Lengthens (exact && exact') (choice (.decide true) (.decide false) first second)
      (choice (.decide true) (.decide false) first' second') :=
  hfirst.choice (by simp) hsecond

end Same

def Busy (traces : Traces Event) : Prop := ∀ trace ∈ traces, trace ≠ []

namespace Busy

variable {first second : Traces Event}

theorem once {event : Event} : Busy (once event) := by
  intro trace htrace
  rw [List.mem_singleton.mp htrace]
  exact List.cons_ne_nil event []

theorem called {symbol : String} : Busy (called symbol) := once

theorem before (hfirst : Busy first) : Busy (seq first second) := by
  intro trace htrace
  obtain ⟨early, hearly, late, -, rfl⟩ := Flow.Traces.mem_seq.mp htrace
  exact List.append_ne_nil_of_left_ne_nil (hfirst early hearly) late

theorem after (hsecond : Busy second) : Busy (seq first second) := by
  intro trace htrace
  obtain ⟨early, -, late, hlate, rfl⟩ := Flow.Traces.mem_seq.mp htrace
  exact List.append_ne_nil_of_right_ne_nil early (hsecond late hlate)

theorem foldedUnary (operator : UnaryOperator) (right : Expression) :
    Busy (foldedUnaryEvaluation operator right) := by
  unfold foldedUnaryEvaluation
  split <;> exact called

end Busy

theorem evaluations_busy (again : Bool) (context : Context) :
    ∀ expression : Expression, Busy (expression.evaluations again context)
  | .comma _ left right => (evaluations_busy again context left).before
  | .unary _ operator right => by
      cases operator with
      | void => exact Busy.called.after
      | delete =>
          rw [Expression.evaluations]
          split
          · refine Busy.after ?_
            unfold targetDelete
            split <;> exact .once
          · exact Busy.called.after
      | not => exact Busy.foldedUnary .not right
      | negate => exact Busy.foldedUnary .negate right
      | positive => exact Busy.foldedUnary .positive right
      | bitNot => exact Busy.foldedUnary .bitNot right
  | .update .. => Busy.after (Busy.after (Busy.called.before))
  | .typeof .. => Busy.called.after
  | .conditional .. | .nullishCoalesce .. | .logical .. => Busy.after Busy.called.before
  | .binary .. => .once
  | .comparison _ operator _ _ => by
      cases operator with
      | «in» => exact Busy.called.after.after
      | _ => exact .called
  | .instanceof .. | .index .. => Busy.called.after.after
  | .objectLiteral .. | .arrayLiteral .. => Busy.called.before
  | .member _ target property isPrivate optional => by
      rw [Expression.evaluations]
      split
      · exact .called
      · exact Busy.called.after.after
  | .call _ callee arguments => by
      rw [Expression.evaluations]
      split
      · exact Busy.called.after
      · exact Busy.once.before
  | .invoke _ callee arguments _ => by
      rw [Expression.evaluations.eq_def]
      dsimp only
      split
      · exact Busy.called.before
      · split
        · exact Busy.called.after
        · split
          · exact Busy.called.after
          · refine Busy.after ?_
            split
            · exact Busy.called.after
            · exact Busy.called.after
            · exact Busy.called.after.after
            · exact Busy.called.before
      · exact Busy.after Busy.called.before
  | .newExpression .. => Busy.after Busy.called.before
  | .thisExpression _ | .superExpression _ | .newTarget _ => .called
  | .functionExpression pos .. => by
      rw [Expression.evaluations, Context.creatingFunction]
      split
      · exact Busy.called.before
      · exact .called
  | .identifier .. => .once
  | .spread .. => Busy.once.after
  | .numberLiteral .. | .bigIntLiteral .. | .stringLiteral .. | .templateLiteral ..
  | .booleanLiteral .. | .nullLiteral _ | .undefinedLiteral _ | .importMeta _ | .await ..
  | .yield .. => .once

theorem lookupMember_eq_none {table : List (String × List (String × String))} {member : String}
    (htable : ∀ entry ∈ table, entry.2.lookup member = none) (key : String) :
    lookupMember table key member = none := by
  induction table with
  | nil => rfl
  | cons entry rest ih =>
      rw [lookupMember, List.lookup_cons]
      split
      · exact htable entry (by simp)
      · exact ih fun other hother => htable other (by simp [hother])

variable {target : Expression} {isPrivate optional : Bool} {property : String}

theorem stdlibMemberModule_appliesOnce {emitter : ExpressionEmitter} {moduleName : String}
    (hmodule : stdlibMemberModule emitter target isPrivate optional = some moduleName) :
    target.appliesOnce = true := by
  cases target with
  | identifier pos name => rfl
  | _ => simp [stdlibMemberModule] at hmodule

theorem stdlibPropertySymbol_appliesOnce {emitter : ExpressionEmitter} {symbol : String}
    (hsymbol : stdlibPropertySymbol emitter target property isPrivate optional = some symbol) :
    target.appliesOnce = true := by
  obtain ⟨moduleName, hmodule, -⟩ := Option.bind_eq_some_iff.mp hsymbol
  exact stdlibMemberModule_appliesOnce hmodule

theorem stdlibMemberInvokeSymbol_appliesOnce {emitter : ExpressionEmitter} {symbol : String}
    (hsymbol : stdlibMemberInvokeSymbol emitter target property isPrivate optional = some symbol) :
    target.appliesOnce = true ∧ property ≠ "apply" := by
  obtain ⟨moduleName, hmodule, hlookup⟩ := Option.bind_eq_some_iff.mp hsymbol
  refine ⟨stdlibMemberModule_appliesOnce hmodule, ?_⟩
  rintro rfl
  have hnone : lookupMember stdlibRuntimeSymbols moduleName "apply" = none :=
    lookupMember_eq_none (by decide) moduleName
  rw [hnone] at hlookup
  exact absurd hlookup (by simp)

theorem processStreamSymbol_appliesOnce {symbol : String}
    (hsymbol : processStreamSymbol target property = some symbol) :
    target.appliesOnce = true ∧ property ≠ "apply" := by
  unfold processStreamSymbol at hsymbol
  split at hsymbol
  · refine ⟨rfl, ?_⟩
    rintro rfl
    rw [lookupMember_eq_none (by decide)] at hsymbol
    exact absurd hsymbol (by simp)
  · simp at hsymbol

theorem appliesArguments_of_ne {pos : SourcePos} {arguments : List Expression}
    (hne : property ≠ "apply") :
    appliesArguments (.member pos target property isPrivate optional) arguments = false := by
  unfold appliesArguments
  split
  · rename_i hmember
    injection hmember with _ _ hproperty
    exact absurd hproperty hne
  · rfl

theorem appliesArguments_apply {pos : SourcePos} {arguments : List Expression} :
    appliesArguments (.member pos target "apply" isPrivate optional) arguments =
      decide (2 ≤ arguments.length) := by
  rcases arguments with _ | ⟨first, _ | ⟨second, rest⟩⟩ <;> simp [appliesArguments]

section Lengthens

variable (emitter : ExpressionEmitter)

mutual

theorem evaluations_lengthens : ∀ expression : Expression,
    Lengthens expression.appliesOnce (expression.evaluations false emitter.context)
      (expression.evaluations true emitter.context)
  | .comma _ left right => (evaluations_lengthens left).seq (evaluations_lengthens right)
  | .unary _ operator right => by
      cases operator with
      | void => exact (evaluations_lengthens right).before same_called
      | delete =>
          rw [Expression.evaluations, Expression.evaluations, Expression.appliesOnce]
          by_cases hdeletes : emitter.context.deletesProperty right
          · rw [if_pos hdeletes, if_pos hdeletes]
            refine Lengthens.before ?_ (same_targetDelete right)
            have htarget := targetEvaluations_lengthens right
            cases right with
            | member pos target property isPrivate optional => exact htarget
            | index pos target index optional => exact htarget
            | _ => simp [Context.deletesProperty] at hdeletes
          · rw [if_neg hdeletes, if_neg hdeletes]
            exact (evaluations_lengthens right).before same_called
      | not => exact same_foldedUnary .not right
      | negate => exact same_foldedUnary .negate right
      | positive => exact same_foldedUnary .positive right
      | bitNot => exact same_foldedUnary .bitNot right
  | .update _ operator target _ =>
      (targetEvaluations_lengthens target).before
        (((same_targetStore _ target).after same_called).after (same_targetLoad _ target))
  | .typeof _ value => (evaluations_lengthens value).before same_called
  | .conditional _ condition consequent alternative =>
      (evaluations_lengthens condition).seq
        ((lengthens_decide (evaluations_lengthens consequent)
          (evaluations_lengthens alternative)).after same_called)
  | .nullishCoalesce _ left right =>
      (evaluations_lengthens left).seq (by
        have hdecide := lengthens_decide (evaluations_lengthens right) (.singleton [])
        rw [Bool.and_true] at hdecide
        exact hdecide.after same_called)
  | .logical _ operator left right =>
      (evaluations_lengthens left).seq (by
        refine Lengthens.after ?_ same_called
        cases operator with
        | and =>
            have hdecide := lengthens_decide (evaluations_lengthens right) (.singleton [])
            rwa [Bool.and_true] at hdecide
        | or => exact lengthens_decide (.singleton []) (evaluations_lengthens right))
  | .binary .. => same_once
  | .comparison _ operator left right => by
      cases operator with
      | «in» =>
          exact (evaluations_lengthens left).seq ((evaluations_lengthens right).before same_called)
      | _ => exact same_called
  | .instanceof _ left right =>
      (evaluations_lengthens left).seq ((evaluations_lengthens right).before same_called)
  | .objectLiteral _ properties => (propertiesEvaluations_lengthens properties).after same_called
  | .arrayLiteral _ elements => (elementsEvaluations_lengthens elements).after same_called
  | .member _ target property isPrivate optional => by
      rw [Expression.evaluations, Expression.evaluations, Expression.appliesOnce]
      split
      · rename_i symbol hsymbol
        rw [stdlibPropertySymbol_appliesOnce hsymbol]
        exact same_called
      · exact (evaluations_lengthens target).before (same_called.after same_called)
  | .index _ target index _ =>
      (evaluations_lengthens target).seq ((evaluations_lengthens index).before same_called)
  | .call _ callee arguments => by
      rw [Expression.evaluations, Expression.evaluations, Expression.appliesOnce]
      split
      · exact (valuesEvaluations_lengthens arguments).before same_called
      · exact ((((argumentsEvaluations_lengthens arguments).before same_called).after
          same_called).after same_called).after same_once
  | .invoke _ callee arguments _ => by
      have hcallee := evaluations_lengthens callee
      have harguments := argumentsEvaluations_lengthens arguments
      have hvalues := valuesEvaluations_lengthens arguments
      cases callee with
      | superExpression pos =>
          exact ((harguments.before same_called).after same_called).after same_called
      | member pos target property isPrivate optional =>
          rw [Expression.evaluations.eq_def, Expression.evaluations.eq_def, Expression.appliesOnce]
          dsimp only
          split
          · rename_i symbol hsymbol
            obtain ⟨honce, hne⟩ := processStreamSymbol_appliesOnce hsymbol
            rw [appliesArguments_of_ne hne, Expression.appliesOnce, honce]
            exact hvalues.before same_called
          · split
            · rename_i symbol hsymbol
              obtain ⟨honce, hne⟩ := stdlibMemberInvokeSymbol_appliesOnce hsymbol
              rw [appliesArguments_of_ne hne, Expression.appliesOnce, honce]
              exact hvalues.before same_called
            · have htarget := evaluations_lengthens target
              have hthis := thisAndRestEvaluations_lengthens arguments
              split
              · rw [appliesArguments_of_ne (by decide)]
                exact htarget.seq (hthis.before same_called)
              · rw [appliesArguments_of_ne (by decide)]
                exact htarget.seq (hthis.before same_called)
              · have happlied := appliedEvaluations_lengthens hthis arguments
                have hcall := htarget.seq
                  (happlied.before (@same_called "jayess_apply_function"))
                rw [Flow.Traces.seq_assoc, Flow.Traces.seq_assoc] at hcall
                rw [appliesArguments_apply, Bool.and_left_comm]
                exact hcall
              · rename_i happly
                rw [appliesArguments_of_ne happly]
                exact htarget.seq ((((harguments.before same_called).after same_called).after
                  same_called).after same_called)
      | _ => exact hcallee.seq (((harguments.before same_called).after same_called).after
          same_called)
  | .newExpression _ callee arguments =>
      (evaluations_lengthens callee).seq
        (((argumentsEvaluations_lengthens arguments).before same_called).after same_called)
  | .thisExpression _ | .superExpression _ | .newTarget _ => same_called
  | .functionExpression pos .. => same_creatingFunction _ pos
  | .identifier .. => same_once
  | .spread _ spread => (evaluations_lengthens spread).before same_once
  | .numberLiteral .. | .bigIntLiteral .. | .stringLiteral .. | .templateLiteral ..
  | .booleanLiteral .. | .nullLiteral _ | .undefinedLiteral _ | .importMeta _ | .await ..
  | .yield .. => same_once

theorem targetEvaluations_lengthens : ∀ target : Expression,
    Lengthens target.targetAppliesOnce (target.targetEvaluations false emitter.context)
      (target.targetEvaluations true emitter.context)
  | .identifier .. => .singleton []
  | .member _ target _ _ _ => (evaluations_lengthens target).before same_called
  | .index _ target index _ => (evaluations_lengthens target).seq (evaluations_lengthens index)
  | .comma .. | .unary .. | .update .. | .typeof .. | .conditional .. | .nullishCoalesce ..
  | .logical .. | .binary .. | .comparison .. | .instanceof .. | .objectLiteral ..
  | .arrayLiteral .. | .call .. | .invoke .. | .newExpression .. | .thisExpression _
  | .superExpression _ | .newTarget _ | .functionExpression .. | .spread .. | .numberLiteral ..
  | .bigIntLiteral .. | .stringLiteral .. | .templateLiteral .. | .booleanLiteral ..
  | .nullLiteral _ | .undefinedLiteral _ | .importMeta _ | .await .. | .yield .. => same_once

theorem argumentsEvaluations_lengthens : ∀ arguments : List Expression,
    Lengthens (argumentsApplyOnce arguments) (argumentsEvaluations false emitter.context arguments)
      (argumentsEvaluations true emitter.context arguments)
  | [] => .singleton []
  | argument :: rest => by
      have hrest := (argumentsEvaluations_lengthens rest)
      cases argument with
      | spread pos spread =>
          exact (evaluations_lengthens spread).seq (hrest.after same_called)
      | _ => exact (evaluations_lengthens _).seq (hrest.after same_called)

theorem thisAndRestEvaluations_lengthens : ∀ arguments : List Expression,
    Lengthens (argumentsApplyOnce arguments)
      (thisAndRestEvaluations false emitter.context arguments)
      (thisAndRestEvaluations true emitter.context arguments)
  | [] => same_called.after same_called
  | first :: rest =>
      (evaluations_lengthens first).seq ((argumentsEvaluations_lengthens rest).after same_called)

theorem appliedEvaluations_lengthens {reference traces : Traces Event} {exact : Bool}
    (hlengthens : Lengthens exact reference traces) : ∀ arguments : List Expression,
    Lengthens (!(2 ≤ arguments.length) && exact)
      (seq reference (appliedEvaluations false emitter.context arguments))
      (seq traces (appliedEvaluations true emitter.context arguments))
  | [] | [_] => hlengthens.before (.singleton [])
  | _ :: applied :: _ => by
      have happlied := evaluations_lengthens applied
      have hinsert := hlengthens.insert happlied.traces (evaluations_busy _ _ applied)
        (List.length_pos_iff.mp happlied.length_pos)
      simpa [appliedEvaluations] using hinsert

theorem valuesEvaluations_lengthens : ∀ arguments : List Expression,
    Lengthens (argumentsApplyOnce arguments) (valuesEvaluations false emitter.context arguments)
      (valuesEvaluations true emitter.context arguments)
  | [] => .singleton []
  | argument :: rest => (evaluations_lengthens argument).seq (valuesEvaluations_lengthens rest)

theorem elementsEvaluations_lengthens : ∀ elements : List (Option Expression),
    Lengthens (elementsApplyOnce elements) (elementsEvaluations false emitter.context elements)
      (elementsEvaluations true emitter.context elements)
  | [] => .singleton []
  | none :: rest => (elementsEvaluations_lengthens rest).after same_called
  | some element :: rest => by
      have hrest := elementsEvaluations_lengthens rest
      cases element with
      | spread pos spread =>
          exact (evaluations_lengthens spread).seq (hrest.after same_called)
      | _ => exact (evaluations_lengthens _).seq (hrest.after same_called)

theorem propertiesEvaluations_lengthens : ∀ properties : List ObjectProperty,
    Lengthens (propertiesApplyOnce properties)
      (propertiesEvaluations false emitter.context properties)
      (propertiesEvaluations true emitter.context properties)
  | [] => .singleton []
  | ⟨key, keyExpr, value, computed, spread⟩ :: rest => by
      have hvalue := evaluations_lengthens value
      have hrest := propertiesEvaluations_lengthens rest
      cases spread with
      | true =>
          cases keyExpr <;> cases computed <;> exact hvalue.seq (hrest.after same_called)
      | false =>
          cases keyExpr with
          | none =>
              cases computed <;>
                exact (hvalue.seq (hrest.after same_called)).after same_called
          | some keyExpr =>
              cases computed with
              | true =>
                  exact (evaluations_lengthens keyExpr).seq
                    (hvalue.seq (hrest.after same_called))
              | false => exact (hvalue.seq (hrest.after same_called)).after same_called

end

end Lengthens

end Jayess.Backend
