import Jayess.Backend.ExpressionEmitter
import Jayess.Flow.Traces

/-!
# The order of evaluation

What JavaScript does to evaluate an expression, as the runtime sees it: the traces of the loads,
stores and runtime calls on each path, with the branches that are decided on the way.
-/

namespace Jayess.Backend

open Flow (Traces)
open Flow.Traces (seq choice)
open Lifetime (ClosureEnvironment)

/-- What an evaluation does next. `unsupported` stands for an expression that is refused. -/
inductive Event where
  | load (slot : LocalSlot)
  | store (slot : LocalSlot)
  | call (symbol : String)
  | decide (taken : Bool)
  | unsupported
deriving DecidableEq, Repr

structure StdlibTables where
  bindings : String → Option StdlibBinding
  namespaces : String → Option String

def ExpressionEmitter.stdlibTables (emitter : ExpressionEmitter) : StdlibTables :=
  ⟨emitter.stdlibBindings, emitter.stdlibNamespaces⟩

/-- What the names of an expression stand for where it is evaluated. -/
structure Context where
  slots : String → Option LocalSlot
  tables : StdlibTables
  callSymbol : String → Option String
  memberSymbol : Expression → String → Bool → Bool → Option String
  propertySymbol : Expression → String → Bool → Bool → Option String
  environment : SourcePos → Option ClosureEnvironment

def ExpressionEmitter.context (emitter : ExpressionEmitter) : Context where
  slots := emitter.locals
  tables := emitter.stdlibTables
  callSymbol := stdlibLocalCallSymbol emitter
  memberSymbol := stdlibMemberInvokeSymbol emitter
  propertySymbol := stdlibPropertySymbol emitter
  environment := closureEnvironmentFor emitter

def once (event : Event) : Traces Event := [[event]]

def called (symbol : String) : Traces Event := once (.call symbol)

namespace Context

variable (context : Context)

def loads (name : String) : Traces Event :=
  once (match context.slots name with
    | some slot => .load slot
    | none => .unsupported)

def stores (name : String) : Traces Event :=
  once (match context.slots name with
    | some slot => .store slot
    | none => .unsupported)

def capturing : List String → Traces Event
  | [] => [[]]
  | binding :: rest =>
      seq (context.loads binding) (seq (called "jayess_value_from_string_copy")
        (seq (called "jayess_closure_environment_set") (capturing rest)))

/-- A function expression reads what it captures. -/
def creatingFunction (pos : SourcePos) : Traces Event :=
  match context.environment pos with
  | some environment =>
      seq (called "jayess_closure_environment_new")
        (seq (context.capturing (environment.captures.map (·.binding)))
          (called "jayess_function_new_with_closure"))
  | none => called "jayess_function_new"

/-- Whether `delete` has a property to delete: not where the member is a read of a standard
module. -/
def deletesProperty : Expression → Bool
  | .member _ target property isPrivate optional =>
      (context.propertySymbol target property isPrivate optional).isNone ||
        (match target with
          | .identifier _ name => (context.slots name).isSome
          | _ => true)
  | .index .. => true
  | _ => false

end Context

def literalEvaluation (literal : Except EmitError RuntimeLiteral) : Traces Event :=
  once (match literal with
    | .ok literal => .call (runtimeLiteralSymbol literal)
    | .error _ => .unsupported)

def foldedUnaryEvaluation (operator : UnaryOperator) (right : Expression) : Traces Event :=
  match operator, right with
  | .not, _ => called "jayess_value_from_boolean"
  | .bitNot, _ | .negate, .bigIntLiteral .. => called "jayess_value_from_bigint_string"
  | _, _ => called "jayess_value_from_number"

def targetLoad (context : Context) : Expression → Traces Event
  | .identifier _ name => context.loads name
  | .member .. => called "jayess_value_get_property"
  | .index .. => called "jayess_value_get_index"
  | _ => once .unsupported

def targetStore (context : Context) : Expression → Traces Event
  | .identifier _ name => context.stores name
  | .member .. => called "jayess_value_set_property"
  | .index .. => called "jayess_value_set_index"
  | _ => once .unsupported

def targetDelete : Expression → Traces Event
  | .member .. => called "jayess_value_delete_property"
  | .index .. => called "jayess_value_delete_index"
  | _ => once .unsupported

end Jayess.Backend

namespace Jayess

open Backend
open Flow (Traces)
open Flow.Traces (seq choice)

mutual

/-- The traces of an expression: every operand once and from left to right, the arm that is decided
for and not the other. Where `again` holds the second argument of `apply` is evaluated once more
after all arguments, which JavaScript does not do. -/
def Expression.evaluations (again : Bool) (context : Context) : Expression → Traces Event
  | .comma _ left right => seq (left.evaluations again context) (right.evaluations again context)
  | .unary _ operator right =>
      match operator with
      | .void => seq (right.evaluations again context) (called "jayess_value_undefined")
      | .delete =>
          if context.deletesProperty right then
            seq (right.targetEvaluations again context) (targetDelete right)
          else seq (right.evaluations again context) (called "jayess_value_delete_value")
      | operator => foldedUnaryEvaluation operator right
  | .update _ operator target _ =>
      seq (target.targetEvaluations again context) (seq (targetLoad context target)
        (seq (called (updateSymbol operator)) (targetStore context target)))
  | .typeof _ value => seq (value.evaluations again context) (called "jayess_value_typeof")
  | .conditional _ condition consequent alternative =>
      seq (condition.evaluations again context) (seq (called "jayess_value_truthy")
        (choice (.decide true) (.decide false) (consequent.evaluations again context)
          (alternative.evaluations again context)))
  | .nullishCoalesce _ left right =>
      seq (left.evaluations again context) (seq (called "jayess_value_is_nullish")
        (choice (.decide true) (.decide false) (right.evaluations again context) [[]]))
  | .logical _ operator left right =>
      seq (left.evaluations again context) (seq (called "jayess_value_truthy")
        (match operator with
          | .and => choice (.decide true) (.decide false) (right.evaluations again context) [[]]
          | .or => choice (.decide true) (.decide false) [[]] (right.evaluations again context)))
  | .binary _ operator left right => literalEvaluation (foldBinary operator left right)
  | .comparison _ operator left right =>
      match operator with
      | .in => seq (left.evaluations again context) (seq (right.evaluations again context)
          (called "jayess_value_in"))
      | _ => called "jayess_value_from_boolean"
  | .instanceof _ left right =>
      seq (left.evaluations again context) (seq (right.evaluations again context)
        (called "jayess_value_instanceof"))
  | .objectLiteral _ properties =>
      seq (called "jayess_object_new") (propertiesEvaluations again context properties)
  | .arrayLiteral _ elements =>
      seq (called "jayess_array_new") (elementsEvaluations again context elements)
  | .member _ target property isPrivate optional =>
      match context.propertySymbol target property isPrivate optional with
      | some symbol => called symbol
      | none => seq (target.evaluations again context)
          (seq (called "jayess_value_from_string_copy") (called "jayess_value_get_property"))
  | .index _ target index _ =>
      seq (target.evaluations again context) (seq (index.evaluations again context)
        (called "jayess_value_get_index"))
  | .call _ callee arguments =>
      match context.callSymbol callee with
      | some symbol => seq (valuesEvaluations again context arguments) (called symbol)
      | none => seq (context.loads callee) (seq (called "jayess_value_undefined")
          (seq (called "jayess_array_new") (seq (argumentsEvaluations again context arguments)
            (called "jayess_call_function"))))
  | .invoke _ callee arguments _ =>
      match callee with
      | .superExpression _ =>
          seq (called "jayess_current_this") (seq (called "jayess_array_new")
            (seq (argumentsEvaluations again context arguments)
              (called "jayess_class_construct_super")))
      | .member _ target property isPrivate optional =>
          match processStreamSymbol target property with
          | some symbol => seq (valuesEvaluations again context arguments) (called symbol)
          | none =>
            match context.memberSymbol target property isPrivate optional with
            | some symbol => seq (valuesEvaluations again context arguments) (called symbol)
            | none =>
              seq (target.evaluations again context)
                (match property with
                  | "bind" => seq (thisAndRestEvaluations again context arguments)
                      (called "jayess_bind_function")
                  | "call" => seq (thisAndRestEvaluations again context arguments)
                      (called "jayess_call_function")
                  | "apply" => seq (thisAndRestEvaluations again context arguments)
                      (seq (appliedEvaluations again context arguments)
                        (called "jayess_apply_function"))
                  | _ => seq (called "jayess_value_from_string_copy")
                      (seq (called "jayess_value_get_property") (seq (called "jayess_array_new")
                        (seq (argumentsEvaluations again context arguments)
                          (called "jayess_call_function")))))
      | callee =>
          seq (callee.evaluations again context) (seq (called "jayess_value_undefined")
            (seq (called "jayess_array_new") (seq (argumentsEvaluations again context arguments)
              (called "jayess_call_function"))))
  | .newExpression _ callee arguments =>
      seq (callee.evaluations again context) (seq (called "jayess_array_new")
        (seq (argumentsEvaluations again context arguments) (called "jayess_class_construct")))
  | .thisExpression _ => called "jayess_current_this"
  | .superExpression _ | .newTarget _ => called "jayess_new_target"
  | .functionExpression pos .. => context.creatingFunction pos
  | .identifier _ name => context.loads name
  | .spread _ spread => seq (spread.evaluations again context) (once .unsupported)
  | expression => literalEvaluation (runtimeLiteralFromAST expression)

/-- The operands of a target, before it is read or written. -/
def Expression.targetEvaluations (again : Bool) (context : Context) : Expression → Traces Event
  | .identifier .. => [[]]
  | .member _ target _ _ _ =>
      seq (target.evaluations again context) (called "jayess_value_from_string_copy")
  | .index _ target index _ =>
      seq (target.evaluations again context) (index.evaluations again context)
  | _ => once .unsupported

/-- Arguments that are put into an array. -/
def argumentsEvaluations (again : Bool) (context : Context) : List Expression → Traces Event
  | [] => [[]]
  | .spread _ spread :: rest =>
      seq (spread.evaluations again context) (seq (called "jayess_array_spread")
        (argumentsEvaluations again context rest))
  | argument :: rest =>
      seq (argument.evaluations again context) (seq (called "jayess_array_push")
        (argumentsEvaluations again context rest))

/-- The first argument is the receiver of `bind`, `call` and `apply`. -/
def thisAndRestEvaluations (again : Bool) (context : Context) : List Expression → Traces Event
  | [] => seq (called "jayess_value_undefined") (called "jayess_array_new")
  | first :: arguments =>
      seq (first.evaluations again context) (seq (called "jayess_array_new")
        (argumentsEvaluations again context arguments))

def appliedEvaluations (again : Bool) (context : Context) : List Expression → Traces Event
  | _ :: applied :: _ => if again then applied.evaluations again context else [[]]
  | _ => [[]]

def valuesEvaluations (again : Bool) (context : Context) : List Expression → Traces Event
  | [] => [[]]
  | argument :: rest =>
      seq (argument.evaluations again context) (valuesEvaluations again context rest)

def elementsEvaluations (again : Bool) (context : Context) :
    List (Option Expression) → Traces Event
  | [] => [[]]
  | none :: rest => seq (called "jayess_array_elide") (elementsEvaluations again context rest)
  | some (.spread _ spread) :: rest =>
      seq (spread.evaluations again context) (seq (called "jayess_array_spread")
        (elementsEvaluations again context rest))
  | some element :: rest =>
      seq (element.evaluations again context) (seq (called "jayess_array_push")
        (elementsEvaluations again context rest))

def propertiesEvaluations (again : Bool) (context : Context) : List ObjectProperty → Traces Event
  | [] => [[]]
  | ⟨_, _, value, _, true⟩ :: rest =>
      seq (value.evaluations again context) (seq (called "jayess_object_spread")
        (propertiesEvaluations again context rest))
  | ⟨_, some keyExpr, value, true, false⟩ :: rest =>
      seq (keyExpr.evaluations again context) (seq (value.evaluations again context)
        (seq (called "jayess_value_set_property") (propertiesEvaluations again context rest)))
  | ⟨_, _, value, _, false⟩ :: rest =>
      seq (called "jayess_value_from_string_copy") (seq (value.evaluations again context)
        (seq (called "jayess_value_set_property") (propertiesEvaluations again context rest)))

end

def assignmentEvaluations (again : Bool) (context : Context) (target value : Expression) :
    Traces Event :=
  seq (target.targetEvaluations again context) (seq (value.evaluations again context)
    (targetStore context target))

def appliesArguments (callee : Expression) (arguments : List Expression) : Bool :=
  match callee, arguments with
  | .member _ _ "apply" _ _, _ :: _ :: _ => true
  | _, _ => false

mutual

/-- No sub-expression that is evaluated applies a function to more than its receiver. -/
def Expression.appliesOnce : Expression → Bool
  | .comma _ left right | .instanceof _ left right | .index _ left right _
  | .nullishCoalesce _ left right | .logical _ _ left right =>
      left.appliesOnce && right.appliesOnce
  | .unary _ operator right =>
      match operator with
      | .void | .delete => right.appliesOnce
      | _ => true
  | .update _ _ target _ => target.targetAppliesOnce
  | .typeof _ value | .member _ value _ _ _ | .spread _ value => value.appliesOnce
  | .conditional _ condition consequent alternative =>
      condition.appliesOnce && (consequent.appliesOnce && alternative.appliesOnce)
  | .comparison _ operator left right =>
      match operator with
      | .in => left.appliesOnce && right.appliesOnce
      | _ => true
  | .objectLiteral _ properties => propertiesApplyOnce properties
  | .arrayLiteral _ elements => elementsApplyOnce elements
  | .call _ _ arguments => argumentsApplyOnce arguments
  | .invoke _ callee arguments _ =>
      !appliesArguments callee arguments && (callee.appliesOnce && argumentsApplyOnce arguments)
  | .newExpression _ callee arguments => callee.appliesOnce && argumentsApplyOnce arguments
  | _ => true

def Expression.targetAppliesOnce : Expression → Bool
  | .member _ target _ _ _ => target.appliesOnce
  | .index _ target index _ => target.appliesOnce && index.appliesOnce
  | _ => true

def argumentsApplyOnce : List Expression → Bool
  | [] => true
  | argument :: rest => argument.appliesOnce && argumentsApplyOnce rest

def elementsApplyOnce : List (Option Expression) → Bool
  | [] => true
  | none :: rest => elementsApplyOnce rest
  | some element :: rest => element.appliesOnce && elementsApplyOnce rest

def propertiesApplyOnce : List ObjectProperty → Bool
  | [] => true
  | ⟨_, some keyExpr, value, true, false⟩ :: rest =>
      keyExpr.appliesOnce && (value.appliesOnce && propertiesApplyOnce rest)
  | ⟨_, _, value, _, _⟩ :: rest => value.appliesOnce && propertiesApplyOnce rest

end

end Jayess
