import Jayess.Ast

/-! # The shape of an expression -/

namespace Jayess.Backend

structure Shape where
  opensBlock : Bool
  straightArms : Bool
deriving DecidableEq, Repr

namespace Shape

def straight : Shape := ⟨false, true⟩

def append (first second : Shape) : Shape :=
  ⟨first.opensBlock || second.opensBlock, first.straightArms && second.straightArms⟩

def branch (onTrue onFalse : Shape) : Shape :=
  ⟨true, onTrue.straightArms && onFalse.straightArms && !onTrue.opensBlock &&
    !onFalse.opensBlock⟩

@[simp] theorem append_straight (shape : Shape) : shape.append straight = shape := by
  simp [append, straight]

@[simp] theorem straight_append (shape : Shape) : straight.append shape = shape := by
  simp [append, straight]

@[simp] theorem append_assoc (first second third : Shape) :
    (first.append second).append third = first.append (second.append third) := by
  simp [append, Bool.or_assoc, Bool.and_assoc]

theorem append_comm (first second : Shape) : first.append second = second.append first := by
  simp [append, Bool.or_comm, Bool.and_comm]

end Shape

end Jayess.Backend

namespace Jayess

open Backend (Shape)

mutual

/-- The shape of the code of an expression. Operators that are folded emit no operand. -/
def Expression.shape : Expression → Shape
  | .comma _ left right | .instanceof _ left right | .index _ left right _ =>
      left.shape.append right.shape
  | .unary _ operator right =>
      match operator with
      | .void | .delete => right.shape
      | _ => .straight
  | .update _ _ value _ | .typeof _ value | .member _ value _ _ _ | .spread _ value => value.shape
  | .conditional _ condition consequent alternative =>
      condition.shape.append (.branch consequent.shape alternative.shape)
  | .nullishCoalesce _ left right | .logical _ _ left right =>
      left.shape.append (.branch right.shape .straight)
  | .comparison _ operator left right =>
      match operator with
      | .in => left.shape.append right.shape
      | _ => .straight
  | .objectLiteral _ properties => propertiesShape properties
  | .arrayLiteral _ elements => elementsShape elements
  | .call _ _ arguments => argumentsShape arguments
  | .invoke _ callee arguments _ | .newExpression _ callee arguments =>
      callee.shape.append (argumentsShape arguments)
  | _ => .straight

def argumentsShape : List Expression → Shape
  | [] => .straight
  | argument :: rest => argument.shape.append (argumentsShape rest)

def elementsShape : List (Option Expression) → Shape
  | [] => .straight
  | none :: rest => elementsShape rest
  | some element :: rest => element.shape.append (elementsShape rest)

def propertiesShape : List ObjectProperty → Shape
  | [] => .straight
  | ⟨_, none, value, _, _⟩ :: rest => value.shape.append (propertiesShape rest)
  | ⟨_, some key, value, computed, spread⟩ :: rest =>
      (if computed && !spread then key.shape else .straight).append
        (value.shape.append (propertiesShape rest))

end

def optionShape : Option Expression → Shape
  | none => .straight
  | some expression => expression.shape

mutual

def patternShape : Option BindingPattern → Shape
  | none => .straight
  | some pattern => pattern.shape

def BindingPattern.shape : BindingPattern → Shape
  | .name _ => .straight
  | .default pattern value => value.shape.append (patternShape pattern)
  | .rest pattern => patternShape pattern
  | .array elements => elementPatternsShape elements
  | .object properties => propertyPatternsShape properties

def elementPatternsShape : List (Option BindingPattern) → Shape
  | [] => .straight
  | element :: rest => (patternShape element).append (elementPatternsShape rest)

def propertyPatternsShape : List ObjectBindingProperty → Shape
  | [] => .straight
  | ⟨_, keyExpr, pattern, computed, rest⟩ :: others =>
      (if computed && !rest then optionShape keyExpr else .straight).append
        ((patternShape pattern).append (propertyPatternsShape others))

end

def ClassMember.shape : ClassMember → Shape
  | ⟨_, keyExpr, _, _, value, computed, staticBlock, isConstructor, field, _, _, _, _⟩ =>
      if isConstructor || staticBlock then .straight
      else (if computed then optionShape keyExpr else .straight).append
        (if field then optionShape value else .straight)

def membersShape : List ClassMember → Shape
  | [] => .straight
  | member :: rest => member.shape.append (membersShape rest)

end Jayess
