import Mathlib.Data.List.Basic

/-! # The abstract syntax of Jayess -/

namespace Jayess

/-- A position in the source; line and column are zero where the node carries none. -/
structure SourcePos where
  line : Nat
  column : Nat
deriving DecidableEq, Repr

inductive BinaryOperator where
  | add | sub | mul | pow | div | mod | bitAnd | bitOr | bitXor | shl | shr | ushr
deriving DecidableEq, Repr

inductive ComparisonOperator where
  | eq | ne | strictEq | strictNe | lt | lte | gt | gte | «in»
deriving DecidableEq, Repr

inductive LogicalOperator where
  | and | or
deriving DecidableEq, Repr

inductive UnaryOperator where
  | not | bitNot | negate | positive | void | delete
deriving DecidableEq, Repr

inductive UpdateOperator where
  | increment | decrement
deriving DecidableEq, Repr

inductive AssignmentOperator where
  | assign | addAssign | subAssign | mulAssign | powAssign | divAssign | modAssign
  | bitAndAssign | bitOrAssign | bitXorAssign | shlAssign | shrAssign | ushrAssign
  | nullishAssign | orAssign | andAssign
deriving DecidableEq, Repr

inductive DeclarationKind where
  | var | const
deriving DecidableEq, Repr

/-- The source text of an operator, which the diagnostics quote. -/
def BinaryOperator.text : BinaryOperator → String
  | add => "+" | sub => "-" | mul => "*" | pow => "**" | div => "/" | mod => "%"
  | bitAnd => "&" | bitOr => "|" | bitXor => "^" | shl => "<<" | shr => ">>" | ushr => ">>>"

def ComparisonOperator.text : ComparisonOperator → String
  | eq => "==" | ne => "!=" | strictEq => "===" | strictNe => "!==" | lt => "<" | lte => "<="
  | gt => ">" | gte => ">=" | «in» => "in"

def AssignmentOperator.text : AssignmentOperator → String
  | assign => "=" | addAssign => "+=" | subAssign => "-=" | mulAssign => "*=" | powAssign => "**="
  | divAssign => "/=" | modAssign => "%=" | bitAndAssign => "&=" | bitOrAssign => "|="
  | bitXorAssign => "^=" | shlAssign => "<<=" | shrAssign => ">>=" | ushrAssign => ">>>="
  | nullishAssign => "??=" | orAssign => "||=" | andAssign => "&&="

structure ImportSpecifier where
  imported : String
  localName : String
  isDefault : Bool
  isNamespace : Bool
deriving DecidableEq, Repr

structure ExportSpecifier where
  localName : String
  exported : String
deriving DecidableEq, Repr

mutual

inductive Expression where
  | identifier (pos : SourcePos) (name : String)
  | thisExpression (pos : SourcePos)
  | superExpression (pos : SourcePos)
  | numberLiteral (pos : SourcePos) (value : String)
  | bigIntLiteral (pos : SourcePos) (value : String)
  | stringLiteral (pos : SourcePos) (value : String)
  | templateLiteral (pos : SourcePos) (value : String) (expressions : List Expression)
  | booleanLiteral (pos : SourcePos) (value : Bool)
  | nullLiteral (pos : SourcePos)
  | undefinedLiteral (pos : SourcePos)
  | importMeta (pos : SourcePos)
  | newExpression (pos : SourcePos) (callee : Expression) (arguments : List Expression)
  | newTarget (pos : SourcePos)
  | binary (pos : SourcePos) (operator : BinaryOperator) (left right : Expression)
  | comparison (pos : SourcePos) (operator : ComparisonOperator) (left right : Expression)
  | logical (pos : SourcePos) (operator : LogicalOperator) (left right : Expression)
  | nullishCoalesce (pos : SourcePos) (left right : Expression)
  | conditional (pos : SourcePos) (condition consequent alternative : Expression)
  | comma (pos : SourcePos) (left right : Expression)
  | unary (pos : SourcePos) (operator : UnaryOperator) (right : Expression)
  | update (pos : SourcePos) (operator : UpdateOperator) (target : Expression) (isPrefix : Bool)
  | typeof (pos : SourcePos) (value : Expression)
  | await (pos : SourcePos) (value : Expression)
  | yield (pos : SourcePos) (value : Option Expression) (delegate : Bool)
  | instanceof (pos : SourcePos) (left right : Expression)
  | call (pos : SourcePos) (callee : String) (arguments : List Expression)
  | invoke (pos : SourcePos) (callee : Expression) (arguments : List Expression) (optional : Bool)
  | index (pos : SourcePos) (target index : Expression) (optional : Bool)
  | member (pos : SourcePos) (target : Expression) (property : String)
      (isPrivate optional : Bool)
  | objectLiteral (pos : SourcePos) (properties : List ObjectProperty)
  | arrayLiteral (pos : SourcePos) (elements : List (Option Expression))
  | spread (pos : SourcePos) (value : Expression)
  | functionExpression (pos : SourcePos) (name : String) (params : List Parameter)
      (body : List Statement) (expressionBody : Option Expression)

inductive ObjectProperty where
  | mk (key : String) (keyExpr : Option Expression) (value : Expression)
      (computed spread : Bool)

inductive BindingPattern where
  | name (name : String)
  | default (pattern : Option BindingPattern) (value : Expression)
  | rest (pattern : Option BindingPattern)
  | array (elements : List (Option BindingPattern))
  | object (properties : List ObjectBindingProperty)

inductive ObjectBindingProperty where
  | mk (key : String) (keyExpr : Option Expression) (pattern : Option BindingPattern)
      (computed rest : Bool)

inductive Parameter where
  | mk (name : String) (pattern : Option BindingPattern) (rest : Bool)
      (default : Option Expression)

inductive ClassMember where
  | mk (name : String) (keyExpr : Option Expression) (params : List Parameter)
      (body : List Statement) (value : Option Expression)
      (computed staticBlock isConstructor field getter setter isPrivate isStatic : Bool)

inductive SwitchCase where
  | mk (test : Expression) (consequent : List Statement)

inductive Statement where
  | empty (pos : SourcePos)
  | variableDecl (pos : SourcePos) (kind : DeclarationKind) (name : String)
      (pattern : Option BindingPattern) (value : Option Expression)
  | functionDecl (pos : SourcePos) (name : String) (params : List Parameter)
      (body : List Statement)
  | classDecl (pos : SourcePos) (name : String) (superClass : Option Expression)
      (members : List ClassMember)
  | importDecl (pos : SourcePos) (source : String) (specifiers : List ImportSpecifier)
      (sideEffect : Bool)
  | exportDecl (pos : SourcePos) (declaration : Option Statement) (value : Option Expression)
      (specifiers : List ExportSpecifier) (source : String) (isDefault all : Bool)
      (namespaceName : String)
  | assignment (pos : SourcePos) (target : Expression) (operator : AssignmentOperator)
      (value : Expression)
  | block (pos : SourcePos) (statements : List Statement)
  | ifStatement (pos : SourcePos) (condition : Expression)
      (consequence alternative : List Statement)
  | whileStatement (pos : SourcePos) (condition : Expression) (body : List Statement)
  | doWhileStatement (pos : SourcePos) (body : List Statement) (condition : Expression)
  | forStatement (pos : SourcePos) (init : Option Statement) (condition : Option Expression)
      (update : Option Statement) (body : List Statement)
  | forInStatement (pos : SourcePos) (kind : DeclarationKind) (pattern : Option BindingPattern)
      (target : Expression) (object : Expression) (body : List Statement)
  | forOfStatement (pos : SourcePos) (kind : DeclarationKind) (pattern : Option BindingPattern)
      (target : Expression) (iterable : Expression) (body : List Statement) (isAwait : Bool)
  | switchStatement (pos : SourcePos) (discriminant : Expression) (cases : List SwitchCase)
      (default : List Statement)
  | labeledStatement (pos : SourcePos) (label : String) (statement : Statement)
  | breakStatement (pos : SourcePos) (label : String)
  | continueStatement (pos : SourcePos) (label : String)
  | expressionStatement (pos : SourcePos) (expression : Expression)
  | returnStatement (pos : SourcePos) (value : Option Expression)
  | throwStatement (pos : SourcePos) (value : Expression)
  | tryStatement (pos : SourcePos) (tryBody : List Statement)
      (catchPattern : Option BindingPattern) (catchBody finallyBody : List Statement)
  | debugger (pos : SourcePos)

end

namespace Expression

/-- `ast.PositionOf` on an expression. -/
def pos : Expression → SourcePos
  | identifier pos .. | thisExpression pos | superExpression pos | numberLiteral pos ..
  | bigIntLiteral pos .. | stringLiteral pos .. | templateLiteral pos .. | booleanLiteral pos ..
  | nullLiteral pos | undefinedLiteral pos | importMeta pos | newExpression pos .. | newTarget pos
  | binary pos .. | comparison pos .. | logical pos .. | nullishCoalesce pos ..
  | conditional pos .. | comma pos .. | unary pos .. | update pos .. | typeof pos ..
  | await pos .. | yield pos .. | instanceof pos .. | call pos .. | invoke pos .. | index pos ..
  | member pos .. | objectLiteral pos .. | arrayLiteral pos .. | spread pos ..
  | functionExpression pos .. => pos

/-- The dynamic type Go prints for an expression with the verb `%T`. -/
def goType : Expression → String
  | identifier .. => "*ast.Identifier"
  | thisExpression .. => "*ast.ThisExpression"
  | superExpression .. => "*ast.SuperExpression"
  | numberLiteral .. => "*ast.NumberLiteral"
  | bigIntLiteral .. => "*ast.BigIntLiteral"
  | stringLiteral .. => "*ast.StringLiteral"
  | templateLiteral .. => "*ast.TemplateLiteral"
  | booleanLiteral .. => "*ast.BooleanLiteral"
  | nullLiteral .. => "*ast.NullLiteral"
  | undefinedLiteral .. => "*ast.UndefinedLiteral"
  | importMeta .. => "*ast.ImportMetaExpression"
  | newExpression .. => "*ast.NewExpression"
  | newTarget .. => "*ast.NewTargetExpression"
  | binary .. => "*ast.BinaryExpression"
  | comparison .. => "*ast.ComparisonExpression"
  | logical .. => "*ast.LogicalExpression"
  | nullishCoalesce .. => "*ast.NullishCoalesceExpression"
  | conditional .. => "*ast.ConditionalExpression"
  | comma .. => "*ast.CommaExpression"
  | unary .. => "*ast.UnaryExpression"
  | update .. => "*ast.UpdateExpression"
  | typeof .. => "*ast.TypeofExpression"
  | await .. => "*ast.AwaitExpression"
  | yield .. => "*ast.YieldExpression"
  | instanceof .. => "*ast.InstanceofExpression"
  | call .. => "*ast.CallExpression"
  | invoke .. => "*ast.InvokeExpression"
  | index .. => "*ast.IndexExpression"
  | member .. => "*ast.MemberExpression"
  | objectLiteral .. => "*ast.ObjectLiteral"
  | arrayLiteral .. => "*ast.ArrayLiteral"
  | spread .. => "*ast.SpreadExpression"
  | functionExpression .. => "*ast.FunctionExpression"

end Expression

/-- `ast.PositionOf` on a statement. -/
def Statement.pos : Statement → SourcePos
  | empty pos | variableDecl pos .. | functionDecl pos .. | classDecl pos .. | importDecl pos ..
  | exportDecl pos .. | assignment pos .. | block pos .. | ifStatement pos ..
  | whileStatement pos .. | doWhileStatement pos .. | forStatement pos .. | forInStatement pos ..
  | forOfStatement pos .. | switchStatement pos .. | labeledStatement pos ..
  | breakStatement pos .. | continueStatement pos .. | expressionStatement pos ..
  | returnStatement pos .. | throwStatement pos .. | tryStatement pos .. | debugger pos => pos

end Jayess
