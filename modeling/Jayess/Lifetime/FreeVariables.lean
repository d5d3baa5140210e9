import Jayess.Lifetime.Closures

/-!
# Free variables

The identifiers of a function expression over the whole grammar, with the scopes of the language: a
name is bound by a scope that declares it anywhere in its own statements.
-/

namespace Jayess.Lifetime

/-- The names a statement declares for the scope it stands in. -/
def declaredNames : Statement → List String
  | .variableDecl _ _ _ pattern _ => patternNames pattern
  | .functionDecl _ name _ _ | .classDecl _ name _ _ => [name]
  | .importDecl _ _ specifiers _ => specifiers.map ImportSpecifier.localName
  | .exportDecl _ (some declaration) _ _ _ _ _ _ | .labeledStatement _ _ declaration =>
      declaredNames declaration
  | _ => []

def scopeNames (statements : List Statement) : List String := statements.flatMap declaredNames

def bodyNames (name : String) (params : List Parameter) (body : List Statement) : List String :=
  (if name = "" then [] else [name]) ++ parameterNames params ++ scopeNames body

def optionNames : Option Statement → List String
  | none => []
  | some statement => declaredNames statement

/-- An identifier inside a function: whether the function or a scope in it binds the name, and whether
it stands where the collection of captured names looks. -/
structure Occurrence where
  name : String
  bound : Bool
  seen : Bool
deriving DecidableEq, Repr

def hide (occurrences : List Occurrence) : List Occurrence :=
  occurrences.map fun occurrence => { occurrence with seen := false }

mutual

def Expression.occurrences (bound : List String) : Expression → List Occurrence
  | .identifier _ name => [⟨name, bound.contains name, true⟩]
  | .binary _ _ left right | .logical _ _ left right =>
      Expression.occurrences bound left ++ Expression.occurrences bound right
  | .conditional _ condition consequent alternative =>
      Expression.occurrences bound condition ++ Expression.occurrences bound consequent ++
        Expression.occurrences bound alternative
  | .arrayLiteral _ elements => elementOccurrences bound elements
  | .objectLiteral _ properties => propertyOccurrences bound properties
  | .comparison _ _ left right | .nullishCoalesce _ left right | .comma _ left right
  | .instanceof _ left right | .index _ left right _ =>
      hide (Expression.occurrences bound left ++ Expression.occurrences bound right)
  | .unary _ _ value | .update _ _ value _ | .typeof _ value | .await _ value | .spread _ value
  | .member _ value _ _ _ => hide (Expression.occurrences bound value)
  | .yield _ value _ => hide (optionOccurrences bound value)
  | .templateLiteral _ _ expressions => hide (argumentOccurrences bound expressions)
  | .call _ callee arguments =>
      hide (⟨callee, bound.contains callee, false⟩ :: argumentOccurrences bound arguments)
  | .invoke _ callee arguments _ | .newExpression _ callee arguments =>
      hide (Expression.occurrences bound callee ++ argumentOccurrences bound arguments)
  | .functionExpression _ name params body expressionBody =>
      let bound := bodyNames name params body ++ bound
      hide (parameterOccurrences bound params ++ optionOccurrences bound expressionBody ++
        statementOccurrences bound body)
  | _ => []

def optionOccurrences (bound : List String) : Option Expression → List Occurrence
  | none => []
  | some value => Expression.occurrences bound value

def argumentOccurrences (bound : List String) : List Expression → List Occurrence
  | [] => []
  | argument :: rest => Expression.occurrences bound argument ++ argumentOccurrences bound rest

def elementOccurrences (bound : List String) : List (Option Expression) → List Occurrence
  | [] => []
  | element :: rest => optionOccurrences bound element ++ elementOccurrences bound rest

def propertyOccurrences (bound : List String) : List ObjectProperty → List Occurrence
  | [] => []
  | ⟨_, keyExpr, value, _, _⟩ :: rest =>
      hide (optionOccurrences bound keyExpr) ++ Expression.occurrences bound value ++
        propertyOccurrences bound rest

def patternOccurrences (bound : List String) : Option BindingPattern → List Occurrence
  | none => []
  | some pattern => BindingPattern.occurrences bound pattern

def BindingPattern.occurrences (bound : List String) : BindingPattern → List Occurrence
  | .name _ => []
  | .default pattern value =>
      Expression.occurrences bound value ++ patternOccurrences bound pattern
  | .rest pattern => patternOccurrences bound pattern
  | .array elements => elementPatternOccurrences bound elements
  | .object properties => propertyPatternOccurrences bound properties

def elementPatternOccurrences (bound : List String) :
    List (Option BindingPattern) → List Occurrence
  | [] => []
  | element :: rest => patternOccurrences bound element ++ elementPatternOccurrences bound rest

def propertyPatternOccurrences (bound : List String) : List ObjectBindingProperty → List Occurrence
  | [] => []
  | ⟨_, keyExpr, pattern, _, _⟩ :: rest =>
      optionOccurrences bound keyExpr ++ patternOccurrences bound pattern ++
        propertyPatternOccurrences bound rest

def parameterOccurrences (bound : List String) : List Parameter → List Occurrence
  | [] => []
  | ⟨_, pattern, _, default⟩ :: rest =>
      optionOccurrences bound default ++ patternOccurrences bound pattern ++
        parameterOccurrences bound rest

def memberOccurrences (bound : List String) : List ClassMember → List Occurrence
  | [] => []
  | ⟨_, keyExpr, params, body, value, _, _, _, _, _, _, _, _⟩ :: rest =>
      let inner := bodyNames "" params body ++ bound
      optionOccurrences bound keyExpr ++ optionOccurrences bound value ++
        parameterOccurrences inner params ++ statementOccurrences inner body ++
        memberOccurrences bound rest

def caseOccurrences (bound : List String) : List SwitchCase → List Occurrence
  | [] => []
  | ⟨test, consequent⟩ :: rest =>
      Expression.occurrences bound test ++
        statementOccurrences (scopeNames consequent ++ bound) consequent ++
        caseOccurrences bound rest

def statementOccurrences (bound : List String) : List Statement → List Occurrence
  | [] => []
  | statement :: rest => Statement.occurrences bound statement ++ statementOccurrences bound rest

def optionStatementOccurrences (bound : List String) : Option Statement → List Occurrence
  | none => []
  | some statement => Statement.occurrences bound statement

def Statement.occurrences (bound : List String) : Statement → List Occurrence
  | .variableDecl _ _ _ pattern value =>
      hide (patternOccurrences bound pattern) ++ optionOccurrences bound value
  | .expressionStatement _ expression => Expression.occurrences bound expression
  | .returnStatement _ value => optionOccurrences bound value
  | .assignment _ target _ value =>
      Expression.occurrences bound target ++ Expression.occurrences bound value
  | .block _ statements => statementOccurrences (scopeNames statements ++ bound) statements
  | .functionDecl _ _ params body =>
      let bound := bodyNames "" params body ++ bound
      hide (parameterOccurrences bound params ++ statementOccurrences bound body)
  | .classDecl _ _ superClass members =>
      hide (optionOccurrences bound superClass ++ memberOccurrences bound members)
  | .exportDecl _ declaration value _ _ _ _ _ =>
      hide (optionStatementOccurrences bound declaration ++ optionOccurrences bound value)
  | .ifStatement _ condition consequence alternative =>
      hide (Expression.occurrences bound condition ++
        statementOccurrences (scopeNames consequence ++ bound) consequence ++
        statementOccurrences (scopeNames alternative ++ bound) alternative)
  | .whileStatement _ condition body | .doWhileStatement _ body condition =>
      hide (Expression.occurrences bound condition ++
        statementOccurrences (scopeNames body ++ bound) body)
  | .forStatement _ init condition update body =>
      let bound := optionNames init ++ bound
      hide (optionStatementOccurrences bound init ++ optionOccurrences bound condition ++
        optionStatementOccurrences bound update ++
        statementOccurrences (scopeNames body ++ bound) body)
  | .forOfStatement _ _ pattern target source body _ | .forInStatement _ _ pattern target source body =>
      let inner := patternNames pattern ++ bound
      hide (Expression.occurrences bound source ++ patternOccurrences inner pattern ++
        (match pattern with
          | some _ => []
          | none => Expression.occurrences bound target) ++
        statementOccurrences (scopeNames body ++ inner) body)
  | .switchStatement _ discriminant cases default =>
      hide (Expression.occurrences bound discriminant ++ caseOccurrences bound cases ++
        statementOccurrences (scopeNames default ++ bound) default)
  | .labeledStatement _ _ statement => hide (Statement.occurrences bound statement)
  | .throwStatement _ value => hide (Expression.occurrences bound value)
  | .tryStatement _ tryBody catchPattern catchBody finallyBody =>
      let inner := patternNames catchPattern ++ scopeNames catchBody ++ bound
      hide (statementOccurrences (scopeNames tryBody ++ bound) tryBody ++
        patternOccurrences inner catchPattern ++ statementOccurrences inner catchBody ++
        statementOccurrences (scopeNames finallyBody ++ bound) finallyBody)
  | _ => []

end

/-- A function expression the walk of the plan meets, with the names the walk knows there and those
that the enclosing scopes bind. -/
structure Meeting where
  pos : SourcePos
  name : String
  params : List Parameter
  body : List Statement
  expressionBody : Option Expression
  known : List String
  enclosing : List String

namespace Meeting

/-- The identifiers of the function. -/
def occurrences (meeting : Meeting) : List Occurrence :=
  let bound := bodyNames meeting.name meeting.params meeting.body
  hide (parameterOccurrences bound meeting.params) ++
    optionOccurrences bound meeting.expressionBody ++ statementOccurrences bound meeting.body

def IsFree (meeting : Meeting) (name : String) : Prop :=
  (∃ occurrence ∈ meeting.occurrences, occurrence.name = name ∧ occurrence.bound = false) ∧
    name ∈ meeting.enclosing

def collect (mapOrder : MapOrder) (collection : Collection) (meeting : Meeting) : Collection :=
  addClosureEnvironment mapOrder meeting.known meeting.pos meeting.name meeting.params meeting.body
    meeting.expressionBody collection

end Meeting

section Met

mutual

def expressionMeetings (known enclosing : List String) : Expression → List Meeting
  | .functionExpression pos name params body expressionBody =>
      [⟨pos, name, params, body, expressionBody, known, enclosing⟩]
  | .binary _ _ left right | .logical _ _ left right =>
      expressionMeetings known enclosing left ++ expressionMeetings known enclosing right
  | .conditional _ condition consequent alternative =>
      expressionMeetings known enclosing condition ++ expressionMeetings known enclosing consequent ++
        expressionMeetings known enclosing alternative
  | .arrayLiteral _ elements => elementMeetings known enclosing elements
  | .objectLiteral _ properties => propertyMeetings known enclosing properties
  | .call _ _ arguments => argumentMeetings known enclosing arguments
  | .invoke _ callee arguments _ =>
      expressionMeetings known enclosing callee ++ argumentMeetings known enclosing arguments
  | _ => []

def elementMeetings (known enclosing : List String) : List (Option Expression) → List Meeting
  | [] => []
  | none :: rest => elementMeetings known enclosing rest
  | some element :: rest =>
      expressionMeetings known enclosing element ++ elementMeetings known enclosing rest

def propertyMeetings (known enclosing : List String) : List ObjectProperty → List Meeting
  | [] => []
  | ⟨_, _, value, _, _⟩ :: rest =>
      expressionMeetings known enclosing value ++ propertyMeetings known enclosing rest

def argumentMeetings (known enclosing : List String) : List Expression → List Meeting
  | [] => []
  | argument :: rest =>
      expressionMeetings known enclosing argument ++ argumentMeetings known enclosing rest

end

def optionMeetings (known enclosing : List String) : Option Expression → List Meeting
  | none => []
  | some value => expressionMeetings known enclosing value

mutual

def statementsMeetings (known enclosing : List String) : List Statement → List Meeting
  | [] => []
  | statement :: rest =>
      statementMeetings known enclosing statement ++ statementsMeetings known enclosing rest

def statementMeetings (known enclosing : List String) : Statement → List Meeting
  | .variableDecl _ _ _ _ value | .returnStatement _ value => optionMeetings known enclosing value
  | .functionDecl _ _ params body =>
      statementsMeetings (declareStatementNames (declareParameters known params) body)
        (bodyNames "" params body ++ enclosing) body
  | .block _ statements =>
      statementsMeetings (declareStatementNames known statements)
        (scopeNames statements ++ enclosing) statements
  | .expressionStatement _ expression => expressionMeetings known enclosing expression
  | .assignment _ target _ value =>
      expressionMeetings known enclosing target ++ expressionMeetings known enclosing value
  | .ifStatement _ condition consequence alternative =>
      expressionMeetings known enclosing condition ++
        statementsMeetings known (scopeNames consequence ++ enclosing) consequence ++
        statementsMeetings known (scopeNames alternative ++ enclosing) alternative
  | .whileStatement _ condition body =>
      expressionMeetings known enclosing condition ++
        statementsMeetings known (scopeNames body ++ enclosing) body
  | .forStatement _ init condition update body =>
      let enclosing := optionNames init ++ enclosing
      optionStatementMeetings known enclosing init ++
        optionStatementMeetings known enclosing update ++ optionMeetings known enclosing condition ++
        statementsMeetings known (scopeNames body ++ enclosing) body
  | _ => []

def optionStatementMeetings (known enclosing : List String) : Option Statement → List Meeting
  | none => []
  | some statement => statementMeetings known enclosing statement

end

/-- The function expressions `BuildScopeExitPlan` meets in a program, in order. -/
def meetings (statements : List Statement) : List Meeting :=
  statementsMeetings (declareStatementNames [] statements) (scopeNames statements) statements

end Met

end Jayess.Lifetime
