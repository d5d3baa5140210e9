import Jayess.Backend.Ending
import Jayess.Backend.Evaluation

/-!
# Where names are called and read

The calls and member reads whose root is an identifier, in the order in which they are emitted, with
the declarations in scope at each.
-/

namespace Jayess.Backend

inductive Site where
  | call (name : String)
  | memberCall (name property : String)
  | streamCall (stream method : String)
  | memberRead (name property : String)
deriving DecidableEq, Repr

namespace Site

def root : Site → String
  | call name | memberCall name _ | memberRead name _ => name
  | streamCall .. => "process"

/-- The runtime symbol the site is lowered to, if it is lowered to one. -/
def symbol (emitter : ExpressionEmitter) : Site → Option String
  | call name => stdlibLocalCallSymbol emitter name
  | memberCall name property =>
      stdlibMemberInvokeSymbol emitter (.identifier ⟨0, 0⟩ name) property false false
  | streamCall stream method =>
      processStreamSymbol
        (.member ⟨0, 0⟩ (.identifier ⟨0, 0⟩ "process") stream false false) method
  | memberRead name property =>
      stdlibPropertySymbol emitter (.identifier ⟨0, 0⟩ name) property false false

/-- The same from the tables alone. -/
def lookup (tables : StdlibTables) (site : Site) : Option String :=
  site.symbol { newExpressionEmitter with
    stdlibBindings := tables.bindings, stdlibNamespaces := tables.namespaces }

theorem symbol_eq_lookup (site : Site) (emitter : ExpressionEmitter) :
    site.symbol emitter = site.lookup emitter.stdlibTables := by
  cases site <;> rfl

end Site

/-! ## Imports -/

def StdlibTables.empty : StdlibTables := ⟨fun _ => none, fun _ => none⟩

/-- The tables after an import specifier. -/
def StdlibTables.record (tables : StdlibTables) (source : String) (specifier : ImportSpecifier) :
    StdlibTables :=
  match stdlibBindingForImport source specifier with
  | none => tables
  | some binding =>
      if specifier.isNamespace then
        if importedLocalName specifier = "" ∨ binding.moduleName = "" then tables
        else { tables with
          namespaces := Function.update tables.namespaces (importedLocalName specifier)
            (some binding.moduleName) }
      else if importedLocalName specifier = "" ∨ binding.moduleName = "" ∨ binding.member = "" then
        tables
      else { tables with
        bindings := Function.update tables.bindings (importedLocalName specifier) (some binding) }

/-- What the innermost declaration of a name makes it: nothing in scope declares it, the program
does, or it is imported from a standard module, with the tables as they are by that import alone. -/
inductive Meaning where
  | undeclared
  | own
  | stdlibImport (tables : StdlibTables)

def Meaning.offers (site : Site) : Meaning → Option String
  | undeclared => site.lookup .empty
  | own => none
  | stdlibImport tables => site.lookup tables

def importMeaning (source : String) (specifier : ImportSpecifier) : Meaning :=
  if (stdlibImportAliases.lookup source).isSome then
    .stdlibImport (StdlibTables.empty.record source specifier)
  else .own

/-- The declarations in scope at a point of the program, and the imports of standard modules up to
it. -/
structure Scoping where
  meaning : String → Meaning
  imports : StdlibTables

namespace Scoping

def outermost : Scoping := ⟨fun _ => .undeclared, .empty⟩

def declare (names : List String) (scoping : Scoping) : Scoping :=
  { scoping with meaning := fun name => if name ∈ names then .own else scoping.meaning name }

def importing (source : String) (specifier : ImportSpecifier) (scoping : Scoping) : Scoping where
  meaning :=
    if importedLocalName specifier = "" then scoping.meaning
    else Function.update scoping.meaning (importedLocalName specifier)
      (importMeaning source specifier)
  imports := scoping.imports.record source specifier

def restored (scoping inner : Scoping) : Scoping := { inner with meaning := scoping.meaning }

end Scoping

/-- A site with what is in scope at it. -/
structure Occurrence where
  scoping : Scoping
  site : Site

namespace Occurrence

def meaning (occurrence : Occurrence) : Meaning :=
  occurrence.scoping.meaning occurrence.site.root

/-- What the standard modules have for the site, by the imports up to it in whatever scope or by the
name of the root. -/
def standard (occurrence : Occurrence) : Option String :=
  occurrence.site.lookup occurrence.scoping.imports

/-- A standard module has something for the site that its innermost declaration does not offer. -/
def Shadowed (occurrence : Occurrence) : Prop :=
  occurrence.standard ≠ none ∧
    occurrence.meaning.offers occurrence.site ≠ occurrence.standard

instance (occurrence : Occurrence) : Decidable occurrence.Shadowed :=
  inferInstanceAs (Decidable (_ ∧ _))

end Occurrence

abbrev Walk := Scoping → List Occurrence × Scoping

namespace Walk

def nothing : Walk := fun scoping => ([], scoping)

def meets (sites : List Site) : Walk := fun scoping => (sites.map (⟨scoping, ·⟩), scoping)

def declares (names : List String) : Walk := fun scoping => ([], scoping.declare names)

def imports (source : String) : List ImportSpecifier → Walk
  | [], scoping => ([], scoping)
  | specifier :: rest, scoping => imports source rest (scoping.importing source specifier)

def andThen (first second : Walk) : Walk := fun scoping =>
  ((first scoping).1 ++ (second (first scoping).2).1, (second (first scoping).2).2)

def enclosed (inner : Walk) : Walk := fun scoping =>
  ((inner scoping).1, scoping.restored (inner scoping).2)

end Walk

/-- A process stream and its method, where a call of a member is one. -/
def streamSite (target : Expression) (property : String) : Option Site :=
  match target with
  | .member _ (.identifier _ "process") stream _ _ =>
      if (lookupMember processStreamRuntimeSymbols stream property).isSome then
        some (.streamCall stream property)
      else none
  | _ => none

end Jayess.Backend

namespace Jayess

open Backend

mutual

/-- The sites in an expression. The body of a function expression is not emitted with it, a folded
operator reads no names, and `delete` does not read the member it deletes. -/
def Expression.sites : Expression → List Site
  | .comma _ left right | .instanceof _ left right | .index _ left right _
  | .nullishCoalesce _ left right | .logical _ _ left right => left.sites ++ right.sites
  | .unary _ operator right =>
      match operator with
      | .void => right.sites
      | .delete =>
          match right with
          | .member _ target _ _ _ => target.sites
          | right => right.sites
      | _ => []
  | .update _ _ target _ => target.targetSites
  | .typeof _ value | .spread _ value => value.sites
  | .conditional _ condition consequent alternative =>
      condition.sites ++ consequent.sites ++ alternative.sites
  | .comparison _ operator left right =>
      match operator with
      | .in => left.sites ++ right.sites
      | _ => []
  | .objectLiteral _ properties => propertiesSites properties
  | .arrayLiteral _ elements => elementsSites elements
  | .member _ target property isPrivate optional =>
      match target with
      | .identifier _ name => if isPrivate || optional then [] else [.memberRead name property]
      | target => target.sites
  | .call _ callee arguments => .call callee :: argumentsSites arguments
  | .invoke _ callee arguments _ =>
      (match callee with
        | .member _ target property _ _ =>
            match streamSite target property with
            | some site => [site]
            | none =>
              match target with
              | .identifier _ name => [.memberCall name property]
              | target => target.sites
        | callee => callee.sites) ++ argumentsSites arguments
  | .newExpression _ callee arguments => callee.sites ++ argumentsSites arguments
  | _ => []

def Expression.targetSites : Expression → List Site
  | .identifier .. => []
  | .member _ target _ _ _ => target.sites
  | .index _ target index _ => target.sites ++ index.sites
  | _ => []

def argumentsSites : List Expression → List Site
  | [] => []
  | argument :: rest => argument.sites ++ argumentsSites rest

def elementsSites : List (Option Expression) → List Site
  | [] => []
  | none :: rest => elementsSites rest
  | some element :: rest => element.sites ++ elementsSites rest

def propertiesSites : List ObjectProperty → List Site
  | [] => []
  | ⟨_, some keyExpr, value, true, false⟩ :: rest =>
      keyExpr.sites ++ value.sites ++ propertiesSites rest
  | ⟨_, _, value, _, _⟩ :: rest => value.sites ++ propertiesSites rest

end

def optionSites : Option Expression → List Site
  | none => []
  | some expression => expression.sites

def keySites (computed : Bool) (keyExpr : Option Expression) : List Site :=
  if computed then optionSites keyExpr else []

mutual

def patternSites : Option BindingPattern → List Site
  | none => []
  | some pattern => pattern.sites

def BindingPattern.sites : BindingPattern → List Site
  | .name _ => []
  | .default pattern value => value.sites ++ patternSites pattern
  | .rest pattern => patternSites pattern
  | .array elements => elementPatternSites elements
  | .object properties => propertyPatternSites properties

def elementPatternSites : List (Option BindingPattern) → List Site
  | [] => []
  | element :: rest => patternSites element ++ elementPatternSites rest

def propertyPatternSites : List ObjectBindingProperty → List Site
  | [] => []
  | ⟨_, keyExpr, pattern, computed, isRest⟩ :: rest =>
      keySites (computed && !isRest) keyExpr ++ patternSites pattern ++ propertyPatternSites rest

end

/-- The sites in the key and the value of a class member; the bodies of functions are not emitted
with the class. -/
def ClassMember.sites : ClassMember → List Site
  | ⟨_, keyExpr, _, _, value, computed, staticBlock, isConstructor, field, _, _, _, _⟩ =>
      if isConstructor || staticBlock then []
      else keySites computed keyExpr ++ if field then optionSites value else []

open Walk

def prepareWalk (pattern : Option BindingPattern) (target : Expression) : Walk :=
  match pattern with
  | none => meets target.targetSites
  | some _ => declares (patternNames pattern)

mutual

/-- The sites in a statement as they are emitted: the condition of a loop after its body, the tests
of a switch after its clauses, the body of a do-while loop twice unless it returns. -/
def Statement.walk (start : Ending) : Statement → Walk
  | .variableDecl _ _ _ pattern value =>
      (meets (optionSites value)).andThen
        ((declares (patternNames pattern)).andThen (meets (patternSites pattern)))
  | .functionDecl _ name _ _ => declares [name]
  | .classDecl _ name superClass members =>
      (meets (optionSites superClass)).andThen
        ((declares [name]).andThen (meets (members.flatMap ClassMember.sites)))
  | .importDecl _ source specifiers sideEffect =>
      if sideEffect then nothing else imports source specifiers
  | .exportDecl _ declaration value _ _ _ _ _ =>
      (optionWalk start declaration).andThen (meets (optionSites value))
  | .assignment _ target _ value => meets (target.targetSites ++ value.sites)
  | .block _ statements => enclosed (allWalk start statements)
  | .ifStatement _ condition consequence alternative =>
      (meets condition.sites).andThen ((enclosed (allWalk .cleared consequence)).andThen
        (enclosed (allWalk .cleared alternative)))
  | .whileStatement _ condition body =>
      (enclosed (allWalk .cleared body)).andThen (meets condition.sites)
  | .doWhileStatement _ body condition =>
      (enclosed (allWalk start body)).andThen
        (if (allEnding start body).returnsHere then nothing
        else (enclosed (allWalk .cleared body)).andThen (meets condition.sites))
  | .forStatement _ init condition update body =>
      enclosed ((optionWalk start init).andThen ((enclosed (allWalk .cleared body)).andThen
        ((optionWalk .cleared update).andThen (meets (optionSites condition)))))
  | .forInStatement _ _ pattern target source body
  | .forOfStatement _ _ pattern target source body _ =>
      (meets source.sites).andThen (enclosed (((prepareWalk pattern target).andThen
        (enclosed (allWalk .cleared body))).andThen (meets (patternSites pattern))))
  | .switchStatement _ discriminant cases default =>
      (meets discriminant.sites).andThen ((casesWalk cases).andThen
        ((enclosed (allWalk .cleared default)).andThen (meets (testsSites cases))))
  | .labeledStatement _ _ statement => Statement.walk start statement
  | .expressionStatement _ expression => meets expression.sites
  | .returnStatement _ value => meets (optionSites value)
  | .throwStatement _ value => meets value.sites
  | .tryStatement _ tryBody catchPattern catchBody finallyBody =>
      (enclosed (allWalk .cleared tryBody)).andThen
        ((if catchBody.isEmpty then nothing
          else enclosed ((declares (patternNames catchPattern)).andThen
            ((meets (patternSites catchPattern)).andThen (allWalk .cleared catchBody)))).andThen
          (enclosed (allWalk .cleared finallyBody)))
  | .empty _ | .breakStatement .. | .continueStatement .. | .debugger _ => nothing

def allWalk (start : Ending) : List Statement → Walk
  | [] => nothing
  | statement :: rest => (statement.walk start).andThen (allWalk (statement.ending start) rest)

def optionWalk (start : Ending) : Option Statement → Walk
  | none => nothing
  | some statement => statement.walk start

def casesWalk : List SwitchCase → Walk
  | [] => nothing
  | ⟨_, consequent⟩ :: rest => (enclosed (allWalk .cleared consequent)).andThen (casesWalk rest)

def testsSites : List SwitchCase → List Site
  | [] => []
  | ⟨test, _⟩ :: rest => test.sites ++ testsSites rest

end

/-- The sites of a program in the order in which they are emitted. -/
def occurrences (statements : List Statement) : List Occurrence :=
  (allWalk .cleared statements .outermost).1

end Jayess
