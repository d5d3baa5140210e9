import Jayess.Lifetime.Captures
import Jayess.Lifetime.Declarations

/-! # What captures refer to -/

namespace Jayess.Lifetime

structure NameDeclaration where
  name : String
  pos : SourcePos
  depth : Nat
  planned : Bool
deriving DecidableEq, Repr

structure ScopeFrame where
  path : List Nat
  declared : List NameDeclaration
deriving DecidableEq, Repr

namespace ScopeFrame

def names (frame : ScopeFrame) : List String := frame.declared.map NameDeclaration.name

end ScopeFrame

def scopeFrameNames (scopes : List ScopeFrame) : List String := scopes.flatMap ScopeFrame.names

/-- The declarations of a statement for the scope it stands in. -/
def nameDeclarations (depth : Nat) : Statement → List NameDeclaration
  | .variableDecl pos _ _ pattern _ =>
      (patternNames pattern).map fun name => ⟨name, pos, depth, true⟩
  | .functionDecl pos name _ _ | .classDecl pos name _ _ => [⟨name, pos, depth, false⟩]
  | .importDecl pos _ specifiers _ =>
      specifiers.map fun specifier => ⟨specifier.localName, pos, depth, false⟩
  -- the walk for scope exits passes over an export
  | .exportDecl _ (some declaration) _ _ _ _ _ _ =>
      (nameDeclarations depth declaration).map fun declared => { declared with planned := false }
  | .labeledStatement _ _ statement => nameDeclarations depth statement
  | _ => []

def scopeDeclarations (depth : Nat) (statements : List Statement) : List NameDeclaration :=
  statements.flatMap (nameDeclarations depth)

def optionDeclarations (depth : Nat) : Option Statement → List NameDeclaration
  | none => []
  | some statement => nameDeclarations depth statement

def parameterDeclarations (pos : SourcePos) (depth : Nat) (params : List Parameter) :
    List NameDeclaration :=
  (parameterNames params).map fun name => ⟨name, pos, depth, false⟩

structure Site where
  meeting : Meeting
  scopes : List ScopeFrame

namespace Site

def resolve (site : Site) (name : String) : Option ScopeFrame :=
  site.scopes.find? fun frame => name ∈ frame.names

/-- The variable that a name stands for: its scope and the name. -/
def referent (site : Site) (name : String) : Option (List Nat) × String :=
  ((site.resolve name).map ScopeFrame.path, name)

end Site

def placed (scopes : List ScopeFrame) (met : List Meeting) : List Site :=
  met.map fun meeting => ⟨meeting, scopes⟩

mutual

/-- The sites of statements whose places are `path`, counted from `index`. -/
def statementsSites (known : List String) (scopes : List ScopeFrame) (path : List Nat) (depth : Nat)
    (index : Nat) : List Statement → List Site
  | [] => []
  | statement :: rest =>
      statementSites known scopes (index :: path) depth statement ++
        statementsSites known scopes path depth (index + 1) rest

/-- The sites of the statement at a place. Its scopes are at that place, or next to each other below
it. -/
def statementSites (known : List String) (scopes : List ScopeFrame) (path : List Nat) (depth : Nat) :
    Statement → List Site
  | .variableDecl _ _ _ _ value | .returnStatement _ value =>
      placed scopes (optionMeetings known (scopeFrameNames scopes) value)
  | .functionDecl pos _ params body =>
      let frame : ScopeFrame :=
        ⟨path, parameterDeclarations pos (depth + 1) params ++ scopeDeclarations (depth + 1) body⟩
      statementsSites (declareStatementNames (declareParameters known params) body) (frame :: scopes)
        path (depth + 1) 0 body
  | .block _ statements =>
      statementsSites (declareStatementNames known statements)
        (⟨path, scopeDeclarations (depth + 1) statements⟩ :: scopes) path (depth + 1) 0 statements
  | .expressionStatement _ expression =>
      placed scopes (expressionMeetings known (scopeFrameNames scopes) expression)
  | .assignment _ target _ value =>
      placed scopes (expressionMeetings known (scopeFrameNames scopes) target) ++
        placed scopes (expressionMeetings known (scopeFrameNames scopes) value)
  | .ifStatement _ condition consequence alternative =>
      placed scopes (expressionMeetings known (scopeFrameNames scopes) condition) ++
        statementsSites known (⟨0 :: path, scopeDeclarations (depth + 1) consequence⟩ :: scopes)
          (0 :: path) (depth + 1) 0 consequence ++
        statementsSites known (⟨1 :: path, scopeDeclarations (depth + 1) alternative⟩ :: scopes)
          (1 :: path) (depth + 1) 0 alternative
  | .whileStatement _ condition body =>
      placed scopes (expressionMeetings known (scopeFrameNames scopes) condition) ++
        statementsSites known (⟨path, scopeDeclarations (depth + 1) body⟩ :: scopes) path (depth + 1)
          0 body
  | .forStatement _ init condition update body =>
      let loop : List ScopeFrame := ⟨path, optionDeclarations (depth + 1) init⟩ :: scopes
      optionSites known loop (0 :: path) (depth + 1) init ++
        optionSites known loop (1 :: path) (depth + 1) update ++
        placed loop (optionMeetings known (scopeFrameNames loop) condition) ++
        statementsSites known (⟨2 :: path, scopeDeclarations (depth + 1) body⟩ :: loop) (2 :: path)
          (depth + 1) 0 body
  | _ => []

def optionSites (known : List String) (scopes : List ScopeFrame) (path : List Nat) (depth : Nat) :
    Option Statement → List Site
  | none => []
  | some statement => statementSites known scopes path depth statement

end

/-- The functions `BuildScopeExitPlan` meets in a program, in their scopes. -/
def sites (statements : List Statement) : List Site :=
  statementsSites (declareStatementNames [] statements) [⟨[], scopeDeclarations 0 statements⟩] [] 0 0
    statements

/-! ## Sites are met functions -/

theorem names_nameDeclarations (depth : Nat) (statement : Statement) :
    (nameDeclarations depth statement).map NameDeclaration.name = declaredNames statement :=
  match statement with
  | .variableDecl .. => by
      rw [nameDeclarations, List.map_map]
      exact List.map_id _
  | .functionDecl .. | .classDecl .. => rfl
  | .importDecl .. => by
      rw [nameDeclarations, List.map_map]
      rfl
  | .exportDecl _ (some declaration) _ _ _ _ _ _ => by
      rw [nameDeclarations, List.map_map]
      exact names_nameDeclarations depth declaration
  | .labeledStatement _ _ statement => names_nameDeclarations depth statement
  | .exportDecl _ none _ _ _ _ _ _ | .empty _ | .expressionStatement .. | .assignment ..
  | .returnStatement .. | .block .. | .ifStatement .. | .whileStatement .. | .doWhileStatement ..
  | .forStatement .. | .forInStatement .. | .forOfStatement .. | .switchStatement ..
  | .breakStatement .. | .continueStatement .. | .throwStatement .. | .tryStatement ..
  | .debugger _ => rfl

theorem names_scopeDeclarations (depth : Nat) (statements : List Statement) :
    (scopeDeclarations depth statements).map NameDeclaration.name = scopeNames statements := by
  rw [scopeDeclarations, List.map_flatMap, scopeNames]
  exact congrArg (List.flatMap · statements) (funext (names_nameDeclarations depth))

theorem names_optionDeclarations (depth : Nat) (statement : Option Statement) :
    (optionDeclarations depth statement).map NameDeclaration.name = optionNames statement := by
  cases statement with
  | none => rfl
  | some statement => exact names_nameDeclarations depth statement

theorem names_parameterDeclarations (pos : SourcePos) (depth : Nat) (params : List Parameter) :
    (parameterDeclarations pos depth params).map NameDeclaration.name = parameterNames params := by
  rw [parameterDeclarations, List.map_map]
  exact List.map_id _

theorem meetings_placed (scopes : List ScopeFrame) (met : List Meeting) :
    (placed scopes met).map Site.meeting = met := by
  rw [placed, List.map_map]
  exact List.map_id _

theorem scopeFrameNames_cons (path : List Nat) (declared : List NameDeclaration)
    (scopes : List ScopeFrame) :
    scopeFrameNames (⟨path, declared⟩ :: scopes) =
      declared.map NameDeclaration.name ++ scopeFrameNames scopes := rfl

theorem scopeFrameNames_scope (path : List Nat) (depth : Nat) (statements : List Statement)
    (scopes : List ScopeFrame) :
    scopeFrameNames (⟨path, scopeDeclarations depth statements⟩ :: scopes) =
      scopeNames statements ++ scopeFrameNames scopes := by
  rw [scopeFrameNames_cons, names_scopeDeclarations]

theorem scopeFrameNames_function (path : List Nat) (pos : SourcePos) (depth : Nat)
    (params : List Parameter) (body : List Statement) (scopes : List ScopeFrame) :
    scopeFrameNames
        (⟨path, parameterDeclarations pos depth params ++ scopeDeclarations depth body⟩ :: scopes) =
      bodyNames "" params body ++ scopeFrameNames scopes := by
  rw [scopeFrameNames_cons, List.map_append, names_parameterDeclarations, names_scopeDeclarations]
  rfl

theorem scopeFrameNames_option (path : List Nat) (depth : Nat) (statement : Option Statement)
    (scopes : List ScopeFrame) :
    scopeFrameNames (⟨path, optionDeclarations depth statement⟩ :: scopes) =
      optionNames statement ++ scopeFrameNames scopes := by
  rw [scopeFrameNames_cons, names_optionDeclarations]

mutual

theorem meetings_statementsSites (known : List String) (scopes : List ScopeFrame) (path : List Nat)
    (depth index : Nat) (statements : List Statement) :
    (statementsSites known scopes path depth index statements).map Site.meeting =
      statementsMeetings known (scopeFrameNames scopes) statements :=
  match statements with
  | [] => rfl
  | statement :: rest => by
      rw [statementsSites, List.map_append, meetings_statementSites,
        meetings_statementsSites known scopes path depth (index + 1) rest]
      rfl

theorem meetings_statementSites (known : List String) (scopes : List ScopeFrame) (path : List Nat)
    (depth : Nat) (statement : Statement) :
    (statementSites known scopes path depth statement).map Site.meeting =
      statementMeetings known (scopeFrameNames scopes) statement :=
  match statement with
  | .variableDecl .. | .returnStatement .. | .expressionStatement .. => meetings_placed _ _
  | .functionDecl .. => by
      rw [statementSites, meetings_statementsSites, scopeFrameNames_function]
      rfl
  | .block .. => by
      rw [statementSites, meetings_statementsSites, scopeFrameNames_scope]
      rfl
  | .assignment .. => by
      rw [statementSites, List.map_append, meetings_placed, meetings_placed]
      rfl
  | .ifStatement .. => by
      rw [statementSites, List.map_append, List.map_append, meetings_placed,
        meetings_statementsSites, meetings_statementsSites, scopeFrameNames_scope,
        scopeFrameNames_scope]
      rfl
  | .whileStatement .. => by
      rw [statementSites, List.map_append, meetings_placed, meetings_statementsSites,
        scopeFrameNames_scope]
      rfl
  | .forStatement .. => by
      rw [statementSites, List.map_append, List.map_append, List.map_append, meetings_placed,
        meetings_optionSites, meetings_optionSites, meetings_statementsSites, scopeFrameNames_scope,
        scopeFrameNames_option]
      rfl
  | .empty _ | .classDecl .. | .importDecl .. | .exportDecl .. | .doWhileStatement ..
  | .forInStatement .. | .forOfStatement .. | .switchStatement .. | .labeledStatement ..
  | .breakStatement .. | .continueStatement .. | .throwStatement .. | .tryStatement ..
  | .debugger _ => rfl

theorem meetings_optionSites (known : List String) (scopes : List ScopeFrame) (path : List Nat)
    (depth : Nat) (statement : Option Statement) :
    (optionSites known scopes path depth statement).map Site.meeting =
      optionStatementMeetings known (scopeFrameNames scopes) statement :=
  match statement with
  | none => rfl
  | some statement => meetings_statementSites known scopes path depth statement

end

theorem meetings_sites (statements : List Statement) :
    (sites statements).map Site.meeting = meetings statements := by
  rw [sites, meetings_statementsSites, scopeFrameNames_scope, meetings]
  exact congrArg (statementsMeetings _ · _) (List.append_nil _)

def NameDeclaration.MetIn (met : List Declared) (declaration : NameDeclaration) : Prop :=
  ∃ declared ∈ met, declared.pos = declaration.pos ∧ declared.depth = declaration.depth ∧
    declaration.name ∈ patternNames declared.pattern

structure Enclosed (met : List Declared) (known : List String) (scopes : List ScopeFrame) : Prop where
  planned : ∀ frame ∈ scopes, ∀ declaration ∈ frame.declared, declaration.planned = true →
    declaration.MetIn met
  known : ∀ name ∈ known, name ∈ scopeFrameNames scopes

section Enclosed

variable {met : List Declared} {known known' : List String} {scopes : List ScopeFrame}
  {declared : List NameDeclaration} {path : List Nat} {depth : Nat}

theorem Enclosed.enter (henclosed : Enclosed met known scopes)
    (hdeclared : ∀ declaration ∈ declared, declaration.planned = true → declaration.MetIn met)
    (hknown : ∀ name ∈ known', name ∈ declared.map NameDeclaration.name ∨ name ∈ known) :
    Enclosed met known' (⟨path, declared⟩ :: scopes) where
  planned := List.forall_mem_cons.mpr ⟨hdeclared, henclosed.planned⟩
  known name hname := by
    rw [scopeFrameNames_cons, List.mem_append]
    exact (hknown name hname).imp_right (henclosed.known name)

theorem metIn_nameDeclarations (statement : Statement) (hmet : statementDeclared depth statement ⊆ met)
    (declaration : NameDeclaration) (hdeclaration : declaration ∈ nameDeclarations depth statement)
    (hplanned : declaration.planned = true) : declaration.MetIn met :=
  match statement with
  | .variableDecl pos _ _ pattern _ => by
      obtain ⟨name, hname, rfl⟩ := List.mem_map.mp hdeclaration
      exact ⟨⟨pos, pattern, depth⟩, hmet List.mem_cons_self, rfl, rfl, hname⟩
  | .functionDecl .. | .classDecl .. => by
      rw [List.mem_singleton.mp hdeclaration] at hplanned
      cases hplanned
  | .importDecl .. => by
      obtain ⟨specifier, -, rfl⟩ := List.mem_map.mp hdeclaration
      cases hplanned
  | .exportDecl _ (some _) _ _ _ _ _ _ => by
      obtain ⟨inner, -, rfl⟩ := List.mem_map.mp hdeclaration
      cases hplanned
  | .labeledStatement _ _ statement =>
      metIn_nameDeclarations statement hmet declaration hdeclaration hplanned
  | .exportDecl _ none _ _ _ _ _ _ | .empty _ | .expressionStatement .. | .assignment ..
  | .returnStatement .. | .block .. | .ifStatement .. | .whileStatement .. | .doWhileStatement ..
  | .forStatement .. | .forInStatement .. | .forOfStatement .. | .switchStatement ..
  | .breakStatement .. | .continueStatement .. | .throwStatement .. | .tryStatement ..
  | .debugger _ => absurd hdeclaration List.not_mem_nil

theorem metIn_scopeDeclarations (statements : List Statement)
    (hmet : statementsDeclared depth statements ⊆ met) :
    ∀ declaration ∈ scopeDeclarations depth statements, declaration.planned = true →
      declaration.MetIn met := by
  induction statements with
  | nil => simp [scopeDeclarations]
  | cons statement rest ih =>
      rw [statementsDeclared, List.append_subset] at hmet
      intro declaration hdeclaration hplanned
      rw [scopeDeclarations, List.flatMap_cons, List.mem_append] at hdeclaration
      rcases hdeclaration with hfirst | hrest
      · exact metIn_nameDeclarations statement hmet.1 declaration hfirst hplanned
      · exact ih hmet.2 declaration hrest hplanned

theorem metIn_parameterDeclarations {pos : SourcePos} {params : List Parameter}
    (declaration : NameDeclaration)
    (hdeclaration : declaration ∈ parameterDeclarations pos depth params) :
    declaration.planned = false := by
  obtain ⟨name, -, rfl⟩ := List.mem_map.mp hdeclaration
  rfl

theorem mem_statementNames {name : String} (statements : List Statement)
    (hname : name ∈ statementNames statements) : name ∈ scopeNames statements := by
  induction statements with
  | nil => exact absurd hname List.not_mem_nil
  | cons statement rest ih =>
      rw [scopeNames, List.flatMap_cons, List.mem_append]
      unfold statementNames at hname
      split at hname
      · contradiction
      · rename_i heq
        cases heq
        exact (List.mem_append.mp hname).imp_right ih
      · rename_i heq
        cases heq
        exact (List.mem_cons.mp hname).imp (fun heq => List.mem_singleton.mpr heq) ih
      · rename_i heq
        cases heq
        exact Or.inr (ih hname)

end Enclosed

section Known

variable {known enclosing : List String}

mutual

theorem known_expression (expression : Expression) :
    ∀ meeting ∈ expressionMeetings known enclosing expression, meeting.known = known :=
  match expression with
  | .functionExpression .. => fun _ hmet => List.mem_singleton.mp hmet ▸ rfl
  | .binary _ _ left right | .logical _ _ left right =>
      List.forall_mem_append.mpr ⟨known_expression left, known_expression right⟩
  | .conditional _ condition consequent alternative =>
      List.forall_mem_append.mpr ⟨List.forall_mem_append.mpr
        ⟨known_expression condition, known_expression consequent⟩, known_expression alternative⟩
  | .arrayLiteral _ elements => known_elements elements
  | .objectLiteral _ properties => known_properties properties
  | .call _ _ arguments => known_arguments arguments
  | .invoke _ callee arguments _ =>
      List.forall_mem_append.mpr ⟨known_expression callee, known_arguments arguments⟩
  | .identifier .. | .thisExpression _ | .superExpression _ | .numberLiteral .. | .bigIntLiteral ..
  | .stringLiteral .. | .templateLiteral .. | .booleanLiteral .. | .nullLiteral _
  | .undefinedLiteral _ | .importMeta _ | .newExpression .. | .newTarget _ | .comparison ..
  | .nullishCoalesce .. | .comma .. | .unary .. | .update .. | .typeof .. | .await .. | .yield ..
  | .instanceof .. | .index .. | .member .. | .spread .. =>
      fun _ hmet => absurd hmet List.not_mem_nil

theorem known_elements (elements : List (Option Expression)) :
    ∀ meeting ∈ elementMeetings known enclosing elements, meeting.known = known :=
  match elements with
  | [] => fun _ hmet => absurd hmet List.not_mem_nil
  | none :: rest => known_elements rest
  | some element :: rest =>
      List.forall_mem_append.mpr ⟨known_expression element, known_elements rest⟩

theorem known_properties (properties : List ObjectProperty) :
    ∀ meeting ∈ propertyMeetings known enclosing properties, meeting.known = known :=
  match properties with
  | [] => fun _ hmet => absurd hmet List.not_mem_nil
  | ⟨_, _, value, _, _⟩ :: rest =>
      List.forall_mem_append.mpr ⟨known_expression value, known_properties rest⟩

theorem known_arguments (arguments : List Expression) :
    ∀ meeting ∈ argumentMeetings known enclosing arguments, meeting.known = known :=
  match arguments with
  | [] => fun _ hmet => absurd hmet List.not_mem_nil
  | argument :: rest =>
      List.forall_mem_append.mpr ⟨known_expression argument, known_arguments rest⟩

end

theorem known_option (value : Option Expression) :
    ∀ meeting ∈ optionMeetings known enclosing value, meeting.known = known := by
  cases value with
  | none => exact fun _ hmet => absurd hmet List.not_mem_nil
  | some value => exact known_expression value

end Known

namespace Site

def Enclosed (met : List Declared) (site : Site) : Prop :=
  Lifetime.Enclosed met site.meeting.known site.scopes

end Site

section Sites

variable {met : List Declared}

theorem enclosed_placed {known : List String} {scopes : List ScopeFrame} {meetings : List Meeting}
    (henclosed : Enclosed met known scopes) (hknown : ∀ meeting ∈ meetings, meeting.known = known) :
    ∀ site ∈ placed scopes meetings, site.Enclosed met := by
  intro site hsite
  obtain ⟨meeting, hmeeting, rfl⟩ := List.mem_map.mp hsite
  rw [Site.Enclosed, hknown meeting hmeeting]
  exact henclosed

theorem Enclosed.enterScope {known known' : List String} {scopes : List ScopeFrame} {path : List Nat}
    {depth : Nat} {statements : List Statement} (henclosed : Enclosed met known scopes)
    (hmet : statementsDeclared depth statements ⊆ met)
    (hknown : ∀ name ∈ known', name ∈ statementNames statements ∨ name ∈ known) :
    Enclosed met known' (⟨path, scopeDeclarations depth statements⟩ :: scopes) := by
  refine henclosed.enter (metIn_scopeDeclarations statements hmet) fun name hname => ?_
  rw [names_scopeDeclarations]
  exact (hknown name hname).imp_left (mem_statementNames statements)

theorem Enclosed.enterFunction {known : List String} {scopes : List ScopeFrame} {path : List Nat}
    {depth : Nat} {pos : SourcePos} {params : List Parameter} {body : List Statement}
    (henclosed : Enclosed met known scopes) (hmet : statementsDeclared depth body ⊆ met) :
    Enclosed met (declareStatementNames (declareParameters known params) body)
      (⟨path, parameterDeclarations pos depth params ++ scopeDeclarations depth body⟩ :: scopes) := by
  refine henclosed.enter ?_ fun name hname => ?_
  · intro declaration hdeclaration hplanned
    rcases List.mem_append.mp hdeclaration with hparameter | hbody
    · rw [metIn_parameterDeclarations declaration hparameter] at hplanned
      cases hplanned
    · exact metIn_scopeDeclarations body hmet declaration hbody hplanned
  · rw [List.map_append, names_parameterDeclarations, names_scopeDeclarations, List.mem_append]
    rw [declareStatementNames, declareParameters, List.mem_append, List.mem_append] at hname
    rcases hname with hname | hname | hname
    · exact .inl (.inr (mem_statementNames body hname))
    · exact .inl (.inl hname)
    · exact .inr hname

theorem Enclosed.enterOption {known : List String} {scopes : List ScopeFrame} {path : List Nat}
    {depth : Nat} {statement : Option Statement} (henclosed : Enclosed met known scopes)
    (hmet : optionDeclared depth statement ⊆ met) :
    Enclosed met known (⟨path, optionDeclarations depth statement⟩ :: scopes) := by
  refine henclosed.enter ?_ fun name hname => .inr hname
  cases statement with
  | none => exact fun declaration hdeclaration => absurd hdeclaration List.not_mem_nil
  | some statement => exact metIn_nameDeclarations statement hmet

mutual

theorem enclosed_statementsSites (known : List String) (scopes : List ScopeFrame) (path : List Nat)
    (depth index : Nat) (statements : List Statement) (henclosed : Enclosed met known scopes)
    (hmet : statementsDeclared depth statements ⊆ met) :
    ∀ site ∈ statementsSites known scopes path depth index statements, site.Enclosed met :=
  match statements with
  | [] => fun _ hsite => absurd hsite List.not_mem_nil
  | statement :: rest =>
      List.forall_mem_append.mpr
        ⟨enclosed_statementSites known scopes (index :: path) depth statement henclosed
          (List.append_subset.mp hmet).1,
        enclosed_statementsSites known scopes path depth (index + 1) rest henclosed
          (List.append_subset.mp hmet).2⟩

theorem enclosed_statementSites (known : List String) (scopes : List ScopeFrame) (path : List Nat)
    (depth : Nat) (statement : Statement) (henclosed : Enclosed met known scopes)
    (hmet : statementDeclared depth statement ⊆ met) :
    ∀ site ∈ statementSites known scopes path depth statement, site.Enclosed met :=
  match statement with
  | .variableDecl _ _ _ _ value | .returnStatement _ value =>
      enclosed_placed henclosed (known_option value)
  | .expressionStatement _ expression => enclosed_placed henclosed (known_expression expression)
  | .functionDecl _ _ _ body =>
      enclosed_statementsSites _ _ path (depth + 1) 0 body (henclosed.enterFunction hmet) hmet
  | .block _ statements =>
      enclosed_statementsSites _ _ path (depth + 1) 0 statements
        (henclosed.enterScope hmet fun _ hname => List.mem_append.mp hname) hmet
  | .assignment _ target _ value =>
      List.forall_mem_append.mpr ⟨enclosed_placed henclosed (known_expression target),
        enclosed_placed henclosed (known_expression value)⟩
  | .ifStatement _ condition consequence alternative =>
      have hparts := List.append_subset.mp hmet
      List.forall_mem_append.mpr ⟨List.forall_mem_append.mpr
        ⟨enclosed_placed henclosed (known_expression condition),
          enclosed_statementsSites known _ (0 :: path) (depth + 1) 0 consequence
            (henclosed.enterScope hparts.1 fun _ hname => .inr hname) hparts.1⟩,
        enclosed_statementsSites known _ (1 :: path) (depth + 1) 0 alternative
          (henclosed.enterScope hparts.2 fun _ hname => .inr hname) hparts.2⟩
  | .whileStatement _ condition body =>
      List.forall_mem_append.mpr ⟨enclosed_placed henclosed (known_expression condition),
        enclosed_statementsSites known _ path (depth + 1) 0 body
          (henclosed.enterScope hmet fun _ hname => .inr hname) hmet⟩
  | .forStatement _ init condition update body =>
      have hparts := List.append_subset.mp hmet
      have hheader := List.append_subset.mp hparts.1
      have hloop := henclosed.enterOption hheader.1
      List.forall_mem_append.mpr ⟨List.forall_mem_append.mpr ⟨List.forall_mem_append.mpr
        ⟨enclosed_optionSites known _ (0 :: path) (depth + 1) init hloop hheader.1,
          enclosed_optionSites known _ (1 :: path) (depth + 1) update hloop hheader.2⟩,
        enclosed_placed hloop (known_option condition)⟩,
        enclosed_statementsSites known _ (2 :: path) (depth + 1) 0 body
          (hloop.enterScope hparts.2 fun _ hname => .inr hname) hparts.2⟩
  | .empty _ | .classDecl .. | .importDecl .. | .exportDecl .. | .doWhileStatement ..
  | .forInStatement .. | .forOfStatement .. | .switchStatement .. | .labeledStatement ..
  | .breakStatement .. | .continueStatement .. | .throwStatement .. | .tryStatement ..
  | .debugger _ => fun _ hsite => absurd hsite List.not_mem_nil

theorem enclosed_optionSites (known : List String) (scopes : List ScopeFrame) (path : List Nat)
    (depth : Nat) (statement : Option Statement) (henclosed : Enclosed met known scopes)
    (hmet : optionDeclared depth statement ⊆ met) :
    ∀ site ∈ optionSites known scopes path depth statement, site.Enclosed met :=
  match statement with
  | none => fun _ hsite => absurd hsite List.not_mem_nil
  | some statement => enclosed_statementSites known scopes path depth statement henclosed hmet

end

end Sites

theorem enclosed_sites (statements : List Statement) :
    ∀ site ∈ sites statements, site.Enclosed (statementsDeclared 0 statements) := by
  have hnone : Enclosed (statementsDeclared 0 statements) [] [] :=
    ⟨fun _ hframe => absurd hframe List.not_mem_nil, fun _ hname => absurd hname List.not_mem_nil⟩
  exact enclosed_statementsSites _ _ [] 0 0 statements
    (hnone.enterScope (List.Subset.refl _) fun _ hname => List.mem_append.mp hname)
    (List.Subset.refl _)

end Jayess.Lifetime
