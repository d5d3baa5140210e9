import Jayess.Escape.Walks
import Jayess.Lifetime.Captures

/-! # The declarations of a plan -/

namespace Jayess.Lifetime

open Escape (Report)

structure Declared where
  pos : SourcePos
  pattern : Option BindingPattern
  depth : Nat

mutual

def statementsDeclared (depth : Nat) : List Statement → List Declared
  | [] => []
  | statement :: rest => statementDeclared depth statement ++ statementsDeclared depth rest

def statementDeclared (depth : Nat) : Statement → List Declared
  | .variableDecl pos _ _ pattern _ => [⟨pos, pattern, depth⟩]
  | .functionDecl _ _ _ body | .block _ body | .whileStatement _ _ body
  | .doWhileStatement _ body _ => statementsDeclared (depth + 1) body
  | .ifStatement _ _ consequence alternative =>
      statementsDeclared (depth + 1) consequence ++ statementsDeclared (depth + 1) alternative
  | .forStatement _ init _ update body =>
      optionDeclared (depth + 1) init ++ optionDeclared (depth + 1) update ++
        statementsDeclared (depth + 1) body
  | .forOfStatement pos _ pattern _ _ body _ | .forInStatement pos _ pattern _ _ body =>
      ⟨pos, pattern, depth + 1⟩ :: statementsDeclared (depth + 1) body
  | .labeledStatement _ _ statement => statementDeclared depth statement
  | .switchStatement _ _ cases default =>
      casesDeclared (depth + 1) cases ++ statementsDeclared (depth + 1) default
  | .tryStatement pos tryBody catchPattern catchBody finallyBody =>
      statementsDeclared (depth + 1) tryBody ++ [⟨pos, catchPattern, depth + 1⟩] ++
        statementsDeclared (depth + 1) catchBody ++ statementsDeclared (depth + 1) finallyBody
  | _ => []

def casesDeclared (depth : Nat) : List SwitchCase → List Declared
  | [] => []
  | ⟨_, consequent⟩ :: rest => statementsDeclared depth consequent ++ casesDeclared depth rest

def optionDeclared (depth : Nat) : Option Statement → List Declared
  | none => []
  | some statement => statementDeclared depth statement

end

/-- What the walk does where it meets a declaration. -/
def Declared.plan (mapOrder : MapOrder) (report : Report) (plan : Plan) (declared : Declared) : Plan :=
  addDeclarationLifetimeActions mapOrder report declared.pos declared.pattern declared.depth plan

section Walk

variable {mapOrder : MapOrder} {report : Report}

def Declares (mapOrder : MapOrder) (report : Report) (walk : Plan → Plan)
    (met : List Declared) : Prop :=
  ∀ plan, walk plan = met.foldl (Declared.plan mapOrder report) plan

theorem declares_nil : Declares mapOrder report id [] := fun _ => rfl

theorem declares_one (pos : SourcePos) (pattern : Option BindingPattern) (depth : Nat) :
    Declares mapOrder report (addDeclarationLifetimeActions mapOrder report pos pattern depth)
      [⟨pos, pattern, depth⟩] := fun _ => rfl

theorem Declares.append {first second : Plan → Plan} {early late : List Declared}
    (hfirst : Declares mapOrder report first early)
    (hsecond : Declares mapOrder report second late) :
    Declares mapOrder report (fun plan => second (first plan)) (early ++ late) := by
  intro plan
  calc second (first plan)
      = late.foldl (Declared.plan mapOrder report) (first plan) := hsecond _
    _ = late.foldl (Declared.plan mapOrder report)
          (early.foldl (Declared.plan mapOrder report) plan) := by rw [hfirst plan]
    _ = (early ++ late).foldl (Declared.plan mapOrder report) plan := List.foldl_append.symm

mutual

theorem declares_statements (statements : List Statement) (depth : Nat) :
    Declares mapOrder report (collectStatementCleanups mapOrder report statements depth)
      (statementsDeclared depth statements) :=
  match statements with
  | [] => declares_nil
  | statement :: rest =>
      (declares_statement statement depth).append (declares_statements rest depth)

theorem declares_statement (statement : Statement) (depth : Nat) :
    Declares mapOrder report (collectStatementCleanup mapOrder report statement depth)
      (statementDeclared depth statement) :=
  match statement with
  | .variableDecl pos _ _ pattern _ => declares_one pos pattern depth
  | .functionDecl _ _ _ body | .block _ body | .whileStatement _ _ body
  | .doWhileStatement _ body _ => declares_statements body (depth + 1)
  | .ifStatement _ _ consequence alternative =>
      (declares_statements consequence (depth + 1)).append
        (declares_statements alternative (depth + 1))
  | .forStatement _ init _ update body =>
      ((declares_option init (depth + 1)).append (declares_option update (depth + 1))).append
        (declares_statements body (depth + 1))
  | .forOfStatement pos _ pattern _ _ body _ | .forInStatement pos _ pattern _ _ body =>
      (declares_one pos pattern (depth + 1)).append (declares_statements body (depth + 1))
  | .labeledStatement _ _ statement => declares_statement statement depth
  | .switchStatement _ _ cases default =>
      (declares_cases cases (depth + 1)).append (declares_statements default (depth + 1))
  | .tryStatement pos tryBody catchPattern catchBody finallyBody =>
      (((declares_statements tryBody (depth + 1)).append
        (declares_one pos catchPattern (depth + 1))).append
          (declares_statements catchBody (depth + 1))).append
            (declares_statements finallyBody (depth + 1))
  | .empty _ | .classDecl .. | .importDecl .. | .exportDecl .. | .expressionStatement ..
  | .assignment .. | .returnStatement .. | .breakStatement .. | .continueStatement ..
  | .throwStatement .. | .debugger _ => declares_nil

theorem declares_cases (cases : List SwitchCase) (depth : Nat) :
    Declares mapOrder report (collectCaseCleanups mapOrder report cases depth)
      (casesDeclared depth cases) :=
  match cases with
  | [] => declares_nil
  | ⟨_, consequent⟩ :: rest =>
      (declares_statements consequent depth).append (declares_cases rest depth)

theorem declares_option (statement : Option Statement) (depth : Nat) :
    Declares mapOrder report (collectOptionCleanup mapOrder report statement depth)
      (optionDeclared depth statement) :=
  match statement with
  | none => declares_nil
  | some statement => declares_statement statement depth

end

end Walk

/-! ## The actions of a declaration -/

def Outlives (report : Report) (depth : Nat) (name : String) : Prop :=
  depth = 0 ∨ report.escapes name = true

instance (report : Report) (depth : Nat) (name : String) : Decidable (Outlives report depth name) :=
  inferInstanceAs (Decidable (depth = 0 ∨ report.escapes name = true))

section Names

mutual

theorem ne_of_mem_patternNames {name : String} (pattern : Option BindingPattern)
    (hname : name ∈ patternNames pattern) : name ≠ "" :=
  match pattern with
  | none => absurd hname List.not_mem_nil
  | some pattern => ne_of_mem_collectBindingNames pattern hname

theorem ne_of_mem_collectBindingNames {name : String} (pattern : BindingPattern)
    (hname : name ∈ collectBindingNames pattern) : name ≠ "" :=
  match pattern with
  | .name used => by
      rw [collectBindingNames] at hname
      split at hname
      · exact absurd hname List.not_mem_nil
      · rename_i hne
        rwa [List.mem_singleton.mp hname]
  | .default pattern _ => ne_of_mem_patternNames pattern hname
  | .rest pattern => ne_of_mem_patternNames pattern hname
  | .array elements => ne_of_mem_elementNames elements hname
  | .object properties => ne_of_mem_propertyNames properties hname

theorem ne_of_mem_elementNames {name : String} (elements : List (Option BindingPattern))
    (hname : name ∈ elementNames elements) : name ≠ "" :=
  match elements with
  | [] => absurd hname List.not_mem_nil
  | element :: rest =>
      (List.mem_append.mp hname).elim (ne_of_mem_patternNames element)
        (ne_of_mem_elementNames rest)

theorem ne_of_mem_propertyNames {name : String} (properties : List ObjectBindingProperty)
    (hname : name ∈ propertyNames properties) : name ≠ "" :=
  match properties with
  | [] => absurd hname List.not_mem_nil
  | ⟨_, _, pattern, _, _⟩ :: rest =>
      (List.mem_append.mp hname).elim (ne_of_mem_patternNames pattern)
        (ne_of_mem_propertyNames rest)

end

end Names

namespace Declared

variable {mapOrder : MapOrder} {report : Report}

/-- The names of a declaration, in the order Go ranges over them. -/
def names (mapOrder : MapOrder) (declared : Declared) : List String :=
  bindingNames mapOrder declared.pattern

def extended (mapOrder : MapOrder) (report : Report) (declared : Declared) :
    List ExtendedLifetime :=
  ((declared.names mapOrder).filter fun name => Outlives report declared.depth name).map fun name =>
    ⟨name, declared.pos.line, declared.pos.column, declared.depth⟩

def cleanups (mapOrder : MapOrder) (report : Report) (declared : Declared) : List Cleanup :=
  ((declared.names mapOrder).filter fun name => ¬Outlives report declared.depth name).map fun name =>
    ⟨name, declared.pos.line, declared.pos.column, declared.depth⟩

variable {declared : Declared}

theorem mem_names {name : String} :
    name ∈ declared.names mapOrder ↔ name ∈ patternNames declared.pattern := by
  rw [names, bindingNames, (mapOrder.perm _).mem_iff, List.mem_dedup]

theorem addLifetimeAction_eq (plan : Plan) {pos : SourcePos} {depth : Nat} {name : String}
    (hne : name ≠ "") :
    addLifetimeAction report pos depth plan name =
      if Outlives report depth name then
        { plan with
          extendedLifetimes := plan.extendedLifetimes ++ [⟨name, pos.line, pos.column, depth⟩] }
      else
        { plan with
          scopeExitCleanups := plan.scopeExitCleanups ++ [⟨name, pos.line, pos.column, depth⟩] } := by
  have heligible : report.eligibleForScopeCleanup name = !report.escapes name := by
    simp [Report.eligibleForScopeCleanup, hne]
  have hsurvives : report.mustSurviveScopeExit name = report.escapes name := by
    simp [Report.mustSurviveScopeExit, hne]
  rw [addLifetimeAction, heligible, hsurvives]
  by_cases hdepth : depth = 0 <;> by_cases hescapes : report.escapes name = true <;>
    simp [Outlives, hdepth, hescapes]

theorem foldl_addLifetimeAction (names : List String) (hnames : ∀ name ∈ names, name ≠ "")
    (pos : SourcePos) (depth : Nat) (plan : Plan) :
    names.foldl (addLifetimeAction report pos depth) plan =
      { plan with
        scopeExitCleanups := plan.scopeExitCleanups ++
          (names.filter fun name => ¬Outlives report depth name).map fun name =>
            ⟨name, pos.line, pos.column, depth⟩
        extendedLifetimes := plan.extendedLifetimes ++
          (names.filter fun name => Outlives report depth name).map fun name =>
            ⟨name, pos.line, pos.column, depth⟩ } := by
  induction names generalizing plan with
  | nil => simp
  | cons name names ih =>
      rw [List.forall_mem_cons] at hnames
      rw [List.foldl_cons, addLifetimeAction_eq plan hnames.1, ih hnames.2]
      by_cases houtlives : Outlives report depth name <;> simp [houtlives]

theorem plan_eq (declared : Declared) (plan : Plan) :
    declared.plan mapOrder report plan =
      { plan with
        scopeExitCleanups := plan.scopeExitCleanups ++ declared.cleanups mapOrder report
        extendedLifetimes := plan.extendedLifetimes ++ declared.extended mapOrder report } :=
  foldl_addLifetimeAction _ (fun _ hname => ne_of_mem_patternNames _ (mem_names.mp hname)) _ _ _

theorem mem_extended {extended : ExtendedLifetime} :
    extended ∈ declared.extended mapOrder report ↔
      extended.binding ∈ patternNames declared.pattern ∧
        Outlives report declared.depth extended.binding ∧
        extended.line = declared.pos.line ∧ extended.column = declared.pos.column ∧
        extended.scopeDepth = declared.depth := by
  obtain ⟨binding, line, column, depth⟩ := extended
  simp only [Declared.extended, List.mem_map, List.mem_filter, mem_names, decide_eq_true_eq,
    ExtendedLifetime.mk.injEq]
  constructor
  · rintro ⟨name, ⟨hname, houtlives⟩, rfl, rfl, rfl, rfl⟩
    exact ⟨hname, houtlives, rfl, rfl, rfl⟩
  · rintro ⟨hname, houtlives, rfl, rfl, rfl⟩
    exact ⟨binding, ⟨hname, houtlives⟩, rfl, rfl, rfl, rfl⟩

theorem mem_cleanups {cleanup : Cleanup} :
    cleanup ∈ declared.cleanups mapOrder report ↔
      cleanup.binding ∈ patternNames declared.pattern ∧
        ¬Outlives report declared.depth cleanup.binding ∧
        cleanup.line = declared.pos.line ∧ cleanup.column = declared.pos.column ∧
        cleanup.scopeDepth = declared.depth := by
  obtain ⟨binding, line, column, depth⟩ := cleanup
  simp only [Declared.cleanups, List.mem_map, List.mem_filter, mem_names, decide_eq_true_eq,
    Cleanup.mk.injEq]
  constructor
  · rintro ⟨name, ⟨hname, houtlives⟩, rfl, rfl, rfl, rfl⟩
    exact ⟨hname, houtlives, rfl, rfl, rfl⟩
  · rintro ⟨hname, houtlives, rfl, rfl, rfl⟩
    exact ⟨binding, ⟨hname, houtlives⟩, rfl, rfl, rfl, rfl⟩

end Declared

def scopeExits (mapOrder : MapOrder) (statements : List Statement) : Plan :=
  collectStatementCleanups mapOrder (Escape.analyze statements) statements 0 ⟨[], [], []⟩

theorem foldl_plan (mapOrder : MapOrder) (report : Report) (met : List Declared) (plan : Plan) :
    met.foldl (Declared.plan mapOrder report) plan =
      { plan with
        scopeExitCleanups := plan.scopeExitCleanups ++ met.flatMap (·.cleanups mapOrder report)
        extendedLifetimes := plan.extendedLifetimes ++ met.flatMap (·.extended mapOrder report) } := by
  induction met generalizing plan with
  | nil => simp
  | cons declared met ih =>
      rw [List.foldl_cons, ih, Declared.plan_eq]
      simp

theorem scopeExits_eq (mapOrder : MapOrder) (statements : List Statement) :
    scopeExits mapOrder statements =
      ⟨(statementsDeclared 0 statements).flatMap (·.cleanups mapOrder (Escape.analyze statements)),
        (statementsDeclared 0 statements).flatMap (·.extended mapOrder (Escape.analyze statements)),
        []⟩ := by
  rw [scopeExits, declares_statements, foldl_plan]
  simp


section Lists

variable {order : MapOrder} {statements : List Statement}

theorem Meeting.exits_collect (meeting : Meeting) (collection : Collection) :
    (meeting.collect order collection).plan.scopeExitCleanups = collection.plan.scopeExitCleanups ∧
      (meeting.collect order collection).plan.extendedLifetimes =
        collection.plan.extendedLifetimes := by
  rw [Meeting.collect, addClosureEnvironment]
  dsimp only
  split <;> exact ⟨rfl, rfl⟩

theorem exits_foldl (met : List Meeting) (collection : Collection) :
    (met.foldl (Meeting.collect order) collection).plan.scopeExitCleanups =
        collection.plan.scopeExitCleanups ∧
      (met.foldl (Meeting.collect order) collection).plan.extendedLifetimes =
        collection.plan.extendedLifetimes := by
  induction met generalizing collection with
  | nil => exact ⟨rfl, rfl⟩
  | cons meeting met ih =>
      obtain ⟨hcleanups, hextended⟩ := ih (meeting.collect order collection)
      obtain ⟨hcleanups', hextended'⟩ := @Meeting.exits_collect order meeting collection
      exact ⟨hcleanups.trans hcleanups', hextended.trans hextended'⟩

theorem cleanups_plan : (buildScopeExitPlan order statements).scopeExitCleanups =
    (statementsDeclared 0 statements).flatMap (·.cleanups order (Escape.analyze statements)) := by
  have hexits : startCollection order statements = ⟨scopeExits order statements, []⟩ := rfl
  rw [buildScopeExitPlan_eq, (exits_foldl _ _).1, hexits, scopeExits_eq]

theorem extended_plan : (buildScopeExitPlan order statements).extendedLifetimes =
    (statementsDeclared 0 statements).flatMap (·.extended order (Escape.analyze statements)) := by
  have hexits : startCollection order statements = ⟨scopeExits order statements, []⟩ := rfl
  rw [buildScopeExitPlan_eq, (exits_foldl _ _).2, hexits, scopeExits_eq]

end Lists

end Jayess.Lifetime
