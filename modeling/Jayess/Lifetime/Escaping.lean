import Jayess.Escape.Walks
import Jayess.Lifetime.Captures

/-!
# Captured names escape

The escape analysis meets every function that the walk for closures meets, and marks what the function
captures, except for the names that it takes for locals of the function.
-/

namespace Jayess.Lifetime

open Escape

def Marks (name : String) (walk : AliasOrder → Report → Report) : Prop :=
  ∀ order report, name ∈ (walk order report).escaped

def MarksScoped (name : String) (walk : AliasOrder → Report × Scope → Report × Scope) : Prop :=
  ∀ order report scope, name ∈ (walk order (report, scope)).1.escaped

section Marks

variable {name : String} {walk next : AliasOrder → Report → Report}
  {walkScope nextScope : AliasOrder → Report × Scope → Report × Scope}

theorem Marks.after (hnext : Marks name next) :
    Marks name fun order report => next order (walk order report) :=
  fun order report => hnext order (walk order report)

theorem Marks.before (hwalk : Marks name walk) (hnext : Acts next) :
    Marks name fun order report => next order (walk order report) := by
  intro order report
  obtain ⟨marks, hmarks⟩ := hnext
  have heq : next order (walk order report) = replay order (walk order report) marks :=
    hmarks order (walk order report)
  change name ∈ (next order (walk order report)).escaped
  rw [heq]
  exact escaped_replay marks (hwalk order report)

theorem MarksScoped.after (hnext : MarksScoped name nextScope) :
    MarksScoped name fun order state => nextScope order (walkScope order state) :=
  fun order report scope =>
    hnext order (walkScope order (report, scope)).1 (walkScope order (report, scope)).2

theorem MarksScoped.before (hwalk : MarksScoped name walkScope) (hnext : ActsScoped nextScope) :
    MarksScoped name fun order state => nextScope order (walkScope order state) := by
  intro order report scope
  obtain ⟨marks, scope', hmarks⟩ := hnext (walkScope order (report, scope)).2
  have heq : nextScope order (walkScope order (report, scope)) =
      (replay order (walkScope order (report, scope)).1 marks, scope') :=
    hmarks order (walkScope order (report, scope)).1
  change name ∈ (nextScope order (walkScope order (report, scope))).1.escaped
  rw [heq]
  exact escaped_replay marks (hwalk order report scope)

theorem MarksScoped.report (hwalk : MarksScoped name walkScope) (scope : Scope) :
    Marks name fun order report => (walkScope order (report, scope)).1 :=
  fun order report => hwalk order report scope

theorem marksScoped_of {walk : AliasOrder → Scope → Report → Report} (change : Scope → Scope)
    (hwalk : ∀ scope, Marks name fun order => walk order scope) :
    MarksScoped name fun order state => (walk order state.2 state.1, change state.2) :=
  fun order report scope => hwalk scope order report

theorem marks_escape (hne : name ≠ "") :
    Marks name fun order report => report.markEscaping order name :=
  fun _ _ => Report.mem_markEscaping.mpr (.inr ⟨hne, .refl⟩)

end Marks

section Function

variable {name : String} {bound : List String}

mutual

theorem marks_expression (hne : name ≠ "") (expression : Expression)
    (hsees : Sees (Expression.occurrences bound expression) name) :
    Marks name fun order => markExpressionIdentifiersEscaping order expression :=
  match expression with
  | .identifier _ used => by
      rw [sees_identifier] at hsees
      subst hsees
      exact marks_escape hne
  | .binary _ _ left right | .logical _ _ left right =>
      ((sees_append _ _).mp hsees).elim
        (fun hleft => (marks_expression hne left hleft).before (acts_mark right))
        (fun hright => (marks_expression hne right hright).after)
  | .conditional _ condition consequent alternative =>
      ((sees_append _ _).mp hsees).elim
        (fun hfirst => ((sees_append _ _).mp hfirst).elim
          (fun hcondition => ((marks_expression hne condition hcondition).before
            (acts_mark consequent)).before (acts_mark alternative))
          (fun hconsequent =>
            (Marks.after (marks_expression hne consequent hconsequent)).before
              (acts_mark alternative)))
        (fun halternative => (marks_expression hne alternative halternative).after)
  | .arrayLiteral _ elements => marks_elements hne elements hsees
  | .objectLiteral _ properties => marks_properties hne properties hsees
  | .comparison .. | .nullishCoalesce .. | .comma .. | .instanceof .. | .index .. | .unary ..
  | .update .. | .typeof .. | .await .. | .spread .. | .member .. | .yield .. | .templateLiteral ..
  | .call .. | .invoke .. | .newExpression .. | .functionExpression .. =>
      absurd hsees (sees_hide _).mp
  | .thisExpression _ | .superExpression _ | .numberLiteral .. | .bigIntLiteral ..
  | .stringLiteral .. | .booleanLiteral .. | .nullLiteral _ | .undefinedLiteral _ | .importMeta _
  | .newTarget _ => absurd hsees sees_nil.mp

theorem marks_elements (hne : name ≠ "") (elements : List (Option Expression))
    (hsees : Sees (elementOccurrences bound elements) name) :
    Marks name fun order => markElementIdentifiersEscaping order elements :=
  match elements with
  | [] => absurd hsees sees_nil.mp
  | none :: rest =>
      ((sees_append _ _).mp hsees).elim (fun hnone => absurd hnone sees_nil.mp)
        (fun hrest => (marks_elements hne rest hrest).after)
  | some element :: rest =>
      ((sees_append _ _).mp hsees).elim
        (fun helement => (marks_expression hne element helement).before (acts_markElements rest))
        (fun hrest => (marks_elements hne rest hrest).after)

theorem marks_properties (hne : name ≠ "") (properties : List ObjectProperty)
    (hsees : Sees (propertyOccurrences bound properties) name) :
    Marks name fun order => markPropertyIdentifiersEscaping order properties :=
  match properties with
  | [] => absurd hsees sees_nil.mp
  | ⟨_, _, value, _, _⟩ :: rest =>
      ((sees_append _ _).mp hsees).elim
        (fun hfirst => ((sees_append _ _).mp hfirst).elim
          (fun hkey => absurd hkey (sees_hide _).mp)
          (fun hvalue => (Marks.after (marks_expression hne value hvalue)).before
            (acts_markProperties rest)))
        (fun hrest => (marks_properties hne rest hrest).after)

end

theorem marks_captured (hne : name ≠ "") {locals : List String} (hlocal : name ∉ locals)
    (expression : Expression) (hsees : Sees (Expression.occurrences bound expression) name) :
    Marks name fun order => markCapturedExpressionIdentifiersEscaping order locals expression
      (markExpressionIdentifiersEscaping order expression) := by
  have hmarks := marks_expression hne expression hsees
  cases expression with
  | identifier pos used =>
      rw [sees_identifier] at hsees
      subst hsees
      have hcontains : ¬locals.contains used = true := by simpa using hlocal
      intro order report
      change used ∈ (if locals.contains used then report else report.markEscaping order used).escaped
      rw [if_neg hcontains]
      exact marks_escape hne order report
  | functionExpression => exact absurd hsees (sees_hide _).mp
  | _ => exact hmarks

theorem marks_capturedOption (hne : name ≠ "") {locals : List String} (hlocal : name ∉ locals)
    (value : Option Expression) (hsees : Sees (optionOccurrences bound value) name) :
    Marks name fun order => markCapturedOption order value locals :=
  match value with
  | none => absurd hsees sees_nil.mp
  | some value => marks_captured hne hlocal value hsees

mutual

theorem marks_capturedStatements (hne : name ≠ "") {locals : List String} (hlocal : name ∉ locals)
    (bound : List String) (statements : List Statement)
    (hsees : Sees (statementOccurrences bound statements) name) :
    Marks name fun order => markCapturedStatementIdentifiersEscaping order statements locals :=
  match statements with
  | [] => absurd hsees sees_nil.mp
  | statement :: rest =>
      ((sees_append _ _).mp hsees).elim
        (fun hfirst => (marks_capturedStatement hne hlocal bound statement hfirst).before
          (acts_capturedStatements rest locals))
        (fun hrest => (marks_capturedStatements hne hlocal bound rest hrest).after)

theorem marks_capturedStatement (hne : name ≠ "") {locals : List String} (hlocal : name ∉ locals)
    (bound : List String) (statement : Statement)
    (hsees : Sees (Statement.occurrences bound statement) name) :
    Marks name fun order => markCapturedStatement order statement locals :=
  match statement with
  | .variableDecl _ _ _ _ value =>
      ((sees_append _ _).mp hsees).elim (fun hpattern => absurd hpattern (sees_hide _).mp)
        (fun hvalue => marks_capturedOption hne hlocal value hvalue)
  | .returnStatement _ value => marks_capturedOption hne hlocal value hsees
  | .expressionStatement _ expression => marks_captured hne hlocal expression hsees
  | .assignment _ target _ value =>
      ((sees_append _ _).mp hsees).elim
        (fun htarget => (marks_captured hne hlocal target htarget).before
          (acts_captured locals value (acts_mark value)))
        (fun hvalue => (marks_captured hne hlocal value hvalue).after)
  | .block _ statements =>
      marks_capturedStatements hne hlocal (scopeNames statements ++ bound) statements hsees
  | .functionDecl .. | .classDecl .. | .exportDecl .. | .ifStatement .. | .whileStatement ..
  | .doWhileStatement .. | .forStatement .. | .forOfStatement .. | .forInStatement ..
  | .switchStatement .. | .labeledStatement .. | .throwStatement .. | .tryStatement .. =>
      absurd hsees (sees_hide _).mp
  | .empty _ | .importDecl .. | .breakStatement .. | .continueStatement .. | .debugger _ =>
      absurd hsees sees_nil.mp

end

end Function

/-! ## Functions that are met -/

namespace Meeting

def analyzedLocals (meeting : Meeting) : List String :=
  functionLocals meeting.name meeting.params meeting.body

def marking (meeting : Meeting) (order : AliasOrder) (report : Report) : Report :=
  markCapturedStatementIdentifiersEscaping order meeting.body meeting.analyzedLocals
    (markCapturedOption order meeting.expressionBody meeting.analyzedLocals report)

theorem marks_marking {meeting : Meeting} {name : String} (hne : name ≠ "")
    (hlocal : name ∉ meeting.analyzedLocals) (hsees : Sees meeting.occurrences name) :
    Marks name fun order => meeting.marking order := by
  rw [occurrences, sees_append, sees_append, sees_hide, false_or] at hsees
  rcases hsees with hexpression | hbody
  · exact (marks_capturedOption hne hlocal _ hexpression).before
      (acts_capturedStatements meeting.body meeting.analyzedLocals)
  · exact (marks_capturedStatements hne hlocal _ meeting.body hbody).after

end Meeting

def Visits (met : List Meeting) (walk : AliasOrder → Report → Report) : Prop :=
  ∀ meeting ∈ met, ∀ name, Marks name (fun order => meeting.marking order) → Marks name walk

def VisitsScoped (met : List Meeting) (walk : AliasOrder → Report × Scope → Report × Scope) : Prop :=
  ∀ meeting ∈ met, ∀ name, Marks name (fun order => meeting.marking order) → MarksScoped name walk

section Visits

variable {met early late : List Meeting} {walk next : AliasOrder → Report → Report}
  {walkScope nextScope : AliasOrder → Report × Scope → Report × Scope}

theorem visits_nil : Visits [] walk := by
  intro meeting hmet
  exact absurd hmet List.not_mem_nil

theorem visitsScoped_nil : VisitsScoped [] walkScope := by
  intro meeting hmet
  exact absurd hmet List.not_mem_nil

theorem Visits.before (hwalk : Visits met walk) (hnext : Acts next) :
    Visits met fun order report => next order (walk order report) :=
  fun meeting hmet name hmarks => (hwalk meeting hmet name hmarks).before hnext

theorem Visits.after (hnext : Visits met next) :
    Visits met fun order report => next order (walk order report) :=
  fun meeting hmet name hmarks => (hnext meeting hmet name hmarks).after

theorem Visits.append (hwalk : Visits early walk) (hnext : Visits late next) (hacts : Acts next) :
    Visits (early ++ late) fun order report => next order (walk order report) := by
  intro meeting hmet
  rcases List.mem_append.mp hmet with hmet | hmet
  · exact hwalk.before hacts meeting hmet
  · exact hnext.after meeting hmet

theorem VisitsScoped.append (hwalk : VisitsScoped early walkScope)
    (hnext : VisitsScoped late nextScope) (hacts : ActsScoped nextScope) :
    VisitsScoped (early ++ late) fun order state => nextScope order (walkScope order state) := by
  intro meeting hmet name hmarks
  rcases List.mem_append.mp hmet with hmet | hmet
  · exact (hwalk meeting hmet name hmarks).before hacts
  · exact (hnext meeting hmet name hmarks).after

theorem Visits.mono (hwalk : Visits late walk) (hmet : early ⊆ late) : Visits early walk :=
  fun meeting hearly => hwalk meeting (hmet hearly)

theorem VisitsScoped.inScope (hwalk : VisitsScoped met walkScope) (change : Scope → Scope) :
    VisitsScoped met fun order state => walkScope order (state.1, change state.2) :=
  fun meeting hmet name hmarks order report scope =>
    hwalk meeting hmet name hmarks order report (change scope)

theorem VisitsScoped.report (hwalk : VisitsScoped met walkScope) (scope : Scope) :
    Visits met fun order report => (walkScope order (report, scope)).1 :=
  fun meeting hmet name hmarks => (hwalk meeting hmet name hmarks).report scope

theorem visitsScoped_of {walk : AliasOrder → Scope → Report → Report} (change : Scope → Scope)
    (hwalk : ∀ scope, Visits met fun order => walk order scope) :
    VisitsScoped met fun order state => (walk order state.2 state.1, change state.2) :=
  fun meeting hmet name hmarks =>
    marksScoped_of change fun scope => hwalk scope meeting hmet name hmarks

end Visits

theorem visits_function {pos : SourcePos} {name : String} {params : List Parameter}
    {body : List Statement} {expressionBody : Option Expression} {known enclosing : List String}
    (scope : Scope) :
    Visits [⟨pos, name, params, body, expressionBody, known, enclosing⟩] fun order report =>
      (analyzeStatements order body
        (analyzeOption order expressionBody scope
          (markCapturedStatementIdentifiersEscaping order body (functionLocals name params body)
            (markCapturedOption order expressionBody (functionLocals name params body) report)),
          scope)).1 := by
  intro meeting hmet used hmarks
  obtain rfl := List.mem_singleton.mp hmet
  exact (hmarks.before (acts_option expressionBody scope)).before ((acts_statements body).report scope)

section Expressions

variable (known enclosing : List String)

mutual

theorem visits_mark (expression : Expression) :
    Visits (expressionMeetings known enclosing expression) fun order =>
      markExpressionIdentifiersEscaping order expression :=
  match expression with
  | .functionExpression .. => visits_function (Scope.newScope [])
  | .binary _ _ left right | .logical _ _ left right =>
      (visits_mark left).append (visits_mark right) (acts_mark right)
  | .conditional _ condition consequent alternative =>
      ((visits_mark condition).append (visits_mark consequent) (acts_mark consequent)).append
        (visits_mark alternative) (acts_mark alternative)
  | .arrayLiteral _ elements => visits_markElements elements
  | .objectLiteral _ properties => visits_markProperties properties
  | .call _ _ arguments => visits_markList arguments
  | .invoke _ callee arguments _ =>
      (visits_mark callee).append (visits_markList arguments) (acts_markList arguments)
  | .identifier .. | .thisExpression _ | .superExpression _ | .numberLiteral .. | .bigIntLiteral ..
  | .stringLiteral .. | .templateLiteral .. | .booleanLiteral .. | .nullLiteral _
  | .undefinedLiteral _ | .importMeta _ | .newExpression .. | .newTarget _ | .comparison ..
  | .nullishCoalesce .. | .comma .. | .unary .. | .update .. | .typeof .. | .await .. | .yield ..
  | .instanceof .. | .index .. | .member .. | .spread .. => visits_nil

theorem visits_markElements (elements : List (Option Expression)) :
    Visits (elementMeetings known enclosing elements) fun order =>
      markElementIdentifiersEscaping order elements :=
  match elements with
  | [] => visits_nil
  | none :: rest => (visits_markElements rest).after
  | some element :: rest =>
      (visits_mark element).append (visits_markElements rest) (acts_markElements rest)

theorem visits_markProperties (properties : List ObjectProperty) :
    Visits (propertyMeetings known enclosing properties) fun order =>
      markPropertyIdentifiersEscaping order properties :=
  match properties with
  | [] => visits_nil
  | ⟨_, _, value, _, _⟩ :: rest =>
      (visits_mark value).after.append (visits_markProperties rest) (acts_markProperties rest)

theorem visits_markList (arguments : List Expression) :
    Visits (argumentMeetings known enclosing arguments) fun order =>
      markExpressionListIdentifiersEscaping order arguments :=
  match arguments with
  | [] => visits_nil
  | argument :: rest => (visits_mark argument).append (visits_markList rest) (acts_markList rest)

end

mutual

theorem visits_expression (expression : Expression) (scope : Scope) :
    Visits (expressionMeetings known enclosing expression) fun order =>
      analyzeExpression order expression scope :=
  match expression with
  | .functionExpression _ _ params _ _ => visits_function (scope.newScope.declareParameters params)
  | .binary _ _ left right | .logical _ _ left right =>
      (visits_expression left scope).append (visits_expression right scope)
        (acts_expression right scope)
  | .conditional _ condition consequent alternative =>
      ((visits_expression condition scope).append (visits_expression consequent scope)
        (acts_expression consequent scope)).append (visits_expression alternative scope)
          (acts_expression alternative scope)
  | .arrayLiteral _ elements => (visits_elements elements scope).after
  | .objectLiteral _ properties => (visits_properties properties scope).after
  | .call _ _ arguments => (visits_list arguments scope).after
  | .invoke _ callee arguments _ =>
      (visits_expression callee scope).after.append (visits_list arguments scope)
        (acts_list arguments scope)
  | .identifier .. | .thisExpression _ | .superExpression _ | .numberLiteral .. | .bigIntLiteral ..
  | .stringLiteral .. | .templateLiteral .. | .booleanLiteral .. | .nullLiteral _
  | .undefinedLiteral _ | .importMeta _ | .newExpression .. | .newTarget _ | .comparison ..
  | .nullishCoalesce .. | .comma .. | .unary .. | .update .. | .typeof .. | .await .. | .yield ..
  | .instanceof .. | .index .. | .member .. | .spread .. => visits_nil

theorem visits_elements (elements : List (Option Expression)) (scope : Scope) :
    Visits (elementMeetings known enclosing elements) fun order =>
      analyzeElements order elements scope :=
  match elements with
  | [] => visits_nil
  | none :: rest => (visits_elements rest scope).after
  | some element :: rest =>
      (visits_expression element scope).append (visits_elements rest scope)
        (acts_elements rest scope)

theorem visits_properties (properties : List ObjectProperty) (scope : Scope) :
    Visits (propertyMeetings known enclosing properties) fun order =>
      analyzeProperties order properties scope :=
  match properties with
  | [] => visits_nil
  | ⟨_, _, value, _, _⟩ :: rest =>
      (visits_expression value scope).after.append (visits_properties rest scope)
        (acts_properties rest scope)

theorem visits_list (arguments : List Expression) (scope : Scope) :
    Visits (argumentMeetings known enclosing arguments) fun order =>
      analyzeExpressionList order arguments scope :=
  match arguments with
  | [] => visits_nil
  | argument :: rest =>
      (visits_expression argument scope).append (visits_list rest scope) (acts_list rest scope)

end

theorem visits_option (value : Option Expression) (scope : Scope) :
    Visits (optionMeetings known enclosing value) fun order => analyzeOption order value scope := by
  cases value with
  | none => exact visits_nil
  | some value => exact visits_expression known enclosing value scope

theorem visits_markOption (value : Option Expression) :
    Visits (optionMeetings known enclosing value) fun order =>
      markOptionIdentifiersEscaping order value := by
  cases value with
  | none => exact visits_nil
  | some value => exact visits_mark known enclosing value

end Expressions

mutual

theorem visits_statements (known enclosing : List String) (statements : List Statement) :
    VisitsScoped (statementsMeetings known enclosing statements) fun order =>
      analyzeStatements order statements :=
  match statements with
  | [] => visitsScoped_nil
  | statement :: rest =>
      (visits_statement known enclosing statement).append (visits_statements known enclosing rest)
        (acts_statements rest)

theorem visits_statement (known enclosing : List String) (statement : Statement) :
    VisitsScoped (statementMeetings known enclosing statement) fun order =>
      analyzeStatement order statement :=
  match statement with
  | .variableDecl _ _ _ pattern value =>
      visitsScoped_of (fun scope => scope.declarePattern pattern) fun scope =>
        (visits_option known enclosing value scope).before (acts_declarationAlias pattern value)
  | .returnStatement _ value => visitsScoped_of id fun _ => visits_markOption known enclosing value
  | .functionDecl _ name params body =>
      visitsScoped_of (fun scope => scope.declare name) fun scope =>
        (visits_statements (declareStatementNames (declareParameters known params) body)
          (bodyNames "" params body ++ enclosing) body).report
            ((scope.declare name).newScope.declareParameters params)
  | .block _ statements =>
      visitsScoped_of id fun scope =>
        (visits_statements (declareStatementNames known statements)
          (scopeNames statements ++ enclosing) statements).report scope.newScope
  | .expressionStatement _ expression =>
      visitsScoped_of id fun scope => visits_expression known enclosing expression scope
  | .assignment _ target _ value =>
      visitsScoped_of id fun scope =>
        (@Visits.after _ (fun order =>
            markOuterAssignmentEscaping scope target (markExpressionIdentifiersEscaping order value)) _
          (visits_expression known enclosing target scope)).append
            (visits_expression known enclosing value scope) (acts_expression value scope)
  | .ifStatement _ condition consequence alternative =>
      visitsScoped_of id fun scope =>
        ((visits_expression known enclosing condition scope).append
          ((visits_statements known (scopeNames consequence ++ enclosing) consequence).report
            scope.newScope) ((acts_statements consequence).report scope.newScope)).append
          ((visits_statements known (scopeNames alternative ++ enclosing) alternative).report
            scope.newScope) ((acts_statements alternative).report scope.newScope)
  | .whileStatement _ condition body =>
      visitsScoped_of id fun scope =>
        (visits_expression known enclosing condition scope).append
          ((visits_statements known (scopeNames body ++ enclosing) body).report scope.newScope)
          ((acts_statements body).report scope.newScope)
  | .forStatement _ init condition update body => by
      have hinit := visits_optionStatement known (optionNames init ++ enclosing) init
      have hcondition := visitsScoped_of id fun scope =>
        visits_option known (optionNames init ++ enclosing) condition scope
      have hupdate := visits_optionStatement known (optionNames init ++ enclosing) update
      have hbody := (visits_statements known (scopeNames body ++ (optionNames init ++ enclosing))
        body).inScope Scope.newScope
      have hloop := ((hinit.append hcondition
        (actsScoped_of id fun scope => acts_option condition scope)).append hupdate
          (acts_optionStatement update)).append hbody
            ((actsScoped_of Scope.newScope fun _ => acts_id).andThen (acts_statements body))
      refine visitsScoped_of id fun scope => (hloop.report scope.newScope).mono ?_
      intro meeting hmet
      simp only [statementMeetings, List.mem_append] at hmet ⊢
      tauto
  | .empty _ | .classDecl .. | .importDecl .. | .exportDecl .. | .doWhileStatement ..
  | .forInStatement .. | .forOfStatement .. | .switchStatement .. | .labeledStatement ..
  | .breakStatement .. | .continueStatement .. | .throwStatement .. | .tryStatement ..
  | .debugger _ => visitsScoped_nil

theorem visits_optionStatement (known enclosing : List String) (statement : Option Statement) :
    VisitsScoped (optionStatementMeetings known enclosing statement) fun order =>
      analyzeOptionStatement order statement :=
  match statement with
  | none => visitsScoped_nil
  | some statement => visits_statement known enclosing statement

end

theorem escapes_of_sees {statements : List Statement} {meeting : Meeting} {name : String}
    (hmet : meeting ∈ meetings statements) (hne : name ≠ "")
    (hlocal : name ∉ meeting.analyzedLocals) (hsees : Sees meeting.occurrences name) :
    (analyze statements).escapes name = true := by
  have hmarks := Meeting.marks_marking hne hlocal hsees
  have hvisits := visits_statements (declareStatementNames [] statements) (scopeNames statements)
    statements meeting hmet name hmarks
  exact List.contains_iff_mem.mpr (hvisits .listed Report.new (Scope.newScope []))

end Jayess.Lifetime
