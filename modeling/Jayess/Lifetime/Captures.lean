import Jayess.Lifetime.FreeVariables

/-!
# What closures capture

The captured names of a function are its identifiers at the places the collection looks at, and the
plan gets the environments of the functions the walk meets, in order.
-/

namespace Jayess.Lifetime

section Captured

variable {scope locals bound : List String} {name : String}

def Sees (occurrences : List Occurrence) (name : String) : Prop :=
  ∃ occurrence ∈ occurrences, occurrence.seen = true ∧ occurrence.name = name

theorem sees_nil : Sees [] name ↔ False := by
  simp [Sees]

theorem sees_append (first second : List Occurrence) :
    Sees (first ++ second) name ↔ Sees first name ∨ Sees second name := by
  simp only [Sees, List.mem_append, or_and_right, exists_or]

theorem sees_hide (occurrences : List Occurrence) : Sees (hide occurrences) name ↔ False := by
  simp [Sees, hide]

theorem sees_identifier (pos : SourcePos) (used : String) :
    Sees (Expression.occurrences bound (.identifier pos used)) name ↔ used = name := by
  simp [Sees, Expression.occurrences]

theorem mem_addCaptured (used : String) (captured : List String) :
    name ∈ addCaptured scope locals used captured ↔
      name ∈ captured ∨ (name ∈ scope ∧ name ∉ locals) ∧ used = name := by
  rw [addCaptured]
  split
  · rename_i hcaptures
    rw [Bool.and_eq_true, Bool.not_eq_true', ← Bool.not_eq_true, List.contains_iff_mem,
      List.contains_iff_mem] at hcaptures
    rw [List.mem_insert_iff]
    constructor
    · rintro (rfl | hmem)
      · exact .inr ⟨hcaptures, rfl⟩
      · exact .inl hmem
    · rintro (hmem | ⟨-, rfl⟩)
      · exact .inr hmem
      · exact .inl rfl
  · rename_i hcaptures
    rw [Bool.and_eq_true, Bool.not_eq_true', ← Bool.not_eq_true, List.contains_iff_mem,
      List.contains_iff_mem] at hcaptures
    refine ⟨.inl, fun h => h.elim id ?_⟩
    rintro ⟨hname, rfl⟩
    exact absurd hname hcaptures

def Adds (scope locals : List String) (collect : List String → List String)
    (occurrences : List Occurrence) : Prop :=
  ∀ captured name, name ∈ collect captured ↔
    name ∈ captured ∨ (name ∈ scope ∧ name ∉ locals) ∧ Sees occurrences name

theorem adds_nil : Adds scope locals id [] := by
  intro captured name
  simp [sees_nil]

theorem Adds.append {first second : List String → List String} {early late : List Occurrence}
    (hfirst : Adds scope locals first early) (hsecond : Adds scope locals second late) :
    Adds scope locals (fun captured => second (first captured)) (early ++ late) := by
  intro captured name
  rw [hsecond, hfirst, sees_append]
  tauto

theorem adds_hidden (occurrences : List Occurrence) : Adds scope locals id (hide occurrences) := by
  intro captured name
  simp [sees_hide]

mutual

theorem adds_expression (expression : Expression) :
    Adds scope locals (collectCapturedExpressionNames scope locals expression)
      (Expression.occurrences bound expression) :=
  match expression with
  | .identifier pos used => by
      intro captured name
      rw [collectCapturedExpressionNames, mem_addCaptured, sees_identifier]
  | .binary _ _ left right | .logical _ _ left right =>
      (adds_expression left).append (adds_expression right)
  | .conditional _ condition consequent alternative =>
      ((adds_expression condition).append (adds_expression consequent)).append
        (adds_expression alternative)
  | .arrayLiteral _ elements => adds_elements elements
  | .objectLiteral _ properties => adds_properties properties
  | .comparison .. | .nullishCoalesce .. | .comma .. | .instanceof .. | .index .. | .unary ..
  | .update .. | .typeof .. | .await .. | .spread .. | .member .. | .yield .. | .templateLiteral ..
  | .call .. | .invoke .. | .newExpression .. | .functionExpression .. => adds_hidden _
  | .thisExpression _ | .superExpression _ | .numberLiteral .. | .bigIntLiteral ..
  | .stringLiteral .. | .booleanLiteral .. | .nullLiteral _ | .undefinedLiteral _ | .importMeta _
  | .newTarget _ => adds_nil

theorem adds_elements (elements : List (Option Expression)) :
    Adds scope locals (collectCapturedElements scope locals elements)
      (elementOccurrences bound elements) :=
  match elements with
  | [] => adds_nil
  | none :: rest => adds_elements rest
  | some element :: rest => (adds_expression element).append (adds_elements rest)

theorem adds_properties (properties : List ObjectProperty) :
    Adds scope locals (collectCapturedProperties scope locals properties)
      (propertyOccurrences bound properties) :=
  match properties with
  | [] => adds_nil
  | ⟨_, _, value, _, _⟩ :: rest =>
      ((adds_hidden _).append (adds_expression value)).append (adds_properties rest)

end

theorem adds_option (value : Option Expression) :
    Adds scope locals (collectCapturedOption scope locals value) (optionOccurrences bound value) := by
  cases value with
  | none => exact adds_nil
  | some value => exact adds_expression value

mutual

theorem adds_statements (bound : List String) (statements : List Statement) :
    Adds scope locals (collectCapturedStatementNames scope locals statements)
      (statementOccurrences bound statements) :=
  match statements with
  | [] => adds_nil
  | statement :: rest => (adds_statement bound statement).append (adds_statements bound rest)

theorem adds_statement (bound : List String) (statement : Statement) :
    Adds scope locals (collectCapturedStatement scope locals statement)
      (Statement.occurrences bound statement) :=
  match statement with
  | .variableDecl _ _ _ _ value => (adds_hidden _).append (adds_option value)
  | .returnStatement _ value => adds_option value
  | .expressionStatement _ expression => adds_expression expression
  | .assignment _ target _ value => (adds_expression target).append (adds_expression value)
  | .block _ statements => adds_statements (scopeNames statements ++ bound) statements
  | .functionDecl .. | .classDecl .. | .exportDecl .. | .ifStatement .. | .whileStatement ..
  | .doWhileStatement .. | .forStatement .. | .forOfStatement .. | .forInStatement ..
  | .switchStatement .. | .labeledStatement .. | .throwStatement .. | .tryStatement .. =>
      adds_hidden _
  | .empty _ | .importDecl .. | .breakStatement .. | .continueStatement .. | .debugger _ => adds_nil

end

end Captured

namespace Meeting

variable {mapOrder : MapOrder} {meeting : Meeting} {name : String}

def captured (mapOrder : MapOrder) (meeting : Meeting) : List String :=
  capturedNames mapOrder meeting.known meeting.name meeting.params meeting.body
    meeting.expressionBody

/-- The names the walk takes for locals of the function. -/
def locals (meeting : Meeting) : List String :=
  functionNames meeting.name meeting.params meeting.body

/-- The function captures the name: it stands where the collection looks, the walk knows it and does
not take it for a local. -/
def Captures (meeting : Meeting) (name : String) : Prop :=
  (name ∈ meeting.known ∧ name ∉ meeting.locals) ∧ Sees meeting.occurrences name

theorem mem_captured : name ∈ meeting.captured mapOrder ↔ meeting.Captures name := by
  rw [Captures]
  rw [captured, capturedNames, (mapOrder.perm _).mem_iff,
    adds_statements (bodyNames meeting.name meeting.params meeting.body),
    @adds_option _ _ (bodyNames meeting.name meeting.params meeting.body), occurrences,
    sees_append, sees_append, sees_hide]
  simp only [List.not_mem_nil, false_or]
  rw [← and_or_left]
  rfl

theorem closureCaptures_bindings (mutated : List String) (plan : Plan) (names : List String)
    (slots : Slots) :
    (closureCaptures mutated plan names slots).1.map ClosureCapture.binding = names := by
  induction names generalizing slots with
  | nil => rfl
  | cons name names ih =>
      rw [closureCaptures]
      exact congrArg (name :: ·) (ih _)

/-- The environment that the plan gets where the walk meets the function, if any: it stands at the
function's position and captures the free variables that the enclosing scopes bind; there is none
exactly when no variable is free. -/
def Recorded (mapOrder : MapOrder) (meeting : Meeting) (collection : Collection) : Prop :=
  ∃ added : Option ClosureEnvironment,
    (meeting.collect mapOrder collection).plan.closureEnvironments =
        collection.plan.closureEnvironments ++ added.toList ∧
      (added = none ↔ ∀ name, ¬meeting.IsFree name) ∧
      ∀ environment ∈ added, environment.line = meeting.pos.line ∧
        environment.column = meeting.pos.column ∧
        ∀ name, name ∈ environment.captures.map ClosureCapture.binding ↔ meeting.IsFree name

theorem collect_environments (mapOrder : MapOrder) (meeting : Meeting) (collection : Collection) :
    (meeting.captured mapOrder = [] ∧ meeting.collect mapOrder collection = collection) ∨
      (meeting.captured mapOrder ≠ [] ∧ ∃ environment : ClosureEnvironment,
        (meeting.collect mapOrder collection).plan.closureEnvironments =
          collection.plan.closureEnvironments ++ [environment] ∧
        environment.line = meeting.pos.line ∧ environment.column = meeting.pos.column ∧
        environment.captures.map ClosureCapture.binding = meeting.captured mapOrder) := by
  rw [collect, addClosureEnvironment]
  by_cases hnone : (meeting.captured mapOrder).isEmpty
  · left
    refine ⟨List.isEmpty_iff.mp hnone, ?_⟩
    exact if_pos hnone
  · right
    refine ⟨fun h => hnone (List.isEmpty_iff.mpr h), ?_⟩
    rw [captured] at hnone
    simp only [if_neg hnone]
    refine ⟨_, rfl, rfl, rfl, ?_⟩
    exact closureCaptures_bindings _ _ _ _

theorem recorded_iff (mapOrder : MapOrder) (meeting : Meeting) (collection : Collection) :
    meeting.Recorded mapOrder collection ↔
      ∀ name, name ∈ meeting.captured mapOrder ↔ meeting.IsFree name := by
  obtain ⟨hnone, hcollect⟩ | ⟨hsome, environment, hlisted, hline, hcolumn, hcaptures⟩ :=
    collect_environments mapOrder meeting collection
  · rw [Recorded, hcollect, hnone]
    constructor
    · rintro ⟨added, hadded, hempty, -⟩ name
      have hadded : added = none := by
        cases added with
        | none => rfl
        | some environment => simp at hadded
      simpa using hempty.mp hadded name
    · intro hcaptured
      exact ⟨none, by simp, by simpa using hcaptured, by simp⟩
  · rw [Recorded, hlisted]
    constructor
    · rintro ⟨added, hadded, -, hright⟩ name
      cases added with
      | none => simp at hadded
      | some other =>
          simp only [Option.toList_some, List.append_cancel_left_eq, List.cons.injEq,
            and_true] at hadded
          obtain ⟨-, -, hnames⟩ := hright other rfl
          rw [← hcaptures, hadded]
          exact hnames name
    · intro hcaptured
      refine ⟨some environment, rfl, ?_, ?_⟩
      · obtain ⟨name, hname⟩ := List.exists_mem_of_ne_nil _ hsome
        simp only [reduceCtorEq, false_iff, not_forall, not_not]
        exact ⟨name, (hcaptured name).mp hname⟩
      · rintro other ⟨rfl⟩
        refine ⟨hline, hcolumn, fun name => ?_⟩
        rw [hcaptures]
        exact hcaptured name

/-- The collection finds exactly the free variables of the function: each of them stands at a place
the collection looks at, the walk knows it and does not take it for a local, and every other name it
finds and knows is taken for a local. -/
structure Collectable (meeting : Meeting) : Prop where
  seen : ∀ name, meeting.IsFree name → Sees meeting.occurrences name
  known : ∀ name, meeting.IsFree name → name ∈ meeting.known
  notLocal : ∀ name, meeting.IsFree name → name ∉ meeting.locals
  free : ∀ name, Sees meeting.occurrences name → name ∈ meeting.known → name ∉ meeting.locals →
    meeting.IsFree name

theorem collectable_iff (mapOrder : MapOrder) (meeting : Meeting) :
    meeting.Collectable ↔ ∀ name, name ∈ meeting.captured mapOrder ↔ meeting.IsFree name := by
  simp only [mem_captured, Captures]
  constructor
  · intro hcollectable name
    constructor
    · rintro ⟨⟨hknown, hlocal⟩, hsees⟩
      exact hcollectable.free name hsees hknown hlocal
    · intro hfree
      exact ⟨⟨hcollectable.known name hfree, hcollectable.notLocal name hfree⟩,
        hcollectable.seen name hfree⟩
  · intro hnames
    refine ⟨fun name h => ?_, fun name h => ?_, fun name h => ?_, fun name hsees hknown hlocal => ?_⟩
    · exact ((hnames name).mpr h).2
    · exact ((hnames name).mpr h).1.1
    · exact ((hnames name).mpr h).1.2
    · exact (hnames name).mp ⟨⟨hknown, hlocal⟩, hsees⟩

end Meeting

section Walk

variable {mapOrder : MapOrder}

def Meets (mapOrder : MapOrder) (walk : Collection → Collection) (met : List Meeting) : Prop :=
  ∀ collection, walk collection = met.foldl (Meeting.collect mapOrder) collection

theorem Meets.append {first second : Collection → Collection} {early late : List Meeting}
    (hfirst : Meets mapOrder first early) (hsecond : Meets mapOrder second late) :
    Meets mapOrder (fun collection => second (first collection)) (early ++ late) := by
  intro collection
  rw [List.foldl_append, ← hfirst, ← hsecond]

theorem meets_nil : Meets mapOrder id [] := fun _ => rfl

mutual

theorem meets_expression (known enclosing : List String) (expression : Expression) :
    Meets mapOrder (collectExpressionClosureEnvironments mapOrder expression known)
      (expressionMeetings known enclosing expression) :=
  match expression with
  | .functionExpression .. => fun _ => rfl
  | .binary _ _ left right | .logical _ _ left right =>
      (meets_expression known enclosing left).append (meets_expression known enclosing right)
  | .conditional _ condition consequent alternative =>
      ((meets_expression known enclosing condition).append
        (meets_expression known enclosing consequent)).append
          (meets_expression known enclosing alternative)
  | .arrayLiteral _ elements => meets_elements known enclosing elements
  | .objectLiteral _ properties => meets_properties known enclosing properties
  | .call _ _ arguments => meets_arguments known enclosing arguments
  | .invoke _ callee arguments _ =>
      (meets_expression known enclosing callee).append (meets_arguments known enclosing arguments)
  | .identifier .. | .thisExpression _ | .superExpression _ | .numberLiteral .. | .bigIntLiteral ..
  | .stringLiteral .. | .templateLiteral .. | .booleanLiteral .. | .nullLiteral _
  | .undefinedLiteral _ | .importMeta _ | .newExpression .. | .newTarget _ | .comparison ..
  | .nullishCoalesce .. | .comma .. | .unary .. | .update .. | .typeof .. | .await .. | .yield ..
  | .instanceof .. | .index .. | .member .. | .spread .. => meets_nil

theorem meets_elements (known enclosing : List String) (elements : List (Option Expression)) :
    Meets mapOrder (collectElementClosureEnvironments mapOrder elements known)
      (elementMeetings known enclosing elements) :=
  match elements with
  | [] => meets_nil
  | none :: rest => meets_elements known enclosing rest
  | some element :: rest =>
      (meets_expression known enclosing element).append (meets_elements known enclosing rest)

theorem meets_properties (known enclosing : List String) (properties : List ObjectProperty) :
    Meets mapOrder (collectPropertyClosureEnvironments mapOrder properties known)
      (propertyMeetings known enclosing properties) :=
  match properties with
  | [] => meets_nil
  | ⟨_, _, value, _, _⟩ :: rest =>
      (meets_expression known enclosing value).append (meets_properties known enclosing rest)

theorem meets_arguments (known enclosing : List String) (arguments : List Expression) :
    Meets mapOrder (collectArgumentClosureEnvironments mapOrder arguments known)
      (argumentMeetings known enclosing arguments) :=
  match arguments with
  | [] => meets_nil
  | argument :: rest =>
      (meets_expression known enclosing argument).append (meets_arguments known enclosing rest)

end

theorem meets_option (known enclosing : List String) (value : Option Expression) :
    Meets mapOrder (collectOptionClosureEnvironments mapOrder value known)
      (optionMeetings known enclosing value) := by
  cases value with
  | none => exact meets_nil
  | some value => exact meets_expression known enclosing value

mutual

theorem meets_statements (known enclosing : List String) (statements : List Statement) :
    Meets mapOrder (collectStatementClosureEnvironments mapOrder statements known)
      (statementsMeetings known enclosing statements) :=
  match statements with
  | [] => meets_nil
  | statement :: rest =>
      (meets_statement known enclosing statement).append (meets_statements known enclosing rest)

theorem meets_statement (known enclosing : List String) (statement : Statement) :
    Meets mapOrder (collectOneClosureEnvironments mapOrder statement known)
      (statementMeetings known enclosing statement) :=
  match statement with
  | .variableDecl _ _ _ _ value | .returnStatement _ value => meets_option known enclosing value
  | .functionDecl _ _ params body =>
      meets_statements (declareStatementNames (declareParameters known params) body)
        (bodyNames "" params body ++ enclosing) body
  | .block _ statements =>
      meets_statements (declareStatementNames known statements) (scopeNames statements ++ enclosing)
        statements
  | .expressionStatement _ expression => meets_expression known enclosing expression
  | .assignment _ target _ value =>
      (meets_expression known enclosing target).append (meets_expression known enclosing value)
  | .ifStatement _ condition consequence alternative =>
      ((meets_expression known enclosing condition).append
        (meets_statements known (scopeNames consequence ++ enclosing) consequence)).append
          (meets_statements known (scopeNames alternative ++ enclosing) alternative)
  | .whileStatement _ condition body =>
      (meets_expression known enclosing condition).append
        (meets_statements known (scopeNames body ++ enclosing) body)
  | .forStatement _ init condition update body =>
      (((meets_optionStatement known (optionNames init ++ enclosing) init).append
        (meets_optionStatement known (optionNames init ++ enclosing) update)).append
          (meets_option known (optionNames init ++ enclosing) condition)).append
            (meets_statements known (scopeNames body ++ (optionNames init ++ enclosing)) body)
  | .empty _ | .classDecl .. | .importDecl .. | .exportDecl .. | .doWhileStatement ..
  | .forInStatement .. | .forOfStatement .. | .switchStatement .. | .labeledStatement ..
  | .breakStatement .. | .continueStatement .. | .throwStatement .. | .tryStatement ..
  | .debugger _ => meets_nil

theorem meets_optionStatement (known enclosing : List String) (statement : Option Statement) :
    Meets mapOrder (collectMissingClosureEnvironments mapOrder statement known)
      (optionStatementMeetings known enclosing statement) :=
  match statement with
  | none => meets_nil
  | some statement => meets_statement known enclosing statement

end

end Walk

def startCollection (mapOrder : MapOrder) (statements : List Statement) : Collection :=
  ⟨collectStatementCleanups mapOrder (Escape.analyze statements) statements 0 ⟨[], [], []⟩, []⟩

/-- The plan of a program is what the walk makes of the functions it meets, and each of them gets the
environment of its free variables. -/
structure CapturesFreeVariables (mapOrder : MapOrder) (statements : List Statement) : Prop where
  plan : buildScopeExitPlan mapOrder statements =
    ((meetings statements).foldl (Meeting.collect mapOrder)
      (startCollection mapOrder statements)).plan
  recorded : ∀ before meeting after, meetings statements = before ++ meeting :: after →
    meeting.Recorded mapOrder
      (before.foldl (Meeting.collect mapOrder) (startCollection mapOrder statements))

theorem buildScopeExitPlan_eq (mapOrder : MapOrder) (statements : List Statement) :
    buildScopeExitPlan mapOrder statements =
      ((meetings statements).foldl (Meeting.collect mapOrder)
        (startCollection mapOrder statements)).plan := by
  rw [meetings, ← meets_statements]
  rfl

theorem capturesFreeVariables_iff (mapOrder : MapOrder) (statements : List Statement) :
    CapturesFreeVariables mapOrder statements ↔
      ∀ meeting ∈ meetings statements, meeting.Collectable := by
  constructor
  · intro hcaptures meeting hmet
    obtain ⟨before, after, hsplit⟩ := List.append_of_mem hmet
    rw [Meeting.collectable_iff mapOrder, ← Meeting.recorded_iff]
    exact hcaptures.recorded before meeting after hsplit
  · intro hcollectable
    refine ⟨buildScopeExitPlan_eq mapOrder statements, fun before meeting after hsplit => ?_⟩
    rw [Meeting.recorded_iff, ← Meeting.collectable_iff]
    exact hcollectable meeting (by simp [hsplit])

/-- `var x = 1; () => x.y;` -/
def readsMember : List Statement :=
  [.variableDecl ⟨1, 1⟩ .var "x" (some (.name "x")) (some (.numberLiteral ⟨1, 9⟩ "1")),
    .expressionStatement ⟨2, 1⟩ (.functionExpression ⟨2, 1⟩ "" [] []
      (some (.member ⟨2, 7⟩ (.identifier ⟨2, 7⟩ "x") "y" false false)))]

/-- The collection passes over the member read, so the function gets no environment. -/
theorem readsMember_uncaptured : ¬CapturesFreeVariables .insertion readsMember := by
  intro hcaptures
  have hrecorded := hcaptures.recorded [] _ [] rfl
  rw [Meeting.recorded_iff] at hrecorded
  have hfree := (hrecorded "x").mpr ⟨⟨⟨"x", false, false⟩, by decide, rfl, rfl⟩, by decide⟩
  exact absurd hfree (by decide)

end Jayess.Lifetime
