import Jayess.Backend.StatementEmitter
import Jayess.Lifetime.Declarations

/-!
# Plans and the order of maps
-/

namespace Jayess.Lifetime

open Escape (AliasOrder Report)

/-! ## Plans for given orders -/

/-- An order for each range over a map: for the names of each declaration that the walk for scope exits
meets, for the captured names of each function that the walk for closures meets, and for the aliases of
a name. -/
structure RangeOrders where
  declared : Nat → MapOrder
  captured : Nat → MapOrder
  aliases : AliasOrder

/-- One order for all names. -/
def RangeOrders.same (mapOrder : MapOrder) : RangeOrders :=
  ⟨fun _ => mapOrder, fun _ => mapOrder, .listed⟩

namespace RangeOrders

def planDeclared (orders : RangeOrders) (report : Report) (plan : Plan) (met : Declared × Nat) : Plan :=
  met.1.plan (orders.declared met.2) report plan

def collect (orders : RangeOrders) (collection : Collection) (met : Meeting × Nat) : Collection :=
  met.1.collect (orders.captured met.2) collection

/-- The scope exits, along the declarations. -/
def exits (orders : RangeOrders) (statements : List Statement) : Plan :=
  (statementsDeclared 0 statements).zipIdx.foldl
    (orders.planDeclared (Escape.analyzeIn orders.aliases statements)) ⟨[], [], []⟩

end RangeOrders

/-- `BuildScopeExitPlan`, along what its walks meet. -/
def planInOrders (orders : RangeOrders) (statements : List Statement) : Plan :=
  ((meetings statements).zipIdx.foldl orders.collect ⟨orders.exits statements, []⟩).plan

theorem foldl_zipIdx {α β : Type} {f : β → α × Nat → β} {g : β → α → β} (met : List α)
    (hsame : ∀ element ∈ met, ∀ state index, f state (element, index) = g state element) (start : β)
    (index : Nat) : (met.zipIdx index).foldl f start = met.foldl g start := by
  induction met generalizing start index with
  | nil => rfl
  | cons element met ih =>
      rw [List.forall_mem_cons] at hsame
      rw [List.zipIdx_cons, List.foldl_cons, List.foldl_cons, hsame.1]
      exact ih hsame.2 _ _

theorem planInOrders_same (mapOrder : MapOrder) (statements : List Statement) :
    planInOrders (.same mapOrder) statements = buildScopeExitPlan mapOrder statements := by
  have hexits : startCollection mapOrder statements =
      ⟨(statementsDeclared 0 statements).foldl
        (Declared.plan mapOrder (Escape.analyze statements)) ⟨[], [], []⟩, []⟩ :=
    congrArg (Collection.mk · []) (declares_statements statements 0 _)
  have hdeclared : (RangeOrders.same mapOrder).exits statements =
      (statementsDeclared 0 statements).foldl (Declared.plan mapOrder (Escape.analyze statements))
        ⟨[], [], []⟩ := foldl_zipIdx _ (fun _ _ _ _ => rfl) _ 0
  rw [buildScopeExitPlan_eq, hexits, planInOrders, hdeclared]
  exact congrArg Collection.plan (foldl_zipIdx _ (fun _ _ _ _ => rfl) _ 0)

/-- Names with one fate are one name. -/
def Declared.Single (report : Report) (declared : Declared) : Prop :=
  ∀ first ∈ patternNames declared.pattern, ∀ second ∈ patternNames declared.pattern,
    (Outlives report declared.depth first ↔ Outlives report declared.depth second) → first = second

namespace Meeting

/-- At most one name is captured. -/
def Single (meeting : Meeting) : Prop :=
  ∀ first second, meeting.Captures first → meeting.Captures second → first = second

end Meeting

theorem eq_of_perm_of_forall_eq {α : Type} {first second : List α} (hperm : first.Perm second)
    (hequal : ∀ left ∈ second, ∀ right ∈ second, left = right) : first = second := by
  cases second with
  | nil => exact List.perm_nil.mp hperm
  | cons head rest =>
      have hrest : head :: rest = List.replicate (head :: rest).length head :=
        List.eq_replicate_of_mem fun element helement =>
          hequal element helement head List.mem_cons_self
      rw [hrest] at hperm ⊢
      exact List.perm_replicate.mp hperm

section Orders

variable {order order' : MapOrder} {report report' : Report}

theorem outlives_congr (hsame : report.Same report') (depth : Nat) (name : String) :
    Outlives report depth name ↔ Outlives report' depth name := by
  rw [Outlives, Outlives, hsame.escapes]

theorem Declared.plan_congr {declared : Declared} (hsingle : declared.Single report')
    (hsame : report.Same report') (plan : Plan) :
    declared.plan order report plan = declared.plan order' report' plan := by
  have hnames : (declared.names order).Perm (declared.names order') :=
    ((order.perm _).trans (order'.perm _).symm)
  have hextended : declared.extended order report = declared.extended order' report' := by
    have hcongr : (declared.names order).filter (fun name => Outlives report declared.depth name) =
        (declared.names order).filter (fun name => Outlives report' declared.depth name) :=
      List.filter_congr fun name _ => decide_eq_decide.mpr (outlives_congr hsame _ name)
    rw [Declared.extended, Declared.extended, hcongr]
    refine congrArg _ (eq_of_perm_of_forall_eq (hnames.filter _) ?_)
    intro left hleft right hright
    rw [List.mem_filter, mem_names, decide_eq_true_eq] at hleft hright
    exact hsingle left hleft.1 right hright.1 (iff_of_true hleft.2 hright.2)
  have hcleanups : declared.cleanups order report = declared.cleanups order' report' := by
    have hcongr : (declared.names order).filter (fun name => ¬Outlives report declared.depth name) =
        (declared.names order).filter (fun name => ¬Outlives report' declared.depth name) :=
      List.filter_congr fun name _ =>
        decide_eq_decide.mpr (not_congr (outlives_congr hsame _ name))
    rw [Declared.cleanups, Declared.cleanups, hcongr]
    refine congrArg _ (eq_of_perm_of_forall_eq (hnames.filter _) ?_)
    intro left hleft right hright
    rw [List.mem_filter, mem_names, decide_eq_true_eq] at hleft hright
    exact hsingle left hleft.1 right hright.1 (iff_of_false hleft.2 hright.2)
  rw [Declared.plan_eq, Declared.plan_eq, hextended, hcleanups]

theorem Meeting.collect_congr {meeting : Meeting} (hsingle : meeting.Single)
    (collection : Collection) : meeting.collect order collection = meeting.collect order' collection := by
  have hcaptured : meeting.captured order = meeting.captured order' := by
    refine eq_of_perm_of_forall_eq ((order.perm _).trans (order'.perm _).symm) ?_
    intro left hleft right hright
    exact hsingle left right (mem_captured.mp hleft) (mem_captured.mp hright)
  rw [Meeting.captured, Meeting.captured] at hcaptured
  rw [Meeting.collect, Meeting.collect, addClosureEnvironment, addClosureEnvironment, hcaptured]

theorem planInOrders_of_single {statements : List Statement}
    (hdeclared : ∀ declared ∈ statementsDeclared 0 statements,
      declared.Single (Escape.analyze statements))
    (hcaptured : ∀ meeting ∈ meetings statements, meeting.Single) (orders : RangeOrders) :
    planInOrders orders statements = buildScopeExitPlan .insertion statements := by
  have hexits : orders.exits statements = scopeExits .insertion statements := by
    rw [scopeExits, declares_statements]
    exact foldl_zipIdx _ (fun declared hmet plan index => Declared.plan_congr (hdeclared declared hmet)
      (Escape.same_analyzeIn _ _ statements) plan) _ 0
  rw [planInOrders, buildScopeExitPlan_eq, hexits]
  exact congrArg Collection.plan (foldl_zipIdx _ (fun meeting hmet collection index =>
    Meeting.collect_congr (hcaptured meeting hmet) collection) _ 0)

end Orders

section Lists

variable {order order' : MapOrder} {statements : List Statement}

/-- The names that an environment captures. -/
def ClosureEnvironment.names (environment : ClosureEnvironment) : List String :=
  environment.captures.map ClosureCapture.binding

def Meeting.environmentNames (order : MapOrder) (meeting : Meeting) : List (List String) :=
  if meeting.captured order = [] then [] else [meeting.captured order]

theorem names_foldl (met : List Meeting) (collection : Collection) :
    (met.foldl (Meeting.collect order) collection).plan.closureEnvironments.map
        ClosureEnvironment.names =
      collection.plan.closureEnvironments.map ClosureEnvironment.names ++
        met.flatMap (Meeting.environmentNames order) := by
  induction met generalizing collection with
  | nil => simp
  | cons meeting met ih =>
      rw [List.foldl_cons, ih, List.flatMap_cons, ← List.append_assoc]
      congr 1
      rcases Meeting.collect_environments order meeting collection with
        ⟨hnone, heq⟩ | ⟨hsome, environment, heq, -, -, hnames⟩
      · rw [heq, Meeting.environmentNames, if_pos hnone, List.append_nil]
      · rw [heq, Meeting.environmentNames, if_neg hsome, List.map_append]
        exact congrArg (_ ++ [·]) hnames

theorem names_plan : (buildScopeExitPlan order statements).closureEnvironments.map
    ClosureEnvironment.names = (meetings statements).flatMap (Meeting.environmentNames order) := by
  have hexits : startCollection order statements = ⟨scopeExits order statements, []⟩ := rfl
  rw [buildScopeExitPlan_eq, names_foldl, hexits, scopeExits_eq]
  rfl

theorem eq_of_flatMap_eq {α β : Type} {f g : α → List β} {met : List α}
    (hlength : ∀ element ∈ met, (f element).length = (g element).length)
    (heq : met.flatMap f = met.flatMap g) : ∀ element ∈ met, f element = g element := by
  induction met with
  | nil => simp
  | cons element met ih =>
      rw [List.forall_mem_cons] at hlength ⊢
      rw [List.flatMap_cons, List.flatMap_cons] at heq
      obtain ⟨hfirst, hrest⟩ := List.append_inj heq hlength.1
      exact ⟨hfirst, ih hlength.2 hrest⟩

end Lists

/-- A name comes first wherever it is. -/
def firstOrder (name : String) : MapOrder where
  range keys := if name ∈ keys then name :: keys.erase name else keys
  perm keys := by
    split
    · rename_i hname
      exact (List.perm_cons_erase hname).symm
    · exact .refl _

theorem range_first {name : String} {keys : List String} (hname : name ∈ keys) :
    (firstOrder name).range keys = name :: keys.erase name := if_pos hname

section Single

variable {statements : List Statement} {declared : Declared} {first second : String}

theorem Declared.names_first (hfirst : first ∈ patternNames declared.pattern) :
    declared.names (firstOrder first) = first :: (patternNames declared.pattern).dedup.erase first :=
  range_first (List.mem_dedup.mpr hfirst)

theorem Meeting.captured_first {meeting : Meeting} (hfirst : meeting.Captures first) :
    ∃ rest, meeting.captured (firstOrder first) = first :: rest := by
  have hmem : first ∈ meeting.captured .insertion := mem_captured.mpr hfirst
  exact ⟨_, range_first hmem⟩

theorem eq_of_extended (hsame : (buildScopeExitPlan (firstOrder first) statements).extendedLifetimes =
      (buildScopeExitPlan (firstOrder second) statements).extendedLifetimes)
    (hmet : declared ∈ statementsDeclared 0 statements)
    (hfirst : first ∈ patternNames declared.pattern)
    (hsecond : second ∈ patternNames declared.pattern)
    (houtlives : Outlives (Escape.analyze statements) declared.depth first)
    (houtlives' : Outlives (Escape.analyze statements) declared.depth second) : first = second := by
  rw [extended_plan, extended_plan] at hsame
  have hlength : ∀ declared ∈ statementsDeclared 0 statements,
      (declared.extended (firstOrder first) (Escape.analyze statements)).length =
        (declared.extended (firstOrder second) (Escape.analyze statements)).length := by
    intro declared _
    have hnames : (declared.names (firstOrder first)).Perm (declared.names (firstOrder second)) :=
      ((firstOrder first).perm _).trans ((firstOrder second).perm _).symm
    exact ((hnames.filter _).map _).length_eq
  have heq := eq_of_flatMap_eq hlength hsame declared hmet
  rw [Declared.extended, Declared.extended, Declared.names_first hfirst,
    Declared.names_first hsecond, List.filter_cons_of_pos (by exact decide_eq_true houtlives),
    List.filter_cons_of_pos (by exact decide_eq_true houtlives'), List.map_cons, List.map_cons] at heq
  exact congrArg ExtendedLifetime.binding (List.cons.inj heq).1

theorem eq_of_cleanups (hsame : (buildScopeExitPlan (firstOrder first) statements).scopeExitCleanups =
      (buildScopeExitPlan (firstOrder second) statements).scopeExitCleanups)
    (hmet : declared ∈ statementsDeclared 0 statements)
    (hfirst : first ∈ patternNames declared.pattern)
    (hsecond : second ∈ patternNames declared.pattern)
    (hleft : ¬Outlives (Escape.analyze statements) declared.depth first)
    (hleft' : ¬Outlives (Escape.analyze statements) declared.depth second) : first = second := by
  rw [cleanups_plan, cleanups_plan] at hsame
  have hlength : ∀ declared ∈ statementsDeclared 0 statements,
      (declared.cleanups (firstOrder first) (Escape.analyze statements)).length =
        (declared.cleanups (firstOrder second) (Escape.analyze statements)).length := by
    intro declared _
    have hnames : (declared.names (firstOrder first)).Perm (declared.names (firstOrder second)) :=
      ((firstOrder first).perm _).trans ((firstOrder second).perm _).symm
    exact ((hnames.filter _).map _).length_eq
  have heq := eq_of_flatMap_eq hlength hsame declared hmet
  rw [Declared.cleanups, Declared.cleanups, Declared.names_first hfirst,
    Declared.names_first hsecond, List.filter_cons_of_pos (by exact decide_eq_true hleft),
    List.filter_cons_of_pos (by exact decide_eq_true hleft'), List.map_cons, List.map_cons] at heq
  exact congrArg Cleanup.binding (List.cons.inj heq).1

theorem eq_of_environments {meeting : Meeting}
    (hsame : (buildScopeExitPlan (firstOrder first) statements).closureEnvironments =
      (buildScopeExitPlan (firstOrder second) statements).closureEnvironments)
    (hmet : meeting ∈ meetings statements) (hfirst : meeting.Captures first)
    (hsecond : meeting.Captures second) : first = second := by
  have hnames := congrArg (List.map ClosureEnvironment.names) hsame
  rw [names_plan, names_plan] at hnames
  have hlength : ∀ meeting ∈ meetings statements,
      (Meeting.environmentNames (firstOrder first) meeting).length =
        (Meeting.environmentNames (firstOrder second) meeting).length := by
    intro meeting _
    have hperm : (meeting.captured (firstOrder first)).Perm (meeting.captured (firstOrder second)) :=
      ((firstOrder first).perm _).trans ((firstOrder second).perm _).symm
    have hnil : meeting.captured (firstOrder first) = [] ↔ meeting.captured (firstOrder second) = [] :=
      ⟨fun h => List.nil_perm.mp (h ▸ hperm), fun h => List.perm_nil.mp (h ▸ hperm)⟩
    rw [Meeting.environmentNames, Meeting.environmentNames]
    by_cases hempty : meeting.captured (firstOrder first) = []
    · rw [if_pos hempty, if_pos (hnil.mp hempty)]
    · rw [if_neg hempty, if_neg (mt hnil.mpr hempty)]
      rfl
  have heq := eq_of_flatMap_eq hlength hnames meeting hmet
  obtain ⟨rest, hrest⟩ := Meeting.captured_first hfirst
  obtain ⟨rest', hrest'⟩ := Meeting.captured_first hsecond
  rw [Meeting.environmentNames, Meeting.environmentNames, hrest, hrest',
    if_neg (List.cons_ne_nil _ _), if_neg (List.cons_ne_nil _ _)] at heq
  exact (List.cons.inj (List.cons.inj heq).1).1

end Single

/-- All orders of all maps give one plan, and so one body, if and only if no declaration has two names
with one fate and no function captures two names. -/
theorem planInOrders_eq_iff (statements : List Statement) :
    (∀ orders orders' : RangeOrders,
      planInOrders orders statements = planInOrders orders' statements ∧
        ∀ name emitterOrder,
          Backend.lowerRuntimeStatementFunctionWithLifetimePlan name statements
              (planInOrders orders statements) emitterOrder =
            Backend.lowerRuntimeStatementFunctionWithLifetimePlan name statements
              (planInOrders orders' statements) emitterOrder) ↔
      (∀ declared ∈ statementsDeclared 0 statements,
        declared.Single (Escape.analyze statements)) ∧
      ∀ meeting ∈ meetings statements, meeting.Single := by
  constructor
  · intro hsame
    have hplans : ∀ order order' : MapOrder,
        buildScopeExitPlan order statements = buildScopeExitPlan order' statements := by
      intro order order'
      rw [← planInOrders_same, ← planInOrders_same]
      exact (hsame _ _).1
    refine ⟨fun declared hmet first hfirst second hsecond hfate => ?_,
      fun meeting hmet first second hfirst hsecond => ?_⟩
    · by_cases houtlives : Outlives (Escape.analyze statements) declared.depth first
      · exact eq_of_extended (congrArg Plan.extendedLifetimes (hplans _ _)) hmet hfirst hsecond
          houtlives (hfate.mp houtlives)
      · exact eq_of_cleanups (congrArg Plan.scopeExitCleanups (hplans _ _)) hmet hfirst hsecond
          houtlives (mt hfate.mpr houtlives)
    · exact eq_of_environments (congrArg Plan.closureEnvironments (hplans _ _)) hmet hfirst hsecond
  · rintro ⟨hdeclared, hcaptured⟩ orders orders'
    have hplan : planInOrders orders statements = planInOrders orders' statements :=
      (planInOrders_of_single hdeclared hcaptured orders).trans
        (planInOrders_of_single hdeclared hcaptured orders').symm
    exact ⟨hplan, fun name emitterOrder => by rw [hplan]⟩

/-- `var a = 1; var b = 2; () => a + b;` -/
def sumsOuter : List Statement :=
  [.variableDecl ⟨1, 1⟩ .var "a" (some (.name "a")) (some (.numberLiteral ⟨1, 9⟩ "1")),
    .variableDecl ⟨2, 1⟩ .var "b" (some (.name "b")) (some (.numberLiteral ⟨2, 9⟩ "2")),
    .expressionStatement ⟨3, 1⟩ (.functionExpression ⟨3, 1⟩ "" [] []
      (some (.binary ⟨3, 7⟩ .add (.identifier ⟨3, 7⟩ "a") (.identifier ⟨3, 11⟩ "b"))))]

/-- The captured names come in two orders, with two numberings of their slots. -/
theorem sumsOuter_ordered :
    planInOrders (.same (firstOrder "a")) sumsOuter ≠
      planInOrders (.same (firstOrder "b")) sumsOuter := by
  rw [planInOrders_same, planInOrders_same]
  decide +kernel

end Jayess.Lifetime
