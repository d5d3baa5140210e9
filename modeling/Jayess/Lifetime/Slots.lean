import Jayess.Lifetime.Sites

/-!
# Shared slots
-/

namespace Jayess.Lifetime

/-- The environment that the plan gets where the walk meets a function, if any. -/
def Meeting.environments (mapOrder : MapOrder) (meeting : Meeting) (collection : Collection) :
    List ClosureEnvironment :=
  if meeting.captured mapOrder = [] then []
  else
    let mutated := mutatedCapturedNames meeting.known meeting.name meeting.params meeting.body
    [⟨meeting.pos.line, meeting.pos.column, "heap",
      (closureCaptures mutated collection.plan (meeting.captured mapOrder) collection.slots).1⟩]

def closuresOf (mapOrder : MapOrder) : List Site → Collection → List (Site × ClosureEnvironment)
  | [], _ => []
  | site :: rest, collection =>
      (site.meeting.environments mapOrder collection).map (fun environment => (site, environment)) ++
        closuresOf mapOrder rest (site.meeting.collect mapOrder collection)

/-- The environments of the plan of a program, each with the site of its function. -/
def closures (mapOrder : MapOrder) (statements : List Statement) :
    List (Site × ClosureEnvironment) :=
  closuresOf mapOrder (sites statements) (startCollection mapOrder statements)

section Closures

variable {mapOrder : MapOrder} {meeting : Meeting} {collection : Collection}

theorem collect_eq : meeting.collect mapOrder collection =
    if meeting.captured mapOrder = [] then collection
    else
      { plan := { collection.plan with
          closureEnvironments := collection.plan.closureEnvironments ++
            meeting.environments mapOrder collection }
        slots := (closureCaptures
          (mutatedCapturedNames meeting.known meeting.name meeting.params meeting.body)
          collection.plan (meeting.captured mapOrder) collection.slots).2 } := by
  by_cases hnone : meeting.captured mapOrder = []
  · rw [if_pos hnone]
    exact if_pos (List.isEmpty_iff.mpr hnone)
  · rw [if_neg hnone, Meeting.environments, if_neg hnone]
    exact if_neg (mt List.isEmpty_iff.mp hnone)

theorem environments_collect : (meeting.collect mapOrder collection).plan.closureEnvironments =
    collection.plan.closureEnvironments ++ meeting.environments mapOrder collection := by
  rw [collect_eq]
  split
  · rename_i hnone
    rw [Meeting.environments, if_pos hnone, List.append_nil]
  · rfl

theorem environments_foldl (met : List Site) (collection : Collection) :
    ((met.map Site.meeting).foldl (Meeting.collect mapOrder) collection).plan.closureEnvironments =
      collection.plan.closureEnvironments ++
        (closuresOf mapOrder met collection).map Prod.snd := by
  induction met generalizing collection with
  | nil => simp [closuresOf]
  | cons site met ih =>
      rw [List.map_cons, List.foldl_cons, ih, environments_collect, closuresOf, List.map_append,
        List.map_map, List.append_assoc]
      congr 2
      exact (List.map_id _).symm

theorem closures_environments (mapOrder : MapOrder) (statements : List Statement) :
    (buildScopeExitPlan mapOrder statements).closureEnvironments =
      (closures mapOrder statements).map Prod.snd := by
  rw [buildScopeExitPlan_eq, ← meetings_sites, environments_foldl, closures]
  have hstart : (startCollection mapOrder statements).plan.closureEnvironments = [] := by
    have hexits : startCollection mapOrder statements = ⟨scopeExits mapOrder statements, []⟩ := rfl
    rw [hexits, scopeExits_eq]
  rw [hstart, List.nil_append]

end Closures

structure Numbered (slots : Slots) : Prop where
  below : ∀ entry ∈ slots, entry.2 < slots.length
  apart : ∀ first ∈ slots, ∀ second ∈ slots, first.2 = second.2 → first.1 = second.1

/-- A later table keeps the slots. -/
def Keeps (slots later : Slots) : Prop :=
  ∀ name slot, slots.lookup name = some slot → later.lookup name = some slot

section Slots

variable {slots later last : Slots} {name : String} {slot : Nat}

theorem numbered_nil : Numbered [] :=
  ⟨fun _ hentry => absurd hentry List.not_mem_nil, fun _ hentry => absurd hentry List.not_mem_nil⟩

theorem mem_of_lookup (hlookup : slots.lookup name = some slot) : (name, slot) ∈ slots := by
  obtain ⟨before, after, rfl, -⟩ := List.lookup_eq_some_iff.mp hlookup
  exact List.mem_append_right _ List.mem_cons_self

theorem Keeps.refl : Keeps slots slots := fun _ _ hlookup => hlookup

theorem Keeps.trans (hkeeps : Keeps slots later) (hkeeps' : Keeps later last) : Keeps slots last :=
  fun name slot hlookup => hkeeps' name slot (hkeeps name slot hlookup)

theorem Numbered.eq_iff (hnumbered : Numbered slots) {other : String} {slot' : Nat}
    (hlookup : slots.lookup name = some slot) (hlookup' : slots.lookup other = some slot') :
    slot = slot' ↔ name = other := by
  constructor
  · intro heq
    exact hnumbered.apart _ (mem_of_lookup hlookup) _ (mem_of_lookup hlookup') heq
  · rintro rfl
    exact Option.some.inj (hlookup.symm.trans hlookup')

theorem sharedCaptureSlot_spec (hnumbered : Numbered slots) (name : String) :
    Numbered (sharedCaptureSlot slots name).2 ∧ Keeps slots (sharedCaptureSlot slots name).2 ∧
      (sharedCaptureSlot slots name).2.lookup name = some (sharedCaptureSlot slots name).1 := by
  unfold sharedCaptureSlot
  cases hlookup : slots.lookup name with
  | some slot => exact ⟨hnumbered, Keeps.refl, hlookup⟩
  | none =>
      refine ⟨⟨?_, ?_⟩, ?_, List.lookup_cons_self⟩
      · refine List.forall_mem_cons.mpr ⟨Nat.lt_succ_self _, fun entry hentry => ?_⟩
        exact Nat.lt_succ_of_lt (hnumbered.below entry hentry)
      · intro first hfirst second hsecond heq
        rcases List.mem_cons.mp hfirst with rfl | hfirst <;>
          rcases List.mem_cons.mp hsecond with rfl | hsecond
        · rfl
        · exact absurd heq (Nat.ne_of_gt (hnumbered.below second hsecond))
        · exact absurd heq (Nat.ne_of_lt (hnumbered.below first hfirst))
        · exact hnumbered.apart first hfirst second hsecond heq
      · intro other slot hother
        have hne : other ≠ name := by
          rintro rfl
          rw [hlookup] at hother
          cases hother
        rw [List.lookup_cons, beq_false_of_ne hne]
        exact hother

end Slots

def Slotted (slots : Slots) (captures : List ClosureCapture) : Prop :=
  ∀ capture ∈ captures, slots.lookup capture.binding = some capture.sharedSlot

section Captures

variable {mutated : List String} {plan : Plan}

theorem closureCaptures_spec (names : List String) {slots : Slots} (hnumbered : Numbered slots) :
    Numbered (closureCaptures mutated plan names slots).2 ∧
      Keeps slots (closureCaptures mutated plan names slots).2 ∧
      Slotted (closureCaptures mutated plan names slots).2
        (closureCaptures mutated plan names slots).1 := by
  induction names generalizing slots with
  | nil => exact ⟨hnumbered, Keeps.refl, fun _ hcapture => absurd hcapture List.not_mem_nil⟩
  | cons name names ih =>
      obtain ⟨hshared, hkeeps, hlookup⟩ := sharedCaptureSlot_spec hnumbered name
      obtain ⟨hrest, hkeeps', hslotted⟩ := ih hshared
      refine ⟨hrest, hkeeps.trans hkeeps', ?_⟩
      exact List.forall_mem_cons.mpr ⟨hkeeps' name _ hlookup, hslotted⟩

end Captures

section Run

variable {mapOrder : MapOrder} {statements : List Statement}

theorem Meeting.environments_captures {meeting : Meeting} {collection : Collection}
    {environment : ClosureEnvironment}
    (hmem : environment ∈ meeting.environments mapOrder collection) :
    environment.captures.map ClosureCapture.binding = meeting.captured mapOrder := by
  rw [Meeting.environments] at hmem
  split at hmem
  · exact absurd hmem List.not_mem_nil
  · rw [List.mem_singleton.mp hmem]
    exact closureCaptures_bindings _ _ _ _

theorem captures_closuresOf (met : List Site) (collection : Collection) :
    ∀ closure ∈ closuresOf mapOrder met collection, closure.1 ∈ met ∧
      closure.2.captures.map ClosureCapture.binding = closure.1.meeting.captured mapOrder := by
  induction met generalizing collection with
  | nil => exact fun _ hclosure => absurd hclosure List.not_mem_nil
  | cons site met ih =>
      intro closure hclosure
      rcases List.mem_append.mp hclosure with hclosure | hclosure
      · obtain ⟨environment, hmem, rfl⟩ := List.mem_map.mp hclosure
        exact ⟨List.mem_cons_self, Meeting.environments_captures hmem⟩
      · obtain ⟨hsite, hcaptures⟩ := ih _ closure hclosure
        exact ⟨List.mem_cons_of_mem _ hsite, hcaptures⟩

theorem exists_closureOf {met : List Site} {site : Site} (hsite : site ∈ met)
    (hsome : site.meeting.captured mapOrder ≠ []) (collection : Collection) :
    ∃ environment, (site, environment) ∈ closuresOf mapOrder met collection := by
  induction met generalizing collection with
  | nil => exact absurd hsite List.not_mem_nil
  | cons first met ih =>
      rcases List.mem_cons.mp hsite with rfl | hsite
      · obtain ⟨environment, hmem⟩ : ∃ environment,
            environment ∈ site.meeting.environments mapOrder collection := by
          rw [Meeting.environments, if_neg hsome]
          exact ⟨_, List.mem_singleton_self _⟩
        exact ⟨environment, List.mem_append_left _ (List.mem_map_of_mem hmem)⟩
      · obtain ⟨environment, hmem⟩ := ih hsite (first.meeting.collect mapOrder collection)
        exact ⟨environment, List.mem_append_right _ hmem⟩

theorem captures_iff {site : Site} {name : String} :
    (site ∈ sites statements ∧ site.meeting.Captures name) ↔
      ∃ environment, (site, environment) ∈ closures mapOrder statements ∧
        ∃ capture ∈ environment.captures, capture.binding = name := by
  constructor
  · rintro ⟨hsite, hcaptures⟩
    have hcaptured : name ∈ site.meeting.captured mapOrder := Meeting.mem_captured.mpr hcaptures
    obtain ⟨environment, hmem⟩ := exists_closureOf hsite (List.ne_nil_of_mem hcaptured)
      (startCollection mapOrder statements)
    obtain ⟨-, hnames⟩ := captures_closuresOf _ _ _ hmem
    rw [← hnames] at hcaptured
    exact ⟨environment, hmem, List.mem_map.mp hcaptured⟩
  · rintro ⟨environment, hmem, capture, hcapture, rfl⟩
    obtain ⟨hsite, hnames⟩ := captures_closuresOf _ _ _ hmem
    have hcaptured : capture.binding ∈ site.meeting.captured mapOrder := by
      rw [← hnames]
      exact List.mem_map_of_mem hcapture
    exact ⟨hsite, Meeting.mem_captured.mp hcaptured⟩

theorem Meeting.collect_slotted {meeting : Meeting} {collection : Collection}
    (hnumbered : Numbered collection.slots) :
    Numbered (meeting.collect mapOrder collection).slots ∧
      Keeps collection.slots (meeting.collect mapOrder collection).slots ∧
      ∀ environment ∈ meeting.environments mapOrder collection,
        Slotted (meeting.collect mapOrder collection).slots environment.captures := by
  rw [collect_eq, Meeting.environments]
  split
  · exact ⟨hnumbered, Keeps.refl, fun _ hmem => absurd hmem List.not_mem_nil⟩
  · obtain ⟨hafter, hkeeps, hslotted⟩ := @closureCaptures_spec
      (mutatedCapturedNames meeting.known meeting.name meeting.params meeting.body) collection.plan
      (meeting.captured mapOrder) collection.slots hnumbered
    refine ⟨hafter, hkeeps, fun environment hmem => ?_⟩
    rw [List.mem_singleton.mp hmem]
    exact hslotted

theorem closuresOf_slotted (met : List Site) (collection : Collection)
    (hnumbered : Numbered collection.slots) :
    ∃ table, Numbered table ∧ Keeps collection.slots table ∧
      ∀ closure ∈ closuresOf mapOrder met collection, Slotted table closure.2.captures := by
  induction met generalizing collection with
  | nil => exact ⟨_, hnumbered, Keeps.refl, fun _ hclosure => absurd hclosure List.not_mem_nil⟩
  | cons site met ih =>
      obtain ⟨hafter, hkeeps, hslotted⟩ :=
        @Meeting.collect_slotted mapOrder site.meeting collection hnumbered
      obtain ⟨table, htable, hkeeps', hrest⟩ := ih (site.meeting.collect mapOrder collection) hafter
      refine ⟨table, htable, hkeeps.trans hkeeps', List.forall_mem_append.mpr ⟨?_, hrest⟩⟩
      intro closure hclosure capture hcapture
      obtain ⟨environment, hmem, rfl⟩ := List.mem_map.mp hclosure
      exact hkeeps' _ _ (hslotted environment hmem capture hcapture)

theorem sharedSlot_eq_iff {first second : Site × ClosureEnvironment}
    (hfirst : first ∈ closures mapOrder statements)
    (hsecond : second ∈ closures mapOrder statements) {capture other : ClosureCapture}
    (hcapture : capture ∈ first.2.captures) (hother : other ∈ second.2.captures) :
    capture.sharedSlot = other.sharedSlot ↔ capture.binding = other.binding := by
  obtain ⟨table, hnumbered, -, hslotted⟩ := @closuresOf_slotted mapOrder (sites statements)
    (startCollection mapOrder statements) numbered_nil
  exact hnumbered.eq_iff (hslotted first hfirst capture hcapture)
    (hslotted second hsecond other hother)

/-- Captures share a slot exactly where they refer to one variable, if and only if no two captured
variables have one name. -/
theorem closures_shareSlots_iff (mapOrder : MapOrder) (statements : List Statement) :
    (buildScopeExitPlan mapOrder statements).closureEnvironments =
        (closures mapOrder statements).map Prod.snd ∧
      ((∀ first ∈ closures mapOrder statements, ∀ second ∈ closures mapOrder statements,
          ∀ capture ∈ first.2.captures, ∀ other ∈ second.2.captures,
            (capture.sharedSlot = other.sharedSlot ↔
              first.1.referent capture.binding = second.1.referent other.binding)) ↔
        ∀ first ∈ sites statements, ∀ second ∈ sites statements, ∀ name,
          first.meeting.Captures name → second.meeting.Captures name →
            first.referent name = second.referent name) := by
  refine ⟨closures_environments mapOrder statements, ?_, ?_⟩
  · intro hshared first hfirst second hsecond name hcaptures hcaptures'
    obtain ⟨environment, hmem, capture, hcapture, rfl⟩ :=
      (@captures_iff mapOrder _ _ _).mp ⟨hfirst, hcaptures⟩
    obtain ⟨environment', hmem', other, hother, hname⟩ :=
      (@captures_iff mapOrder _ _ _).mp ⟨hsecond, hcaptures'⟩
    have hslot := (sharedSlot_eq_iff hmem hmem' hcapture hother).mpr hname.symm
    have hreferent := (hshared _ hmem _ hmem' capture hcapture other hother).mp hslot
    rwa [hname] at hreferent
  · intro hsingle first hfirst second hsecond capture hcapture other hother
    rw [sharedSlot_eq_iff hfirst hsecond hcapture hother]
    constructor
    · intro hname
      obtain ⟨hsite, hcaptures⟩ := captures_iff.mpr ⟨first.2, hfirst, capture, hcapture, rfl⟩
      obtain ⟨hsite', hcaptures'⟩ := captures_iff.mpr ⟨second.2, hsecond, other, hother, hname.symm⟩
      rw [hname] at hcaptures ⊢
      rw [hname] at hcaptures'
      exact hsingle first.1 hsite second.1 hsite' other.binding hcaptures hcaptures'
    · intro hreferent
      exact congrArg Prod.snd hreferent

end Run

/-- `{ var x = 1; () => x; } { var x = 2; () => x; }` -/
def siblingScopes : List Statement :=
  [.block ⟨1, 1⟩
    [.variableDecl ⟨1, 3⟩ .var "x" (some (.name "x")) (some (.numberLiteral ⟨1, 11⟩ "1")),
      .expressionStatement ⟨1, 14⟩ (.functionExpression ⟨1, 14⟩ "" [] []
        (some (.identifier ⟨1, 20⟩ "x")))],
    .block ⟨2, 1⟩
      [.variableDecl ⟨2, 3⟩ .var "x" (some (.name "x")) (some (.numberLiteral ⟨2, 11⟩ "2")),
        .expressionStatement ⟨2, 14⟩ (.functionExpression ⟨2, 14⟩ "" [] []
          (some (.identifier ⟨2, 20⟩ "x")))]]

/-- Two variables get one slot. -/
theorem siblingScopes_shareSlots :
    ∃ first ∈ closures .insertion siblingScopes, ∃ second ∈ closures .insertion siblingScopes,
      ∃ capture ∈ first.2.captures, ∃ other ∈ second.2.captures,
        capture.sharedSlot = other.sharedSlot ∧
          first.1.referent capture.binding ≠ second.1.referent other.binding := by
  decide +kernel

end Jayess.Lifetime
