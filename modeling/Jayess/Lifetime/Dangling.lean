import Jayess.Lifetime.Escaping
import Jayess.Lifetime.Slots

/-!
# Captures that dangle
-/

namespace Jayess.Lifetime

def Site.Spared (plan : Plan) (site : Site) (name : String) : Prop :=
  ∀ frame ∈ site.resolve name, ∀ declaration ∈ frame.declared, declaration.name = name →
    declaration.planned = true →
      ⟨name, declaration.pos.line, declaration.pos.column, declaration.depth⟩ ∉
        plan.scopeExitCleanups

/-- No capture of the plan refers to a declaration that is cleaned up, and every capture says that it
does not dangle. -/
def KeepsCaptures (mapOrder : MapOrder) (statements : List Statement) : Prop :=
  ∀ closure ∈ closures mapOrder statements, ∀ capture ∈ closure.2.captures,
    closure.1.Spared (buildScopeExitPlan mapOrder statements) capture.binding ∧
      capture.nonDangling = true

/-- A name escapes: the escape analysis does not take it for a local of the function, or marks it
elsewhere. -/
def Site.Escapes (statements : List Statement) (site : Site) (name : String) : Prop :=
  name ∉ site.meeting.analyzedLocals ∨ (Escape.analyze statements).escapes name = true

/-- The name outlives its scope wherever it stands for a variable, and is the name of such a variable. -/
structure Site.Outlived (statements : List Statement) (site : Site) (name : String) : Prop where
  referents : ∀ frame ∈ site.resolve name, ∀ declaration ∈ frame.declared, declaration.name = name →
    declaration.planned = true → declaration.depth = 0 ∨ site.Escapes statements name
  listed : ∃ declared ∈ statementsDeclared 0 statements, name ∈ patternNames declared.pattern ∧
    (declared.depth = 0 ∨ site.Escapes statements name)

section Kept

variable {mapOrder : MapOrder} {statements : List Statement} {site : Site} {name : String}

theorem escapes_iff (hsite : site ∈ sites statements) (hcaptures : site.meeting.Captures name)
    (hne : name ≠ "") :
    site.Escapes statements name ↔ (Escape.analyze statements).escapes name = true := by
  have hmet : site.meeting ∈ meetings statements := by
    rw [← meetings_sites]
    exact List.mem_map_of_mem hsite
  exact ⟨fun h => h.elim (fun hlocal => escapes_of_sees hmet hne hlocal hcaptures.2) id, .inr⟩

theorem mem_cleanups_iff {declaration : NameDeclaration}
    (hmet : declaration.MetIn (statementsDeclared 0 statements)) :
    ⟨declaration.name, declaration.pos.line, declaration.pos.column, declaration.depth⟩ ∈
        (buildScopeExitPlan mapOrder statements).scopeExitCleanups ↔
      ¬Outlives (Escape.analyze statements) declaration.depth declaration.name := by
  rw [cleanups_plan, List.mem_flatMap]
  constructor
  · rintro ⟨declared, -, hmem⟩
    obtain ⟨-, hleft, -, -, hdepth⟩ := Declared.mem_cleanups.mp hmem
    have hdepth : declaration.depth = declared.depth := hdepth
    rwa [hdepth]
  · intro hleft
    obtain ⟨declared, hdeclared, hpos, hdepth, hname⟩ := hmet
    refine ⟨declared, hdeclared, Declared.mem_cleanups.mpr ⟨hname, hdepth ▸ hleft, ?_, ?_, hdepth.symm⟩⟩
    · rw [hpos]
    · rw [hpos]

theorem hasExtendedLifetime_iff :
    hasExtendedLifetime (buildScopeExitPlan mapOrder statements) name = true ↔
      ∃ declared ∈ statementsDeclared 0 statements, name ∈ patternNames declared.pattern ∧
        Outlives (Escape.analyze statements) declared.depth name := by
  rw [hasExtendedLifetime, extended_plan, List.any_eq_true]
  constructor
  · rintro ⟨extended, hmem, hname⟩
    obtain ⟨declared, hdeclared, hextended⟩ := List.mem_flatMap.mp hmem
    obtain ⟨hnames, houtlives, -⟩ := Declared.mem_extended.mp hextended
    rw [of_decide_eq_true hname] at hnames houtlives
    exact ⟨declared, hdeclared, hnames, houtlives⟩
  · rintro ⟨declared, hdeclared, hnames, houtlives⟩
    refine ⟨⟨name, declared.pos.line, declared.pos.column, declared.depth⟩, ?_, decide_eq_true rfl⟩
    exact List.mem_flatMap.mpr
      ⟨declared, hdeclared, Declared.mem_extended.mpr ⟨hnames, houtlives, rfl, rfl, rfl⟩⟩

theorem nonDangling_closureCaptures {mutated : List String} {plan : Plan} (names : List String)
    (slots : Slots) :
    ∀ capture ∈ (closureCaptures mutated plan names slots).1,
      capture.nonDangling = hasExtendedLifetime plan capture.binding := by
  induction names generalizing slots with
  | nil => exact fun _ hcapture => absurd hcapture List.not_mem_nil
  | cons name names ih => exact List.forall_mem_cons.mpr ⟨rfl, ih _⟩

theorem nonDangling_closuresOf (met : List Site) (collection : Collection) :
    ∀ closure ∈ closuresOf mapOrder met collection, ∀ capture ∈ closure.2.captures,
      capture.nonDangling = hasExtendedLifetime collection.plan capture.binding := by
  induction met generalizing collection with
  | nil => exact fun _ hclosure => absurd hclosure List.not_mem_nil
  | cons site met ih =>
      refine List.forall_mem_append.mpr ⟨?_, ?_⟩
      · intro closure hclosure
        obtain ⟨environment, hmem, rfl⟩ := List.mem_map.mp hclosure
        rw [Meeting.environments] at hmem
        split at hmem
        · exact absurd hmem List.not_mem_nil
        · rw [List.mem_singleton.mp hmem]
          exact nonDangling_closureCaptures _ _
      · intro closure hclosure capture hcapture
        rw [ih _ closure hclosure capture hcapture, hasExtendedLifetime, hasExtendedLifetime,
          (Meeting.exits_collect site.meeting collection).2]

theorem nonDangling_iff {closure : Site × ClosureEnvironment}
    (hclosure : closure ∈ closures mapOrder statements) {capture : ClosureCapture}
    (hcapture : capture ∈ closure.2.captures) :
    capture.nonDangling = true ↔ ∃ declared ∈ statementsDeclared 0 statements,
      capture.binding ∈ patternNames declared.pattern ∧
        Outlives (Escape.analyze statements) declared.depth capture.binding := by
  rw [nonDangling_closuresOf _ _ closure hclosure capture hcapture, ← hasExtendedLifetime_iff,
    hasExtendedLifetime, hasExtendedLifetime, buildScopeExitPlan_eq, (exits_foldl _ _).2]

theorem outlived_iff (hsite : site ∈ sites statements) (hcaptures : site.meeting.Captures name) :
    site.Outlived statements name ↔ site.Spared (buildScopeExitPlan mapOrder statements) name ∧
      ∃ declared ∈ statementsDeclared 0 statements, name ∈ patternNames declared.pattern ∧
        Outlives (Escape.analyze statements) declared.depth name := by
  have hescapes : ∀ declared : Declared, name ∈ patternNames declared.pattern →
      (site.Escapes statements name ↔ (Escape.analyze statements).escapes name = true) :=
    fun declared hname => escapes_iff hsite hcaptures (ne_of_mem_patternNames _ hname)
  have hspared : site.Spared (buildScopeExitPlan mapOrder statements) name ↔
      ∀ frame ∈ site.resolve name, ∀ declaration ∈ frame.declared, declaration.name = name →
        declaration.planned = true → declaration.depth = 0 ∨ site.Escapes statements name := by
    refine forall₂_congr fun frame hframe => forall₂_congr fun declaration hdeclaration =>
      forall₂_congr fun hname hplanned => ?_
    subst hname
    have hmet := (enclosed_sites statements site hsite).planned frame
      (List.mem_of_find?_eq_some hframe) declaration hdeclaration hplanned
    obtain ⟨declared, -, -, -, hnames⟩ := id hmet
    rw [mem_cleanups_iff hmet, not_not, hescapes declared hnames]
    exact Iff.rfl
  constructor
  · rintro ⟨hreferents, declared, hmet, hname, houtlives⟩
    rw [hescapes declared hname] at houtlives
    exact ⟨hspared.mpr hreferents, declared, hmet, hname, houtlives⟩
  · rintro ⟨hkept, declared, hmet, hname, houtlives⟩
    refine ⟨hspared.mp hkept, declared, hmet, hname, ?_⟩
    rw [hescapes declared hname]
    exact houtlives

/-- No capture of a plan dangles, if and only if every captured name outlives its scope. -/
theorem keepsCaptures_iff (mapOrder : MapOrder) (statements : List Statement) :
    KeepsCaptures mapOrder statements ↔
      ∀ site ∈ sites statements, ∀ name, site.meeting.Captures name →
        site.Outlived statements name := by
  constructor
  · intro hkeeps site hsite name hcaptures
    obtain ⟨environment, hclosure, capture, hcapture, rfl⟩ :=
      (@captures_iff mapOrder _ _ _).mp ⟨hsite, hcaptures⟩
    obtain ⟨hspared, hflag⟩ := hkeeps _ hclosure capture hcapture
    exact (outlived_iff hsite hcaptures).mpr ⟨hspared, (nonDangling_iff hclosure hcapture).mp hflag⟩
  · intro houtlived closure hclosure capture hcapture
    obtain ⟨hsite, hcaptures⟩ :=
      captures_iff.mpr ⟨closure.2, hclosure, capture, hcapture, rfl⟩
    obtain ⟨hspared, hlisted⟩ := (outlived_iff hsite hcaptures).mp
      (houtlived closure.1 hsite capture.binding hcaptures)
    exact ⟨hspared, (nonDangling_iff hclosure hcapture).mpr hlisted⟩

end Kept

/-- `function make(p) { return () => p; }` -/
def capturesParameter : List Statement :=
  [.functionDecl ⟨1, 1⟩ "make" [⟨"p", some (.name "p"), false, none⟩]
    [.returnStatement ⟨1, 20⟩ (some (.functionExpression ⟨1, 27⟩ "" [] []
      (some (.identifier ⟨1, 33⟩ "p"))))]]

/-- The capture of the parameter is not said to be safe. -/
theorem capturesParameter_dangles : ¬KeepsCaptures .insertion capturesParameter := by
  intro hkeeps
  have hflag : ∃ closure ∈ closures .insertion capturesParameter, ∃ capture ∈ closure.2.captures,
      capture.nonDangling = false := by decide +kernel
  obtain ⟨closure, hclosure, capture, hcapture, hfalse⟩ := hflag
  rw [(hkeeps closure hclosure capture hcapture).2] at hfalse
  cases hfalse

end Jayess.Lifetime
