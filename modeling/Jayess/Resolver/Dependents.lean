import Jayess.Resolver.Batches

/-!
# Transitive dependencies and dependents

`TransitiveDependencies` follows the stored imports in the initialization order,
`TransitiveDependents` scans the whole map again at every module it comes to.
-/

namespace Jayess.Resolver

open Relation
open Graph

def ModuleGraph.transitiveDependencies (graph : ModuleGraph) (fuel : Nat) (entry : String) :
    Searched (List String) :=
  Searched.map (fun order => order.filter fun module => module ≠ entry)
    (graph.initializationOrderFor fuel [entry])

structure DependentSearch where
  visited : String → Bool
  dependents : List String

def DependentSearch.add (search : DependentSearch) (dependent : String) : DependentSearch where
  visited := Function.update search.visited dependent true
  dependents := search.dependents ++ [dependent]

/-- The loop over the dependents of a module. -/
def visitDependents (visit : String → DependentSearch → Option DependentSearch) :
    List String → DependentSearch → Option DependentSearch
  | [], search => some search
  | dependent :: rest, search =>
      if search.visited dependent then visitDependents visit rest search
      else match visit dependent (search.add dependent) with
        | none => none
        | some search => visitDependents visit rest search

/-- The closure `visit` of `TransitiveDependents`; `none` stands for running out of fuel. -/
def ModuleGraph.visitDependentsOf (graph : ModuleGraph) :
    Nat → String → DependentSearch → Option DependentSearch
  | 0, _, _ => none
  | fuel + 1, current, search =>
      visitDependents (graph.visitDependentsOf fuel) (graph.dependents current) search

def ModuleGraph.transitiveDependents (graph : ModuleGraph) (fuel : Nat) (module : String) :
    Option (List String) :=
  match graph.imports with
  | none => some []
  | some _ =>
      (graph.visitDependentsOf fuel module
        ⟨Function.update (fun _ => false) module true, []⟩).map (·.dependents)

variable {graph : ModuleGraph} {fuel : Nat} {module : String}

/-- What a part of the search has added: modules that some candidate reaches, each once, together with
all their dependents. -/
structure DependentSearch.Extends (graph : ModuleGraph) (candidates : List String)
    (search found : DependentSearch) (added : List String) : Prop where
  dependents : found.dependents = search.dependents ++ added
  visited : ∀ other, found.visited other = true ↔ search.visited other = true ∨ other ∈ added
  new : ∀ other ∈ added, search.visited other = false
  nodup : added.Nodup
  reached : ∀ other ∈ added, ∃ start ∈ candidates, ReflTransGen graph.ImportedBy start other
  met : ∀ candidate ∈ candidates, found.visited candidate = true
  closed : ∀ other ∈ added, ∀ dependent, graph.ImportedBy other dependent →
    found.visited dependent = true

namespace DependentSearch

variable {search middle found : DependentSearch} {candidates rest added added' : List String}
  {candidate : String}

def unmet (graph : ModuleGraph) (search : DependentSearch) : List String :=
  graph.modules.filter fun module => !search.visited module

theorem Extends.nil : search.Extends graph [] search [] where
  dependents := (List.append_nil _).symm
  visited := by simp
  new := by simp
  nodup := List.nodup_nil
  reached := by simp
  met := by simp
  closed := by simp

theorem Extends.skip (hvisited : search.visited candidate = true)
    (hrest : search.Extends graph rest found added) :
    search.Extends graph (candidate :: rest) found added where
  dependents := hrest.dependents
  visited := hrest.visited
  new := hrest.new
  nodup := hrest.nodup
  reached other hother := by
    obtain ⟨start, hstart, hreaches⟩ := hrest.reached other hother
    exact ⟨start, List.mem_cons_of_mem _ hstart, hreaches⟩
  met other hother := by
    rcases List.mem_cons.mp hother with rfl | hother
    · exact (hrest.visited other).mpr (Or.inl hvisited)
    · exact hrest.met other hother
  closed := hrest.closed

theorem Extends.cons (hgraph : graph.WellFormed) (hvisited : search.visited candidate = false)
    (hfirst : (search.add candidate).Extends graph (graph.dependents candidate) middle added)
    (hrest : middle.Extends graph rest found added') :
    search.Extends graph (candidate :: rest) found (candidate :: (added ++ added')) := by
  have hmiddle : ∀ other, middle.visited other = true ↔
      search.visited other = true ∨ other = candidate ∨ other ∈ added := by
    intro other
    rw [hfirst.visited, add]
    by_cases heq : other = candidate <;> simp [heq]
  have hfound : ∀ other, found.visited other = true ↔
      search.visited other = true ∨ other ∈ candidate :: (added ++ added') := by
    intro other
    rw [hrest.visited, hmiddle, List.mem_cons, List.mem_append]
    simp only [or_assoc]
  refine ⟨?_, hfound, ?_, ?_, ?_, ?_, ?_⟩
  · rw [hrest.dependents, hfirst.dependents, add]
    simp
  · intro other hother
    rcases List.mem_cons.mp hother with rfl | hother
    · exact hvisited
    · by_contra hmet
      have hmet : search.visited other = true := by simpa using hmet
      rcases List.mem_append.mp hother with hother | hother
      · have hnew := hfirst.new other hother
        have hadd : (search.add candidate).visited other = true := by
          by_cases heq : other = candidate
          · simp [add, heq]
          · simpa [add, heq] using hmet
        rw [hnew] at hadd
        exact absurd hadd Bool.false_ne_true
      · have hnew := hrest.new other hother
        rw [(hmiddle other).mpr (Or.inl hmet)] at hnew
        exact absurd hnew (Bool.false_ne_true ∘ Eq.symm)
  · have hcandidate : candidate ∉ added := by
      intro hmem
      have hnew := hfirst.new candidate hmem
      simp [add] at hnew
    have hcandidate' : candidate ∉ added' := by
      intro hmem
      have hnew := hrest.new candidate hmem
      rw [(hmiddle candidate).mpr (Or.inr (Or.inl rfl))] at hnew
      exact absurd hnew (Bool.false_ne_true ∘ Eq.symm)
    refine List.nodup_cons.mpr ⟨?_, List.nodup_append.mpr ⟨hfirst.nodup, hrest.nodup, ?_⟩⟩
    · rw [List.mem_append, not_or]
      exact ⟨hcandidate, hcandidate'⟩
    · rintro other hother _ hother' rfl
      have hnew := hrest.new other hother'
      rw [(hmiddle other).mpr (Or.inr (Or.inr hother))] at hnew
      exact absurd hnew (Bool.false_ne_true ∘ Eq.symm)
  · intro other hother
    rcases List.mem_cons.mp hother with rfl | hother
    · exact ⟨other, List.mem_cons_self, .refl⟩
    · rcases List.mem_append.mp hother with hother | hother
      · obtain ⟨start, hstart, hreaches⟩ := hfirst.reached other hother
        have hstep : graph.ImportedBy candidate start := hgraph.mem_dependents.mp hstart
        exact ⟨candidate, List.mem_cons_self, .head hstep hreaches⟩
      · obtain ⟨start, hstart, hreaches⟩ := hrest.reached other hother
        exact ⟨start, List.mem_cons_of_mem _ hstart, hreaches⟩
  · intro other hother
    rcases List.mem_cons.mp hother with rfl | hother
    · exact (hfound other).mpr (Or.inr List.mem_cons_self)
    · exact hrest.met other hother
  · intro other hother dependent hdependent
    rcases List.mem_cons.mp hother with rfl | hother
    · have hmet := hfirst.met dependent (hgraph.mem_dependents.mpr hdependent)
      exact (hrest.visited dependent).mpr (Or.inl hmet)
    · rcases List.mem_append.mp hother with hother | hother
      · exact (hrest.visited dependent).mpr (Or.inl (hfirst.closed other hother dependent hdependent))
      · exact hrest.closed other hother dependent hdependent

theorem unmet_lt (hmodule : graph.hasModule candidate = true)
    (hvisited : search.visited candidate = false) :
    ((search.add candidate).unmet graph).length < (search.unmet graph).length := by
  have hadd : (search.add candidate).unmet graph =
      (search.unmet graph).filter fun other => other ≠ candidate := by
    rw [unmet, unmet, List.filter_filter]
    refine List.filter_congr fun other _ => ?_
    by_cases heq : other = candidate <;> simp [add, heq]
  rw [hadd, List.length_filter_lt_length_iff_exists]
  exact ⟨candidate, List.mem_filter.mpr ⟨mem_modules.mpr hmodule, by simp [hvisited]⟩, by simp⟩

theorem Extends.unmet_le (hextends : search.Extends graph candidates found added) :
    (found.unmet graph).length ≤ (search.unmet graph).length := by
  have hsub : found.unmet graph = (search.unmet graph).filter fun other => !found.visited other := by
    rw [unmet, unmet, List.filter_filter]
    refine List.filter_congr fun other _ => ?_
    cases hfound : found.visited other with
    | true => simp
    | false =>
        have hsearch : search.visited other = false := by
          by_contra hmet
          have hmet : search.visited other = true := by simpa using hmet
          rw [(hextends.visited other).mpr (Or.inl hmet)] at hfound
          exact absurd hfound (Bool.false_ne_true ∘ Eq.symm)
        simp [hsearch]
  rw [hsub]
  exact List.length_filter_le _ _

end DependentSearch

theorem visitDependents_extends (hgraph : graph.WellFormed)
    {visit : String → DependentSearch → Option DependentSearch} {candidates : List String}
    {search : DependentSearch} (hmodules : ∀ candidate ∈ candidates, graph.hasModule candidate = true)
    (hvisit : ∀ candidate (current : DependentSearch),
      (current.unmet graph).length < (search.unmet graph).length →
        ∃ found added, visit candidate current = some found ∧
          current.Extends graph (graph.dependents candidate) found added) :
    ∃ found added, visitDependents visit candidates search = some found ∧
      search.Extends graph candidates found added := by
  induction candidates generalizing search with
  | nil => exact ⟨search, [], rfl, .nil⟩
  | cons candidate rest ih =>
      have hrest := fun other hother => hmodules other (List.mem_cons_of_mem _ hother)
      rw [visitDependents]
      cases hvisited : search.visited candidate with
      | true =>
          obtain ⟨found, added, hresult, hextends⟩ := ih hrest hvisit
          exact ⟨found, added, by rw [if_pos rfl, hresult], hextends.skip hvisited⟩
      | false =>
          have hlt := DependentSearch.unmet_lt (hmodules candidate List.mem_cons_self) hvisited
          obtain ⟨middle, added, hresult, hextends⟩ := hvisit candidate (search.add candidate) hlt
          have hle := hextends.unmet_le
          obtain ⟨found, added', hresult', hextends'⟩ := @ih middle hrest
            fun other current hcurrent => hvisit other current (by omega)
          refine ⟨found, _, ?_, .cons hgraph hvisited hextends hextends'⟩
          rw [if_neg Bool.false_ne_true, hresult]
          exact hresult'

theorem visitDependentsOf_extends (hgraph : graph.WellFormed) {search : DependentSearch}
    (hfuel : (search.unmet graph).length < fuel) :
    ∃ found added, graph.visitDependentsOf fuel module search = some found ∧
      search.Extends graph (graph.dependents module) found added := by
  induction fuel generalizing search module with
  | zero => exact absurd hfuel (Nat.not_lt_zero _)
  | succ fuel ih =>
      refine visitDependents_extends hgraph (fun candidate hcandidate => ?_)
        fun candidate current hcurrent => ih (by omega)
      exact (hgraph.mem_dependents.mp hcandidate).hasModule

/-- `TransitiveDependents` lists each module once that reaches a module along imports, and not the
module itself. -/
theorem transitiveDependents_spec (hgraph : graph.WellFormed)
    (hfuel : (graph.imports.getD []).length < fuel) :
    ∃ list, graph.transitiveDependents fuel module = some list ∧ list.Nodup ∧ module ∉ list ∧
      ∀ other, other ∈ list ↔ other ≠ module ∧ ReflTransGen graph.Imports other module := by
  obtain ⟨_ | imports⟩ := graph
  · refine ⟨[], rfl, List.nodup_nil, List.not_mem_nil, fun other => ?_⟩
    refine iff_of_false List.not_mem_nil ?_
    rintro ⟨hne, hreaches⟩
    rcases ReflTransGen.cases_head hreaches with rfl | ⟨next, himports, -⟩
    · exact hne rfl
    · exact List.not_mem_nil himports
  · set graph : ModuleGraph := ⟨some imports⟩ with hgraphEq
    set search : DependentSearch := ⟨Function.update (fun _ => false) module true, []⟩
      with hsearch
    have hunmet : (search.unmet graph).length ≤ imports.length := by
      calc
        (search.unmet graph).length ≤ graph.modules.length := List.length_filter_le _ _
        _ = (imports.map Prod.fst).length := (List.mergeSort_perm _ _).length_eq
        _ = imports.length := List.length_map _
    obtain ⟨found, added, hresult, hextends⟩ :=
      @visitDependentsOf_extends graph fuel module hgraph search (hunmet.trans_lt hfuel)
    have hlist : found.dependents = added := hextends.dependents
    have hmet : ∀ other, found.visited other = true ↔ other = module ∨ other ∈ added := by
      intro other
      rw [hextends.visited, hsearch]
      by_cases heq : other = module <;> simp [heq]
    have hnotin : module ∉ added := by
      intro hmem
      have hnew := hextends.new module hmem
      simp [hsearch] at hnew
    refine ⟨added, ?_, hextends.nodup, hnotin, fun other => ⟨fun hother => ⟨?_, ?_⟩, ?_⟩⟩
    · rw [ModuleGraph.transitiveDependents, ← hlist]
      change Option.map _ (graph.visitDependentsOf fuel module search) = _
      rw [hresult]
      rfl
    · rintro rfl
      exact hnotin hother
    · obtain ⟨start, hstart, hreaches⟩ := hextends.reached other hother
      have hstep : graph.ImportedBy module start := hgraph.mem_dependents.mp hstart
      exact reflTransGen_swap.mp (ReflTransGen.head hstep hreaches)
    · rintro ⟨hne, hreaches⟩
      have hbackwards : ReflTransGen graph.ImportedBy module other := reflTransGen_swap.mpr hreaches
      have hvisited : found.visited other = true := by
        clear hne hreaches
        induction hbackwards with
        | refl => exact (hmet module).mpr (Or.inl rfl)
        | tail _ hstep ih =>
            rcases (hmet _).mp ih with rfl | hmem
            · exact hextends.met _ (hgraph.mem_dependents.mpr hstep)
            · exact hextends.closed _ hmem _ hstep
      exact ((hmet other).mp hvisited).resolve_left hne

/-- In a graph without cycles `TransitiveDependencies` lists each module once that a module reaches
along imports, and not the module itself. -/
theorem transitiveDependencies_spec (hacyclic : ∀ module, ¬ TransGen graph.Imports module module)
    (hfuel : (graph.imports.getD []).length < fuel) (hmodule : graph.hasModule module = true) :
    ∃ list, graph.transitiveDependencies fuel module = some (.ok list) ∧ list.Nodup ∧
      module ∉ list ∧
      ∀ other, other ∈ list ↔ other ≠ module ∧ ReflTransGen graph.Imports module other := by
  obtain ⟨imports, hmap⟩ : ∃ imports, graph.imports = some imports := by
    cases hmap : graph.imports with
    | none => simp [ModuleGraph.hasModule, ModuleGraph.find, hmap] at hmodule
    | some imports => exact ⟨imports, rfl⟩
  rw [hmap] at hfuel
  obtain ⟨result, hresult, hok, -, herror⟩ :=
    initializationOrderFor_spec graph imports [module] fuel hmap hfuel
  cases result with
  | error error =>
      obtain ⟨_, _, other, _, hcycle⟩ := herror.mp ⟨error, rfl⟩
      exact absurd hcycle (hacyclic other)
  | ok order =>
      obtain ⟨hnodup, -, hreached⟩ := hok order rfl
      refine ⟨order.filter fun other => other ≠ module, ?_, hnodup.filter _, by simp, ?_⟩
      · rw [ModuleGraph.transitiveDependencies, hresult]
        rfl
      · intro other
        rw [List.mem_filter, hreached]
        simp [and_comm]

/-- The graph with the imports of another one turned around. -/
structure ModuleGraph.Reverses (reversed graph : ModuleGraph) : Prop where
  wellFormed : reversed.WellFormed
  modules : ∀ name, reversed.hasModule name = true ↔ graph.hasModule name = true
  imports : ∀ importer imported, reversed.Imports importer imported ↔ graph.Imports imported importer

theorem dependentDepth_eq_reversed (hgraph : graph.WellFormed)
    (hacyclic : ∀ module, ¬ TransGen graph.Imports module module)
    (hfuel : (graph.imports.getD []).length < fuel) (hmodule : graph.hasModule module = true)
    {reversed : ModuleGraph} (hreverses : reversed.Reverses graph) {fuel' : Nat}
    (hfuel' : (reversed.imports.getD []).length < fuel') :
    ∃ depth, graph.dependentDepth fuel module = some (.ok depth) ∧
      reversed.dependencyDepth fuel' module = some (.ok depth) := by
  have hrelation : reversed.Imports = graph.ImportedBy := by
    funext importer imported
    exact propext (hreverses.imports importer imported)
  have hbackwards : ∀ other, ¬ TransGen graph.ImportedBy other other :=
    fun other hcycle => hacyclic other (transGen_swap.mp hcycle)
  obtain ⟨result, hresult, hvalue, herror⟩ := dependentDepth_spec hgraph hmodule hfuel
  obtain ⟨result', hresult', hvalue', herror'⟩ :=
    dependencyDepth_spec ((hreverses.modules module).mpr hmodule) hfuel'
  cases result with
  | error error =>
      obtain ⟨other, -, hcycle⟩ := herror.mp ⟨error, rfl⟩
      exact absurd hcycle (hbackwards other)
  | ok depth =>
      cases result' with
      | error error =>
          obtain ⟨other, -, hcycle⟩ := herror'.mp ⟨error, rfl⟩
          rw [hrelation] at hcycle
          exact absurd hcycle (hbackwards other)
      | ok depth' =>
          have hlongest := hvalue' depth' rfl
          rw [hrelation] at hlongest
          obtain rfl := (hvalue depth rfl).unique hlongest
          exact ⟨depth, hresult, hresult'⟩

/-- The forward and the backward query agree, and so do the depths in the two directions. -/
theorem transitive_agree (hgraph : graph.WellFormed)
    (hacyclic : ∀ module, ¬ TransGen graph.Imports module module)
    (hfuel : (graph.imports.getD []).length < fuel) {module other : String}
    (hmodule : graph.hasModule module = true) (hother : graph.hasModule other = true) :
    (∃ dependencies dependents,
      graph.transitiveDependencies fuel module = some (.ok dependencies) ∧
      graph.transitiveDependents fuel other = some dependents ∧
      (other ∈ dependencies ↔ module ∈ dependents) ∧
      dependencies.Nodup ∧ module ∉ dependencies ∧ dependents.Nodup ∧ other ∉ dependents) ∧
    ∀ reversed : ModuleGraph, reversed.Reverses graph →
      ∀ fuel', (reversed.imports.getD []).length < fuel' →
        ∃ depth, graph.dependentDepth fuel other = some (.ok depth) ∧
          reversed.dependencyDepth fuel' other = some (.ok depth) := by
  obtain ⟨dependencies, hdependencies, hnodup, hnotin, hforward⟩ :=
    transitiveDependencies_spec hacyclic hfuel hmodule
  obtain ⟨dependents, hdependents, hnodup', hnotin', hbackward⟩ :=
    @transitiveDependents_spec graph fuel other hgraph hfuel
  refine ⟨⟨dependencies, dependents, hdependencies, hdependents, ?_, hnodup, hnotin, hnodup',
    hnotin'⟩, fun reversed hreverses fuel' hfuel' =>
      dependentDepth_eq_reversed hgraph hacyclic hfuel hother hreverses hfuel'⟩
  rw [hforward, hbackward]
  exact and_congr_left' ne_comm

def layeredRank (module : String) : Nat :=
  if module = "app" then 2 else if module = "log" then 1 else 0

theorem layeredImports_acyclic (module : String) :
    ¬ TransGen layeredImports.Imports module module := by
  have hmap : layeredImports.imports =
      some [("base", []), ("log", ["util"]), ("util", []), ("app", ["log", "util"])] := by decide
  refine ModuleGraph.acyclic_of_lowers layeredRank ?_ module
  intro importer imported himports
  by_cases happ : importer = "app"
  · subst happ
    have himported : imported = "log" ∨ imported = "util" := by
      have hlist : layeredImports.importsOf "app" = ["log", "util"] := by decide
      simpa [ModuleGraph.Imports, hlist] using himports
    rcases himported with rfl | rfl <;> decide
  · by_cases hlog : importer = "log"
    · subst hlog
      have himported : imported = "util" := by
        have hlist : layeredImports.importsOf "log" = ["util"] := by decide
        simpa [ModuleGraph.Imports, hlist] using himports
      subst himported
      decide
    · have hnone : layeredImports.importsOf importer = [] := by
        simp only [ModuleGraph.importsOf, hmap, Option.getD_some]
        by_cases hutil : importer = "util" <;> by_cases hbase : importer = "base" <;>
          simp [List.lookup_cons, beq_eq_false_iff_ne.mpr, *]
      rw [ModuleGraph.Imports, hnone] at himports
      exact absurd himports List.not_mem_nil

theorem layeredImports_transitive_agree :
    (∃ dependencies dependents,
      layeredImports.transitiveDependencies 5 "app" = some (.ok dependencies) ∧
      layeredImports.transitiveDependents 5 "util" = some dependents ∧
      ("util" ∈ dependencies ↔ "app" ∈ dependents) ∧
      dependencies.Nodup ∧ "app" ∉ dependencies ∧ dependents.Nodup ∧ "util" ∉ dependents) ∧
    ∀ reversed : ModuleGraph, reversed.Reverses layeredImports →
      ∀ fuel', (reversed.imports.getD []).length < fuel' →
        ∃ depth, layeredImports.dependentDepth 5 "util" = some (.ok depth) ∧
          reversed.dependencyDepth fuel' "util" = some (.ok depth) :=
  transitive_agree layeredImports_wellFormed layeredImports_acyclic (by decide) (by decide)
    (by decide)

end Jayess.Resolver
