import Jayess.Resolver.Batches

/-!
# The part of a graph that entries reach

The modules of an initialization order are closed under imports, so the search, the walks and the depths of the
subgraph on them are those of the whole graph.
-/

namespace Jayess.Resolver

open Relation Graph

namespace ModuleGraph

def reachableSubgraph (graph : ModuleGraph) (order : List String) : ModuleGraph :=
  order.foldl (fun subgraph module =>
    subgraph.addModule module ((graph.importsOf module).filter fun imported => imported ∈ order)) newModuleGraph

def reachableSubgraphFor (graph : ModuleGraph) (fuel : Nat) (entries : List String) : Searched ModuleGraph :=
  match graph.initializationOrderFor fuel entries with
  | none => none
  | some (.error error) => some (.error error)
  | some (.ok order) => some (.ok (if order.length = 0 then newModuleGraph else graph.reachableSubgraph order))

def initializationBatchesFor (graph : ModuleGraph) (fuel : Nat) (entries : List String) :
    Searched (List (List String)) :=
  match graph.initializationOrderFor fuel entries with
  | none => none
  | some (.error error) => some (.error error)
  | some (.ok order) =>
      if order.length = 0 then some (.ok []) else (graph.reachableSubgraph order).dependencyDepthLayers fuel

end ModuleGraph

/-- What every module of the list imports is in the list. -/
def ModuleGraph.ClosedOn (graph : ModuleGraph) (order : List String) : Prop :=
  ∀ module ∈ order, ∀ imported, graph.Imports module imported → imported ∈ order

variable {graph : ModuleGraph} {order entries : List String} {module name : String} {fuel : Nat}

section Chosen

variable {chosen : String → List String} {list : List String} {start : ModuleGraph}

theorem importsOf_chosen :
    (list.foldl (fun subgraph module => subgraph.addModule module (chosen module)) start).importsOf name =
      if name ∈ list then chosen name else start.importsOf name := by
  induction list generalizing start with
  | nil => simp
  | cons module rest ih =>
      rw [List.foldl_cons, ih, importsOf_eq, importsOf_eq, ModuleGraph.find_addModule]
      by_cases hname : name = module <;> by_cases hrest : name ∈ rest <;> by_cases hmem : name ∈ chosen module <;>
        simp [hname, hrest, hmem]

theorem hasModule_chosen :
    (list.foldl (fun subgraph module => subgraph.addModule module (chosen module)) start).hasModule name = true ↔
      start.hasModule name = true ∨ ∃ module ∈ list, name = module ∨ name ∈ chosen module := by
  induction list generalizing start with
  | nil => simp
  | cons module rest ih =>
      rw [List.foldl_cons, ih, ModuleGraph.hasModule_addModule]
      simp only [List.mem_cons, or_and_right, exists_or, exists_eq_left]
      generalize (∃ module ∈ rest, name = module ∨ name ∈ chosen module) = later
      tauto

theorem wellFormed_chosen (hstart : start.WellFormed) :
    (list.foldl (fun subgraph module => subgraph.addModule module (chosen module)) start).WellFormed := by
  induction list generalizing start with
  | nil => exact hstart
  | cons module rest ih => exact ih hstart.addModule

end Chosen

theorem importsOf_reachableSubgraph (hclosed : graph.ClosedOn order) :
    (graph.reachableSubgraph order).importsOf name = if name ∈ order then graph.importsOf name else [] := by
  rw [ModuleGraph.reachableSubgraph, importsOf_chosen]
  split
  · rename_i hname
    exact List.filter_eq_self.mpr fun imported himported => by simpa using hclosed name hname imported himported
  · rfl

theorem hasModule_reachableSubgraph : (graph.reachableSubgraph order).hasModule name = true ↔ name ∈ order := by
  rw [ModuleGraph.reachableSubgraph, hasModule_chosen]
  constructor
  · rintro (hnew | ⟨module, hmodule, rfl | hname⟩)
    · cases hnew
    · exact hmodule
    · simpa using (List.mem_filter.mp hname).2
  · exact fun hname => .inr ⟨name, hname, .inl rfl⟩

theorem wellFormed_reachableSubgraph : (graph.reachableSubgraph order).WellFormed :=
  wellFormed_chosen wellFormed_new

theorem visitAll_congr {visit visit' : String → Search → Option (Except ImportCycleError Search)}
    {modules : List String} (hvisit : ∀ module ∈ modules, ∀ search, visit module search = visit' module search)
    (search : Search) : visitAll visit modules search = visitAll visit' modules search := by
  induction modules generalizing search with
  | nil => rfl
  | cons module rest ih =>
      rw [visitAll, visitAll, hvisit module List.mem_cons_self]
      simp only [ih fun other hother => hvisit other (List.mem_cons_of_mem _ hother)]

theorem visit_reachableSubgraph (hclosed : graph.ClosedOn order) (fuel : Nat) (hmodule : module ∈ order)
    (search : Search) : (graph.reachableSubgraph order).visit fuel module search = graph.visit fuel module search := by
  induction fuel generalizing module search with
  | zero => rfl
  | succ fuel ih =>
      rw [ModuleGraph.visit, ModuleGraph.visit, importsOf_reachableSubgraph hclosed, if_pos hmodule,
        visitAll_congr fun imported himported => ih (hclosed module hmodule imported himported)]

theorem reachableSubgraph_imports : (graph.reachableSubgraph order).imports ≠ none := by
  have hfold : ∀ (list : List String) (start : ModuleGraph), start.imports ≠ none →
      (list.foldl (fun subgraph module => subgraph.addModule module
        ((graph.importsOf module).filter fun imported => imported ∈ order)) start).imports ≠ none := by
    intro list
    induction list with
    | nil => exact fun _ hstart => hstart
    | cons module rest ih => exact fun _ _ => ih _ nofun
  exact hfold order newModuleGraph nofun

/-- `InitializationOrderFor` on a graph with a map: the order of what the entries reach, or a cycle. -/
theorem initializationOrderFor_cases (entries : List String) (hmap : graph.imports ≠ none)
    (hfuel : (graph.imports.getD []).length < fuel) :
    (∃ order, graph.initializationOrderFor fuel entries = some (.ok order) ∧ order.Nodup ∧ graph.Ordered order ∧
      ∀ module, module ∈ order ↔ ∃ entry ∈ entries, ReflTransGen graph.Imports entry module) ∨
    ∃ error, graph.initializationOrderFor fuel entries = some (.error error) ∧ graph.ReachesCycle entries := by
  have hends : Search.new.Ends graph entries (visitAll (graph.visit fuel) entries .new) := by
    refine Search.visitAll_ends Search.valid_new ?_ ?_
    · intro entry _ last hlast
      simp [Search.new] at hlast
    · intro entry _ current hvalid hstack hoffers
      exact graph.visit_ends fuel hvalid hoffers (by rw [hstack]; exact hfuel)
  obtain ⟨imports, himports⟩ := Option.ne_none_iff_exists'.mp hmap
  rw [ModuleGraph.initializationOrderFor, himports]
  simp only
  cases hresult : visitAll (graph.visit fuel) entries .new with
  | none =>
      rw [hresult] at hends
      exact hends.elim
  | some found =>
      cases found with
      | error error =>
          rw [hresult] at hends
          have hfails : Search.Fails graph entries error := hends
          obtain ⟨first, hfirst⟩ : ∃ first, error.cycle.head? = some first := by
            rw [← Option.isSome_iff_exists, List.isSome_head?]
            exact List.ne_nil_of_length_pos (Nat.lt_of_lt_of_le Nat.two_pos hfails.isCycle.long)
          obtain ⟨entry, hentry, hreaches⟩ := hfails.reached first (List.mem_of_head? hfirst)
          exact .inr ⟨error, rfl, entry, hentry, first, hreaches, hfails.isCycle.transGen hfirst⟩
      | ok found =>
          rw [hresult] at hends
          have hextends : Search.new.Extends graph entries found := hends
          refine .inl ⟨found.order, rfl, hextends.valid.nodup, hextends.valid.ordered, fun module => ?_⟩
          constructor
          · intro hmodule
            obtain ⟨added, horder, hadded⟩ := hextends.extended
            rw [horder] at hmodule
            exact hadded module (by simpa [Search.new] using hmodule)
          · rintro ⟨entry, hentry, hreaches⟩
            exact hextends.valid.ordered.reachable (hextends.listed entry hentry) hreaches

theorem ModuleGraph.Ordered.closedOn (hordered : graph.Ordered order) : graph.ClosedOn order :=
  fun _ hmodule _ himports => hordered.closed hmodule himports

/-- The subgraph that some entries reach orders whatever it is asked for as the whole graph does. -/
theorem reachableSubgraphFor_order {subgraph : ModuleGraph} {chosen : List String} (hmap : graph.imports ≠ none)
    (hfuel : (graph.imports.getD []).length < fuel)
    (hsubgraph : graph.reachableSubgraphFor fuel entries = some (.ok subgraph))
    (hchosen : ∀ entry ∈ chosen, subgraph.hasModule entry = true) (steps : Nat) :
    subgraph.initializationOrderFor steps chosen = graph.initializationOrderFor steps chosen := by
  rcases initializationOrderFor_cases entries hmap hfuel with
    ⟨order, horder, -, hordered, -⟩ | ⟨error, herror, -⟩
  · have heq : subgraph = graph.reachableSubgraph order := by
      simp only [ModuleGraph.reachableSubgraphFor, horder, Option.some.injEq, Except.ok.injEq] at hsubgraph
      rw [← hsubgraph]
      split
      · rename_i hempty
        rw [List.length_eq_zero_iff.mp hempty]
        rfl
      · rfl
    subst heq
    obtain ⟨imports, himports⟩ := Option.ne_none_iff_exists'.mp hmap
    obtain ⟨imports', himports'⟩ := Option.ne_none_iff_exists'.mp (@reachableSubgraph_imports graph order)
    have hsearch := visitAll_congr (fun entry hentry => visit_reachableSubgraph hordered.closedOn steps
      (hasModule_reachableSubgraph.mp (hchosen entry hentry))) Search.new
    simp only [ModuleGraph.initializationOrderFor, himports, himports', hsearch]
  · simp [ModuleGraph.reachableSubgraphFor, herror] at hsubgraph

theorem length_modules : graph.modules.length = (graph.imports.getD []).length := by
  simp [ModuleGraph.modules, sortStrings]

theorem imports_reachableSubgraph (hclosed : graph.ClosedOn order) {imported : String} :
    (graph.reachableSubgraph order).Imports module imported ↔ module ∈ order ∧ graph.Imports module imported := by
  unfold ModuleGraph.Imports
  rw [importsOf_reachableSubgraph hclosed]
  split <;> simp [*]

theorem isWalk_reachableSubgraph (hclosed : graph.ClosedOn order) {walk : List String} (hmodule : module ∈ order) :
    IsWalk (graph.reachableSubgraph order).Imports module walk ↔ IsWalk graph.Imports module walk := by
  refine ⟨fun hwalk => ⟨hwalk.head, hwalk.chain.imp fun _ _ himports =>
    ((imports_reachableSubgraph hclosed).mp himports).2⟩, fun hwalk => ?_⟩
  induction walk generalizing module with
  | nil => cases hwalk.head
  | cons first rest ih =>
      rcases hwalk.cases with heq | ⟨second, rest', himports, hrest, heq⟩
      · exact heq ▸ .singleton
      · obtain ⟨-, rfl⟩ := List.cons.inj heq
        rw [heq]
        exact (ih (hclosed module hmodule second himports) hrest).cons
          ((imports_reachableSubgraph hclosed).mpr ⟨hmodule, himports⟩)

theorem longest_of_reachableSubgraph {steps : Nat} (hclosed : graph.ClosedOn order) (hmodule : module ∈ order)
    (hlongest : Longest (graph.reachableSubgraph order).Imports module steps) :
    Longest graph.Imports module steps where
  attained := by
    obtain ⟨walk, hwalk, hlength⟩ := hlongest.attained
    exact ⟨walk, (isWalk_reachableSubgraph hclosed hmodule).mp hwalk, hlength⟩
  bounded walk hwalk := hlongest.bounded walk ((isWalk_reachableSubgraph hclosed hmodule).mpr hwalk)

/-- Batches of what entries reach: a batch holds modules of one depth, and imports lie in earlier batches. -/
structure ModuleGraph.BatchedFor (graph : ModuleGraph) (entries : List String) (batches : List (List String)) :
    Prop where
  nodup : batches.flatten.Nodup
  reached : ∀ module, module ∈ batches.flatten ↔ ∃ entry ∈ entries, ReflTransGen graph.Imports entry module
  level : ∀ (index : Nat) batch, batches[index]? = some batch →
    batch ≠ [] ∧ ∀ module ∈ batch, Longest graph.Imports module index
  earlier : ∀ module imported, graph.Imports module imported →
    ∀ (index : Nat) batch, batches[index]? = some batch → module ∈ batch →
      ∃ before < index, ∃ batch', batches[before]? = some batch' ∧ imported ∈ batch'

theorem dependencyDepthLayers_batched (hgraph : graph.WellFormed)
    (hacyclic : ∀ module, ¬ TransGen graph.Imports module module) (hfuel : (graph.imports.getD []).length < fuel) :
    ∃ batches, graph.dependencyDepthLayers fuel = some (.ok batches) ∧ graph.Batched batches := by
  have hdepth : ∀ module ∈ graph.modules,
      graph.dependencyDepth fuel module = some (.ok (graph.depthOf fuel module)) ∧
        Longest graph.Imports module (graph.depthOf fuel module) :=
    fun module hmodule => dependencyDepth_eq hacyclic hfuel (mem_modules.mp hmodule)
  obtain ⟨bound, hlayers, hbound⟩ := dependencyDepthLayers_eq (fun module hmodule => (hdepth module hmodule).1)
    (fun module level hmodule heq => by
      obtain ⟨other, himports, hother⟩ := (heq ▸ (hdepth module hmodule).2).exists_step
      have hother' := mem_modules.mpr (hgraph.closed module other himports)
      exact ⟨other, hother', (hdepth other hother').2.unique hother⟩)
  exact ⟨_, hlayers, batched_atDepth hgraph (fun module hmodule => (hdepth module hmodule).2) hbound⟩

/-- `InitializationBatchesFor` fails exactly when an entry reaches a cycle, and otherwise gives the batches of what the
entries reach. -/
theorem initializationBatchesFor_spec (hgraph : graph.WellFormed) (hmap : graph.imports ≠ none)
    (hfuel : (graph.imports.getD []).length + entries.length < fuel) :
    ∃ result, graph.initializationBatchesFor fuel entries = some result ∧
      ((∃ error, result = .error error) ↔ graph.ReachesCycle entries) ∧
      ∀ batches, result = .ok batches → graph.BatchedFor entries batches := by
  rcases initializationOrderFor_cases entries hmap (Nat.lt_of_le_of_lt (Nat.le_add_right _ _) hfuel) with
    ⟨order, horder, hnodup, hordered, hmem⟩ | ⟨error, herror, hcycle⟩
  · have hacyclic : ¬ graph.ReachesCycle entries := fun ⟨entry, hentry, module, hreaches, hcycle⟩ =>
      hordered.acyclic hnodup ((hmem module).mpr ⟨entry, hentry, hreaches⟩) hcycle
    rw [ModuleGraph.initializationBatchesFor, horder]
    by_cases hempty : order.length = 0
    · rw [List.length_eq_zero_iff] at hempty
      subst hempty
      refine ⟨.ok [], rfl, iff_of_false nofun hacyclic, ?_⟩
      rintro batches ⟨rfl⟩
      exact ⟨List.nodup_nil, by simpa using hmem, by simp, by simp⟩
    · have hclosed := hordered.closedOn
      have hlength : ((graph.reachableSubgraph order).imports.getD []).length < fuel := by
        have hmodules : (graph.reachableSubgraph order).modules ⊆ order := fun module hmodule =>
          hasModule_reachableSubgraph.mp (mem_modules.mp hmodule)
        have horder : order ⊆ entries ++ graph.modules := fun module hmodule => by
          obtain ⟨entry, hentry, hreaches⟩ := (hmem module).mp hmodule
          rcases ReflTransGen.cases_tail hreaches with rfl | ⟨importer, -, himports⟩
          · exact List.mem_append_left _ hentry
          · exact List.mem_append_right _ (mem_modules.mpr (hgraph.closed importer module himports))
        have hle := (List.subperm_of_subset wellFormed_reachableSubgraph.nodup_modules hmodules).length_le
        have hle' := (List.subperm_of_subset hnodup horder).length_le
        rw [List.length_append, length_modules] at hle'
        rw [length_modules] at hle
        omega
      obtain ⟨batches, hlayers, hbatched⟩ := dependencyDepthLayers_batched
        (@wellFormed_reachableSubgraph graph order) (fun module hcycle => by
          obtain ⟨_, himports, -⟩ := TransGen.head'_iff.mp hcycle
          refine hordered.acyclic hnodup ((imports_reachableSubgraph hclosed).mp himports).1
            (TransGen.mono (fun _ _ himports => ?_) _ _ hcycle)
          exact ((imports_reachableSubgraph hclosed).mp himports).2) hlength
      refine ⟨.ok batches, ?_, iff_of_false nofun hacyclic, ?_⟩
      · simp [hempty, hlayers]
      · rintro _ ⟨rfl⟩
        have hflatten : ∀ module, module ∈ batches.flatten ↔ module ∈ order := fun module => by
          rw [hbatched.partition.mem_iff, mem_modules, hasModule_reachableSubgraph]
        refine ⟨hbatched.partition.nodup_iff.mpr hbatched.nodup, fun module => (hflatten module).trans (hmem module),
          fun index batch hbatch => ?_, fun module imported himports index batch hbatch hmodule => ?_⟩
        · obtain ⟨hne, hlevel⟩ := hbatched.level index batch hbatch
          refine ⟨hne, fun module hmodule => ?_⟩
          obtain ⟨hmodule, hlongest⟩ := (hlevel module).mp hmodule
          exact longest_of_reachableSubgraph hclosed (hasModule_reachableSubgraph.mp hmodule) hlongest
        · have hmodule' := (hflatten module).mp (List.mem_flatten_of_mem (List.mem_of_getElem? hbatch) hmodule)
          exact hbatched.earlier module imported ((imports_reachableSubgraph hclosed).mpr ⟨hmodule', himports⟩) index
            batch hbatch hmodule
  · refine ⟨.error error, ?_, iff_of_true ⟨error, rfl⟩ hcycle, nofun⟩
    rw [ModuleGraph.initializationBatchesFor, herror]

theorem layeredImports_batchesFor : ∃ result, layeredImports.initializationBatchesFor 9 ["log", "log"] = some result ∧
    ((∃ error, result = .error error) ↔ layeredImports.ReachesCycle ["log", "log"]) ∧
    ∀ batches, result = .ok batches → layeredImports.BatchedFor ["log", "log"] batches :=
  initializationBatchesFor_spec layeredImports_wellFormed (by decide) (by decide)

theorem layeredImports_subgraph : ∃ subgraph, layeredImports.reachableSubgraphFor 9 ["log"] = some (.ok subgraph) ∧
    subgraph.initializationOrderFor 3 ["util", "log"] = layeredImports.initializationOrderFor 3 ["util", "log"] := by
  have hsubgraph : layeredImports.reachableSubgraphFor 9 ["log"] =
      some (.ok (layeredImports.reachableSubgraph ["util", "log"])) := rfl
  exact ⟨_, hsubgraph, reachableSubgraphFor_order (by decide) (by decide) hsubgraph (by decide) 3⟩

end Jayess.Resolver
