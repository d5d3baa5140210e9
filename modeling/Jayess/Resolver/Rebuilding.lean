import Jayess.Resolver.Mutations

/-!
# Graphs made by operations

What holds of every graph a run of operations leaves: imports stay within the graph, a removed module
leaves no import behind, and the dependents of all modules give the graph back.
-/

namespace Jayess.Resolver

variable {graph : ModuleGraph} {module name : String}

theorem hasModule_addModules {modules : List String} :
    (modules.foldl (fun graph module => graph.addModule module []) graph).hasModule name = true ↔
      name ∈ modules ∨ graph.hasModule name = true := by
  induction modules generalizing graph with
  | nil => simp
  | cons module rest ih =>
      rw [List.foldl_cons, ih, ModuleGraph.hasModule_addModule, List.mem_cons]
      simp only [List.not_mem_nil, false_or]
      exact or_left_comm.trans or_assoc.symm

theorem not_imports_addModules {modules : List String} {imported : String}
    (hnone : ∀ other, ¬ graph.Imports other imported) :
    ¬ (modules.foldl (fun graph module => graph.addModule module []) graph).Imports name
      imported := by
  induction modules generalizing graph with
  | nil => exact hnone name
  | cons module rest ih =>
      refine ih fun other himports => ?_
      rw [ModuleGraph.imports_addModule] at himports
      split at himports
      · exact List.not_mem_nil himports
      · exact hnone other himports

theorem wellFormed_addModules {modules : List String} (hgraph : graph.WellFormed) :
    (modules.foldl (fun graph module => graph.addModule module []) graph).WellFormed := by
  induction modules generalizing graph with
  | nil => exact hgraph
  | cons module rest ih => exact ih hgraph.addModule

variable {dependents : List String}

theorem imports_addDependents {imported : String} :
    (dependents.foldl (fun graph dependent => graph.addImport dependent module) graph).Imports name
        imported ↔
      graph.Imports name imported ∨ name ∈ dependents ∧ imported = module := by
  induction dependents generalizing graph with
  | nil => simp
  | cons dependent rest ih =>
      rw [List.foldl_cons, ih, ModuleGraph.imports_addImport, List.mem_cons, or_assoc,
        or_and_right]

theorem hasModule_addDependents :
    (dependents.foldl (fun graph dependent => graph.addImport dependent module) graph).hasModule
        name = true ↔
      graph.hasModule name = true ∨ name ∈ dependents ∨ dependents ≠ [] ∧ name = module := by
  induction dependents generalizing graph with
  | nil => simp
  | cons dependent rest ih =>
      rw [List.foldl_cons, ih, ModuleGraph.hasModule_addImport, List.mem_cons]
      constructor
      · rintro ((rfl | rfl | hmodule) | hrest | ⟨-, rfl⟩)
        · exact Or.inr (Or.inl (Or.inl rfl))
        · exact Or.inr (Or.inr ⟨List.cons_ne_nil _ _, rfl⟩)
        · exact Or.inl hmodule
        · exact Or.inr (Or.inl (Or.inr hrest))
        · exact Or.inr (Or.inr ⟨List.cons_ne_nil _ _, rfl⟩)
      · rintro (hmodule | (rfl | hrest) | ⟨-, rfl⟩)
        · exact Or.inl (Or.inr (Or.inr hmodule))
        · exact Or.inl (Or.inl rfl)
        · exact Or.inr (Or.inl hrest)
        · exact Or.inl (Or.inr (Or.inl rfl))

theorem wellFormed_addDependents (hgraph : graph.WellFormed) :
    (dependents.foldl (fun graph dependent => graph.addImport dependent module) graph).WellFormed := by
  induction dependents generalizing graph with
  | nil => exact hgraph
  | cons dependent rest ih => exact ih hgraph.addImport

section Entries

variable {dependentsOf : String → List String} {modules : List String}

theorem imports_addEntries {imported : String} :
    (modules.foldl (fun graph module => (dependentsOf module).foldl
        (fun graph dependent => graph.addImport dependent module) graph) graph).Imports name
        imported ↔
      graph.Imports name imported ∨ imported ∈ modules ∧ name ∈ dependentsOf imported := by
  induction modules generalizing graph with
  | nil => simp
  | cons module rest ih =>
      rw [List.foldl_cons, ih, imports_addDependents, List.mem_cons, or_assoc]
      refine or_congr_right ?_
      constructor
      · rintro (⟨hname, rfl⟩ | ⟨hrest, hname⟩)
        · exact ⟨Or.inl rfl, hname⟩
        · exact ⟨Or.inr hrest, hname⟩
      · rintro ⟨rfl | hrest, hname⟩
        · exact Or.inl ⟨hname, rfl⟩
        · exact Or.inr ⟨hrest, hname⟩

theorem hasModule_addEntries
    (hmodules : ∀ module ∈ modules, graph.hasModule module = true)
    (hdependents : ∀ module ∈ modules, ∀ dependent ∈ dependentsOf module,
      graph.hasModule dependent = true) :
    (modules.foldl (fun graph module => (dependentsOf module).foldl
        (fun graph dependent => graph.addImport dependent module) graph) graph).hasModule
        name = true ↔ graph.hasModule name = true := by
  induction modules generalizing graph with
  | nil => rfl
  | cons module rest ih =>
      have hstep : ∀ other, (List.foldl (fun graph dependent => graph.addImport dependent module)
          graph (dependentsOf module)).hasModule other = true ↔ graph.hasModule other = true := by
        intro other
        rw [hasModule_addDependents, or_iff_left_of_imp]
        rintro (hother | ⟨-, rfl⟩)
        · exact hdependents module List.mem_cons_self other hother
        · exact hmodules other List.mem_cons_self
      rw [List.foldl_cons, ih, hstep]
      · exact fun other hother => (hstep other).mpr (hmodules other (List.mem_cons_of_mem _ hother))
      · exact fun other hother dependent hdependent => (hstep dependent).mpr
          (hdependents other (List.mem_cons_of_mem _ hother) dependent hdependent)

theorem wellFormed_addEntries (hgraph : graph.WellFormed) :
    (modules.foldl (fun graph module => (dependentsOf module).foldl
        (fun graph dependent => graph.addImport dependent module) graph) graph).WellFormed := by
  induction modules generalizing graph with
  | nil => exact hgraph
  | cons module rest ih => exact ih (wellFormed_addDependents hgraph)

end Entries

theorem sortStrings_self {names : List String} : sortStrings (sortStrings names) = sortStrings names :=
  sortStrings_eq (List.mergeSort_perm names _)

theorem modules_eq {other : ModuleGraph} (hgraph : graph.WellFormed) (hother : other.WellFormed)
    (hmodules : ∀ name, graph.hasModule name = true ↔ other.hasModule name = true) :
    graph.modules = other.modules := by
  refine sortStrings_eq ?_
  rw [List.perm_ext_iff_of_nodup hgraph.distinct hother.distinct]
  intro name
  rw [mem_keys_iff, mem_keys_iff]
  exact hmodules name

theorem lookup_dependentMap {imports : List (String × List String)}
    (hmodule : module ∈ (⟨some imports⟩ : ModuleGraph).modules) :
    (((⟨some imports⟩ : ModuleGraph).dependentMap.getD []).lookup module).getD [] =
      (⟨some imports⟩ : ModuleGraph).dependents module := by
  change (List.lookup module (List.map _ _)).getD [] = _
  rw [lookup_map_of_mem hmodule, Option.getD_some]

theorem rebuilt_spec (hgraph : graph.WellFormed) :
    let rebuilt := newModuleGraphFromDependents graph.dependentMap
    rebuilt.modules = graph.modules ∧
      ∀ name imported, rebuilt.Imports name imported ↔ graph.Imports name imported := by
  obtain ⟨_ | imports⟩ := graph
  · have hrebuilt : newModuleGraphFromDependents (⟨none⟩ : ModuleGraph).dependentMap =
        newModuleGraph := by
      simp [newModuleGraphFromDependents, ModuleGraph.dependentMap, sortStrings]
    rw [hrebuilt]
    refine ⟨rfl, fun name imported => ?_⟩
    have hnew : ¬ newModuleGraph.Imports name imported := by
      simp [imports_iff, newModuleGraph, ModuleGraph.find]
    have hnil : ¬ (⟨none⟩ : ModuleGraph).Imports name imported := by
      simp [imports_iff, ModuleGraph.find]
    exact iff_of_false hnew hnil
  · set graph : ModuleGraph := ⟨some imports⟩ with hgraphEq
    set entries := graph.dependentMap.getD [] with hentries
    have hkeys : sortStrings (entries.map Prod.fst) = graph.modules := by
      have hmap : entries.map Prod.fst = graph.modules := by
        rw [hentries, hgraphEq]
        simp [ModuleGraph.dependentMap, Function.comp_def]
      rw [hmap]
      exact sortStrings_self
    have hdependents : ∀ imported ∈ graph.modules, ∀ name,
        name ∈ (entries.lookup imported).getD [] ↔ graph.Imports name imported := by
      intro imported himported name
      rw [hentries, lookup_dependentMap himported, hgraph.mem_dependents]
    intro rebuilt
    have hrebuilt : rebuilt = graph.modules.foldl (fun built module =>
        ((entries.lookup module).getD []).foldl
          (fun built dependent => built.addImport dependent module) built)
        (graph.modules.foldl (fun built module => built.addModule module []) newModuleGraph) := by
      rw [← hkeys]
      rfl
    have hwellFormed : rebuilt.WellFormed := by
      rw [hrebuilt]
      exact wellFormed_addEntries (wellFormed_addModules wellFormed_new)
    have hempty : ∀ name, newModuleGraph.hasModule name = false := fun _ => rfl
    have hadded : ∀ name, (graph.modules.foldl (fun built module => built.addModule module [])
        newModuleGraph).hasModule name = true ↔ name ∈ graph.modules := by
      intro name
      rw [hasModule_addModules, hempty]
      simp
    refine ⟨modules_eq hwellFormed hgraph fun name => ?_, fun name imported => ?_⟩
    · rw [hrebuilt, hasModule_addEntries, hadded, mem_modules]
      · exact fun module hmodule => (hadded module).mpr hmodule
      · intro module hmodule dependent hdependent
        rw [hadded, mem_modules]
        exact ((hdependents module hmodule dependent).mp hdependent).hasModule
    · rw [hrebuilt, imports_addEntries]
      constructor
      · rintro (hadded | ⟨hmodule, hname⟩)
        · refine absurd hadded (not_imports_addModules fun other => ?_)
          simp [imports_iff, newModuleGraph, ModuleGraph.find]
        · exact (hdependents imported hmodule name).mp hname
      · intro himports
        have hmodule := mem_modules.mpr (hgraph.closed name imported himports)
        exact Or.inr ⟨hmodule, (hdependents imported hmodule name).mpr himports⟩

/-- What holds of the imports of a graph, whatever operations made it. -/
structure ModuleGraph.Coherent (graph : ModuleGraph) : Prop where
  closed : ∀ module imported, graph.Imports module imported → graph.hasModule imported = true
  notImported : ∀ module name, ¬ (graph.removeModule module).2.Imports name module
  otherModules : ∀ module name, (graph.removeModule module).2.hasModule name = true ↔
    name ≠ module ∧ graph.hasModule name = true
  otherImports : ∀ module name, name ≠ module →
    (graph.removeModule module).2.importsOf name =
      (graph.importsOf name).filter fun imported => imported ≠ module
  sameModules : (newModuleGraphFromDependents graph.dependentMap).modules = graph.modules
  sameImports : ∀ name imported,
    (newModuleGraphFromDependents graph.dependentMap).Imports name imported ↔
      graph.Imports name imported

theorem ModuleGraph.WellFormed.coherent (hgraph : graph.WellFormed) : graph.Coherent where
  closed := hgraph.closed
  notImported _ _ := ModuleGraph.not_imports_removeModule hgraph
  otherModules _ _ := ModuleGraph.hasModule_removeModule
  otherImports _ _ hne := ModuleGraph.importsOf_removeModule hgraph hne
  sameModules := (rebuilt_spec hgraph).1
  sameImports := (rebuilt_spec hgraph).2

/-- Every run of calls leaves a coherent graph, from an empty map and from none. -/
theorem afterCalls_coherent (calls : List GraphCall) :
    (newModuleGraph.afterCalls calls).Coherent ∧
      ((⟨none⟩ : ModuleGraph).afterCalls calls).Coherent :=
  ⟨(wellFormed_new.afterCalls calls).coherent, (wellFormed_nil.afterCalls calls).coherent⟩

end Jayess.Resolver
