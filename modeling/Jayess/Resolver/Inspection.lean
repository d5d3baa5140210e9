import Mathlib.Data.List.Sort
import Mathlib.Data.String.Basic
import Jayess.Resolver.InitializationOrder

/-! # Looking into a module graph -/

namespace Jayess.Resolver

def ModuleGraph.find (graph : ModuleGraph) (module : String) : Option (List String) :=
  (graph.imports.getD []).lookup module

def ModuleGraph.hasModule (graph : ModuleGraph) (module : String) : Bool :=
  (graph.find module).isSome

/-- `sort.Strings`. -/
def sortStrings (names : List String) : List String :=
  names.mergeSort fun left right => decide (left ≤ right)

def ModuleGraph.modules (graph : ModuleGraph) : List String :=
  sortStrings ((graph.imports.getD []).map Prod.fst)

/-- `Dependents`: the modules that import a module, each once. -/
def ModuleGraph.dependents (graph : ModuleGraph) (module : String) : List String :=
  sortStrings (((graph.imports.getD []).filter fun entry => module ∈ entry.2).map Prod.fst)

/-- `DependentMap`, with its entries in the order they are set. -/
def ModuleGraph.dependentMap (graph : ModuleGraph) : Option (List (String × List String)) :=
  match graph.imports with
  | none => none
  | some _ => some (graph.modules.map fun module => (module, graph.dependents module))

/-- A map has one entry for each key, and what a module imports is a module of the graph. -/
structure ModuleGraph.WellFormed (graph : ModuleGraph) : Prop where
  distinct : ((graph.imports.getD []).map Prod.fst).Nodup
  closed : ∀ module imported, graph.Imports module imported → graph.hasModule imported = true

variable {graph : ModuleGraph} {module : String}

theorem importsOf_eq : graph.importsOf module = (graph.find module).getD [] := rfl

variable {names : List String} {imports : List (String × List String)}

theorem mem_sortStrings {name : String} :
    name ∈ sortStrings names ↔ name ∈ names :=
  (List.mergeSort_perm names _).mem_iff

theorem nodup_sortStrings (hnodup : names.Nodup) :
    (sortStrings names).Nodup :=
  (List.mergeSort_perm names _).nodup_iff.mpr hnodup

theorem sortStrings_eq {names' : List String} (hperm : names.Perm names') :
    sortStrings names = sortStrings names' := by
  have hsorted (list : List String) : (sortStrings list).Pairwise (· ≤ ·) :=
    List.pairwise_mergeSort' (· ≤ ·) list
  refine List.Perm.eq_of_pairwise' (hsorted names) (hsorted names') ?_
  calc
    sortStrings names |>.Perm names := List.mergeSort_perm names _
    _ |>.Perm names' := hperm
    _ |>.Perm (sortStrings names') := (List.mergeSort_perm names' _).symm

theorem mem_keys_iff :
    module ∈ imports.map Prod.fst ↔ (imports.lookup module).isSome = true := by
  rw [List.lookup_isSome_iff, List.mem_map]
  constructor
  · rintro ⟨entry, hentry, rfl⟩
    exact ⟨entry, hentry, BEq.rfl⟩
  · rintro ⟨entry, hentry, heq⟩
    exact ⟨entry, hentry, (eq_of_beq heq).symm⟩

theorem lookup_of_mem {imported : List String} (hdistinct : (imports.map Prod.fst).Nodup)
    (hentry : (module, imported) ∈ imports) :
    imports.lookup module = some imported := by
  induction imports with
  | nil => simp at hentry
  | cons entry rest ih =>
      obtain ⟨hnew, hrest⟩ := List.nodup_cons.mp hdistinct
      rcases List.mem_cons.mp hentry with rfl | hentry
      · exact List.lookup_cons_self
      · have hne : module ≠ entry.1 := by
          rintro rfl
          exact hnew (List.mem_map.mpr ⟨_, hentry, rfl⟩)
        rw [List.lookup_cons, beq_false_of_ne hne]
        exact ih hrest hentry

theorem lookup_map_of_mem {β : Type} {modules : List String} {f : String → β}
    (hmodule : module ∈ modules) :
    (modules.map fun module => (module, f module)).lookup module = some (f module) := by
  induction modules with
  | nil => simp at hmodule
  | cons first rest ih =>
      rw [List.map_cons, List.lookup_cons]
      by_cases heq : module = first
      · simp [heq]
      · rw [beq_false_of_ne heq]
        exact ih ((List.mem_cons.mp hmodule).resolve_left heq)

theorem mem_of_lookup {imported : List String} (hlookup : imports.lookup module = some imported) :
    (module, imported) ∈ imports := by
  obtain ⟨before, after, rfl, -⟩ := List.lookup_eq_some_iff.mp hlookup
  exact List.mem_append_right _ List.mem_cons_self

theorem mem_modules : module ∈ graph.modules ↔ graph.hasModule module = true := by
  rw [ModuleGraph.modules, mem_sortStrings, mem_keys_iff]
  rfl

theorem ModuleGraph.WellFormed.nodup_modules (hgraph : graph.WellFormed) : graph.modules.Nodup :=
  nodup_sortStrings hgraph.distinct

theorem imports_iff {imported : String} :
    graph.Imports module imported ↔ ∃ list, graph.find module = some list ∧ imported ∈ list := by
  unfold ModuleGraph.Imports
  rw [importsOf_eq]
  cases graph.find module <;> simp

theorem ModuleGraph.Imports.hasModule {imported : String}
    (himports : graph.Imports module imported) : graph.hasModule module = true := by
  obtain ⟨list, hfind, -⟩ := imports_iff.mp himports
  rw [ModuleGraph.hasModule, hfind]
  rfl

theorem ModuleGraph.WellFormed.mem_dependents (hgraph : graph.WellFormed) {importer : String} :
    importer ∈ graph.dependents module ↔ graph.Imports importer module := by
  rw [ModuleGraph.dependents, mem_sortStrings, List.mem_map, imports_iff]
  constructor
  · rintro ⟨⟨_, list⟩, hentry, rfl⟩
    obtain ⟨hentry, hmem⟩ := List.mem_filter.mp hentry
    exact ⟨list, lookup_of_mem hgraph.distinct hentry, by simpa using hmem⟩
  · rintro ⟨list, hfind, hmem⟩
    exact ⟨(importer, list), List.mem_filter.mpr ⟨mem_of_lookup hfind, by simpa using hmem⟩, rfl⟩

end Jayess.Resolver
