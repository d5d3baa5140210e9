import Jayess.Resolver.Inspection

/-! # Changing a module graph -/

namespace Jayess.Resolver

def ensureModule (imports : List (String × List String)) (name : String) :
    List (String × List String) :=
  if (imports.lookup name).isSome then imports else setImports name [] imports

/-- `compactModuleImports`: every import once, where it comes first. -/
def compactModuleImports : List String → List String → List String
  | _, [] => []
  | seen, imported :: rest =>
      if imported ∈ seen then compactModuleImports seen rest
      else imported :: compactModuleImports (imported :: seen) rest

namespace ModuleGraph

def addCompactModule (graph : ModuleGraph) (module : String) (imported : List String) :
    ModuleGraph :=
  graph.addModule module (compactModuleImports [] imported)

def addImport (graph : ModuleGraph) (module imported : String) : ModuleGraph :=
  let imports := graph.imports.getD []
  let extended := setImports module ((imports.lookup module).getD [] ++ [imported]) imports
  ⟨some (ensureModule extended imported)⟩

/-- `RemoveImport`: the first import of a module, and whether there was one. -/
def removeImport (graph : ModuleGraph) (module imported : String) : Bool × ModuleGraph :=
  match graph.imports with
  | none => (false, graph)
  | some imports =>
      match imports.lookup module with
      | none => (false, graph)
      | some list =>
          if imported ∈ list then (true, ⟨some (setImports module (list.erase imported) imports)⟩)
          else (false, graph)

/-- `RemoveAllImports`, and how many there were. -/
def removeAllImports (graph : ModuleGraph) (module imported : String) : Nat × ModuleGraph :=
  match graph.imports with
  | none => (0, graph)
  | some imports =>
      match imports.lookup module with
      | none => (0, graph)
      | some list =>
          (list.count imported,
            ⟨some (setImports module (list.filter fun name => name ≠ imported) imports)⟩)

/-- `RemoveModule`: its entry, and then every import of it. -/
def removeModule (graph : ModuleGraph) (module : String) : Bool × ModuleGraph :=
  match graph.imports with
  | none => (false, graph)
  | some imports =>
      match imports.lookup module with
      | none => (false, graph)
      | some _ =>
          let kept := imports.filter fun entry => entry.1 ≠ module
          (true, (kept.map Prod.fst).foldl
            (fun graph importer => (graph.removeAllImports importer module).2) ⟨some kept⟩)

def replaceImports (graph : ModuleGraph) (module : String) (imported : List String) : ModuleGraph :=
  graph.addModule module imported

end ModuleGraph

/-- A call that changes a graph. -/
inductive GraphCall where
  | addModule (module : String) (imports : List String)
  | addCompactModule (module : String) (imports : List String)
  | addImport (module imported : String)
  | removeImport (module imported : String)
  | removeAllImports (module imported : String)
  | removeModule (module : String)
  | replaceImports (module : String) (imports : List String)
deriving DecidableEq, Repr

/-- The graph a call leaves. -/
def GraphCall.apply : GraphCall → ModuleGraph → ModuleGraph
  | addModule module imports, graph => graph.addModule module imports
  | addCompactModule module imports, graph => graph.addCompactModule module imports
  | addImport module imported, graph => graph.addImport module imported
  | removeImport module imported, graph => (graph.removeImport module imported).2
  | removeAllImports module imported, graph => (graph.removeAllImports module imported).2
  | removeModule module, graph => (graph.removeModule module).2
  | replaceImports module imports, graph => graph.replaceImports module imports

def ModuleGraph.afterCalls (graph : ModuleGraph) (calls : List GraphCall) : ModuleGraph :=
  calls.foldl (fun graph call => call.apply graph) graph

/-- `NewModuleGraphFromDependents`: the modules, and then an import for each dependent. -/
def newModuleGraphFromDependents (dependents : Option (List (String × List String))) :
    ModuleGraph :=
  let entries := dependents.getD []
  let modules := sortStrings (entries.map Prod.fst)
  let graph := modules.foldl (fun graph module => graph.addModule module []) newModuleGraph
  modules.foldl (fun graph module =>
    ((entries.lookup module).getD []).foldl
      (fun graph dependent => graph.addImport dependent module) graph) graph

variable {imports : List (String × List String)} {module name : String}

theorem lookup_filter_ne (hne : name ≠ module) :
    (imports.filter fun entry => entry.1 ≠ module).lookup name = imports.lookup name := by
  induction imports with
  | nil => rfl
  | cons entry rest ih =>
      by_cases hentry : entry.1 = module
      · rw [List.filter_cons_of_neg (by simpa using hentry), ih, List.lookup_cons,
          beq_false_of_ne (hentry ▸ hne)]
      · rw [List.filter_cons_of_pos (by simpa using hentry), List.lookup_cons, List.lookup_cons, ih]

theorem lookup_filter_self : (imports.filter fun entry => entry.1 ≠ module).lookup module = none := by
  rw [List.lookup_eq_none_iff]
  intro entry hentry
  have hne : entry.1 ≠ module := by simpa using (List.mem_filter.mp hentry).2
  exact bne_iff_ne.mpr hne.symm

theorem lookup_setImports {list : List String} :
    (setImports module list imports).lookup name =
      if name = module then some list else imports.lookup name := by
  by_cases heq : name = module
  · subst heq
    rw [if_pos rfl]
    exact List.lookup_cons_self
  · rw [if_neg heq, setImports, List.lookup_cons, beq_false_of_ne heq]
    exact lookup_filter_ne heq

theorem keys_filter :
    (imports.filter fun entry => entry.1 ≠ module).map Prod.fst =
      (imports.map Prod.fst).filter fun name => name ≠ module := by
  rw [List.filter_map]
  rfl

theorem distinct_setImports {list : List String} (hdistinct : (imports.map Prod.fst).Nodup) :
    ((setImports module list imports).map Prod.fst).Nodup := by
  rw [setImports, List.map_cons, keys_filter, List.nodup_cons]
  exact ⟨by simp, hdistinct.filter _⟩

theorem lookup_ensureModule {imported : String} :
    (ensureModule imports imported).lookup name =
      if name = imported then some ((imports.lookup name).getD []) else imports.lookup name := by
  unfold ensureModule
  by_cases hsome : (imports.lookup imported).isSome = true
  · rw [if_pos hsome]
    split
    · rename_i heq
      subst heq
      obtain ⟨list, hlist⟩ := Option.isSome_iff_exists.mp hsome
      rw [hlist]
      rfl
    · rfl
  · rw [if_neg hsome, lookup_setImports]
    split
    · rename_i heq
      subst heq
      rw [Option.not_isSome_iff_eq_none.mp hsome]
      rfl
    · rfl

theorem distinct_ensureModule (hdistinct : (imports.map Prod.fst).Nodup) :
    ((ensureModule imports name).map Prod.fst).Nodup := by
  unfold ensureModule
  split
  · exact hdistinct
  · exact distinct_setImports hdistinct

theorem lookup_ensureModules {list : List String} :
    (list.foldl ensureModule imports).lookup name =
      if name ∈ list then some ((imports.lookup name).getD []) else imports.lookup name := by
  induction list generalizing imports with
  | nil => simp
  | cons imported rest ih =>
      rw [List.foldl_cons, ih, lookup_ensureModule]
      by_cases heq : name = imported <;> by_cases hmem : name ∈ rest <;> simp [heq, hmem]

theorem distinct_ensureModules {list : List String} (hdistinct : (imports.map Prod.fst).Nodup) :
    ((list.foldl ensureModule imports).map Prod.fst).Nodup := by
  induction list generalizing imports with
  | nil => exact hdistinct
  | cons imported rest ih => exact ih (distinct_ensureModule hdistinct)

namespace ModuleGraph

variable {graph : ModuleGraph} {imported : String} {list : List String}

/-- One entry for each module. -/
def Distinct (graph : ModuleGraph) : Prop := ((graph.imports.getD []).map Prod.fst).Nodup

theorem find_addModule :
    (graph.addModule module list).find name =
      if name = module then some list
      else if name ∈ list then some ((graph.find name).getD []) else graph.find name := by
  change (list.foldl ensureModule (setImports module list (graph.imports.getD []))).lookup name = _
  rw [lookup_ensureModules, lookup_setImports]
  by_cases heq : name = module <;> by_cases hmem : name ∈ list <;>
    simp [heq, hmem, ModuleGraph.find]

theorem distinct_addModule (hdistinct : graph.Distinct) : (graph.addModule module list).Distinct :=
  distinct_ensureModules (distinct_setImports hdistinct)

theorem find_addImport :
    (graph.addImport module imported).find name =
      if name = module then some ((graph.find module).getD [] ++ [imported])
      else if name = imported then some ((graph.find name).getD []) else graph.find name := by
  change (ensureModule (setImports module _ (graph.imports.getD [])) imported).lookup name = _
  rw [lookup_ensureModule, lookup_setImports]
  by_cases heq : name = module
  · simp [heq, ModuleGraph.find]
  · simp only [if_neg heq, ModuleGraph.find]

theorem distinct_addImport (hdistinct : graph.Distinct) :
    (graph.addImport module imported).Distinct :=
  distinct_ensureModule (distinct_setImports hdistinct)

theorem find_setImports {imports : List (String × List String)} {change : List String → List String}
    (hlookup : imports.lookup module = some list) :
    (⟨some (setImports module (change list) imports)⟩ : ModuleGraph).find name =
      (imports.lookup name).map fun list => if name = module then change list else list := by
  change (setImports module (change list) imports).lookup name = _
  rw [lookup_setImports]
  by_cases heq : name = module
  · simp [heq, hlookup]
  · simp [heq]

theorem find_removeImport :
    (graph.removeImport module imported).2.find name =
      (graph.find name).map fun list => if name = module then list.erase imported else list := by
  obtain ⟨_ | imports⟩ := graph
  · rfl
  · cases hlookup : imports.lookup module with
    | none =>
        simp only [removeImport, hlookup]
        by_cases heq : name = module
        · simp [ModuleGraph.find, heq, hlookup]
        · simp [heq]
    | some list =>
        by_cases hmem : imported ∈ list
        · simp only [removeImport, hlookup, if_pos hmem]
          exact @find_setImports _ _ list imports (fun list => list.erase imported) hlookup
        · simp only [removeImport, hlookup, if_neg hmem]
          by_cases heq : name = module
          · simp [ModuleGraph.find, heq, hlookup, List.erase_of_not_mem hmem]
          · simp [heq]

theorem distinct_removeImport (hdistinct : graph.Distinct) :
    (graph.removeImport module imported).2.Distinct := by
  obtain ⟨_ | imports⟩ := graph
  · exact hdistinct
  · unfold removeImport
    dsimp only
    split
    · exact hdistinct
    · split
      · exact distinct_setImports hdistinct
      · exact hdistinct

theorem find_removeAllImports :
    (graph.removeAllImports module imported).2.find name =
      (graph.find name).map fun list =>
        if name = module then list.filter (fun other => other ≠ imported) else list := by
  obtain ⟨_ | imports⟩ := graph
  · rfl
  · cases hlookup : imports.lookup module with
    | none =>
        simp only [removeAllImports, hlookup]
        by_cases heq : name = module
        · simp [ModuleGraph.find, heq, hlookup]
        · simp [heq]
    | some list =>
        simp only [removeAllImports, hlookup]
        exact @find_setImports _ _ list imports
          (fun list => list.filter fun other => other ≠ imported) hlookup

theorem distinct_removeAllImports (hdistinct : graph.Distinct) :
    (graph.removeAllImports module imported).2.Distinct := by
  obtain ⟨_ | imports⟩ := graph
  · exact hdistinct
  · unfold removeAllImports
    dsimp only
    split
    · exact hdistinct
    · exact distinct_setImports hdistinct

theorem find_removeFrom {importers : List String} :
    (importers.foldl (fun graph importer => (graph.removeAllImports importer module).2)
        graph).find name =
      (graph.find name).map fun list =>
        if name ∈ importers then list.filter (fun other => other ≠ module) else list := by
  induction importers generalizing graph with
  | nil => simp
  | cons importer rest ih =>
      rw [List.foldl_cons, ih, find_removeAllImports, Option.map_map]
      congr 1
      funext list
      by_cases heq : name = importer <;> by_cases hmem : name ∈ rest <;>
        simp [heq, hmem, List.filter_filter]

theorem distinct_removeFrom {importers : List String} (hdistinct : graph.Distinct) :
    (importers.foldl (fun graph importer => (graph.removeAllImports importer module).2)
      graph).Distinct := by
  induction importers generalizing graph with
  | nil => exact hdistinct
  | cons importer rest ih => exact ih (distinct_removeAllImports hdistinct)

theorem find_removeModule (hmodule : graph.hasModule module = true) :
    (graph.removeModule module).2.find name =
      if name = module then none
      else (graph.find name).map fun list => list.filter fun other => other ≠ module := by
  obtain ⟨_ | imports⟩ := graph
  · simp [hasModule, ModuleGraph.find] at hmodule
  · obtain ⟨list, hlist⟩ := Option.isSome_iff_exists.mp hmodule
    have hlookup : imports.lookup module = some list := hlist
    simp only [removeModule, hlookup]
    rw [find_removeFrom]
    change ((imports.filter fun entry => entry.1 ≠ module).lookup name).map _ = _
    by_cases heq : name = module
    · rw [if_pos heq, heq, lookup_filter_self]
      rfl
    · rw [if_neg heq, lookup_filter_ne heq]
      change _ = (imports.lookup name).map _
      cases hname : imports.lookup name with
      | none => rfl
      | some found =>
          have hkey : name ∈ (imports.filter fun entry => entry.1 ≠ module).map Prod.fst := by
            rw [keys_filter, List.mem_filter, mem_keys_iff, hname]
            simpa using heq
          rw [Option.map_some, Option.map_some, if_pos hkey]

theorem removeModule_of_not (hmodule : graph.hasModule module = false) :
    (graph.removeModule module).2 = graph := by
  obtain ⟨_ | imports⟩ := graph
  · rfl
  · have hlookup : imports.lookup module = none := by simpa [hasModule, ModuleGraph.find] using hmodule
    simp only [removeModule, hlookup]

theorem distinct_removeModule (hdistinct : graph.Distinct) :
    (graph.removeModule module).2.Distinct := by
  obtain ⟨_ | imports⟩ := graph
  · exact hdistinct
  · unfold removeModule
    dsimp only
    split
    · exact hdistinct
    · refine distinct_removeFrom ?_
      have hkeys : (imports.map Prod.fst).Nodup := hdistinct
      exact hkeys.sublist (List.filter_sublist.map Prod.fst)

theorem hasModule_addModule :
    (graph.addModule module list).hasModule name = true ↔
      name = module ∨ name ∈ list ∨ graph.hasModule name = true := by
  rw [hasModule, find_addModule]
  by_cases heq : name = module <;> by_cases hmem : name ∈ list <;> simp [heq, hmem, hasModule]

theorem imports_addModule :
    (graph.addModule module list).Imports name imported ↔
      if name = module then imported ∈ list else graph.Imports name imported := by
  rw [Imports, Imports, importsOf_eq, importsOf_eq, find_addModule]
  by_cases heq : name = module <;> by_cases hmem : name ∈ list <;> simp [heq, hmem]

theorem WellFormed.addModule (hgraph : graph.WellFormed) :
    (graph.addModule module list).WellFormed where
  distinct := distinct_addModule hgraph.distinct
  closed other imported himports := by
    rw [imports_addModule] at himports
    rw [hasModule_addModule]
    split at himports
    · exact Or.inr (Or.inl himports)
    · exact Or.inr (Or.inr (hgraph.closed other imported himports))

theorem hasModule_addImport :
    (graph.addImport module imported).hasModule name = true ↔
      name = module ∨ name = imported ∨ graph.hasModule name = true := by
  rw [hasModule, find_addImport]
  by_cases heq : name = module
  · simp [heq]
  · rw [if_neg heq]
    split
    · rename_i hmem
      simp [hmem]
    · rename_i hmem
      simp [heq, hmem, hasModule]

theorem imports_addImport {other : String} :
    (graph.addImport module imported).Imports name other ↔
      graph.Imports name other ∨ name = module ∧ other = imported := by
  rw [Imports, Imports, importsOf_eq, importsOf_eq, find_addImport]
  by_cases heq : name = module
  · simp [heq]
  · rw [if_neg heq]
    split <;> simp [heq]

theorem WellFormed.addImport (hgraph : graph.WellFormed) :
    (graph.addImport module imported).WellFormed where
  distinct := distinct_addImport hgraph.distinct
  closed other target himports := by
    rw [hasModule_addImport]
    rcases imports_addImport.mp himports with himports | ⟨-, rfl⟩
    · exact Or.inr (Or.inr (hgraph.closed other target himports))
    · exact Or.inr (Or.inl rfl)

theorem WellFormed.of_sublists {kept : ModuleGraph} (hgraph : graph.WellFormed)
    (hdistinct : kept.Distinct)
    (hfind : ∀ name, ∃ change : List String → List String,
      kept.find name = (graph.find name).map change ∧ ∀ list, change list ⊆ list) :
    kept.WellFormed where
  distinct := hdistinct
  closed module imported himports := by
    obtain ⟨list, hlist, hmem⟩ := imports_iff.mp himports
    obtain ⟨change, hchange, hsub⟩ := hfind module
    rw [hchange] at hlist
    obtain ⟨old, hold, rfl⟩ := Option.map_eq_some_iff.mp hlist
    have hmodule := hgraph.closed module imported (imports_iff.mpr ⟨old, hold, hsub old hmem⟩)
    obtain ⟨change', hchange', -⟩ := hfind imported
    rw [hasModule, hchange', Option.isSome_map]
    exact hmodule

theorem WellFormed.removeImport (hgraph : graph.WellFormed) :
    (graph.removeImport module imported).2.WellFormed := by
  refine hgraph.of_sublists (distinct_removeImport hgraph.distinct) fun name => ?_
  refine ⟨_, find_removeImport, fun list => ?_⟩
  split
  · exact List.erase_subset
  · exact List.Subset.refl _

theorem WellFormed.removeAllImports (hgraph : graph.WellFormed) :
    (graph.removeAllImports module imported).2.WellFormed := by
  refine hgraph.of_sublists (distinct_removeAllImports hgraph.distinct) fun name => ?_
  refine ⟨_, find_removeAllImports, fun list => ?_⟩
  split
  · exact List.filter_subset_self _
  · exact List.Subset.refl _

theorem importsOf_removeModule (hgraph : graph.WellFormed) (hne : name ≠ module) :
    (graph.removeModule module).2.importsOf name =
      (graph.importsOf name).filter fun other => other ≠ module := by
  cases hmodule : graph.hasModule module with
  | true =>
      rw [importsOf_eq, importsOf_eq, find_removeModule hmodule, if_neg hne]
      cases graph.find name <;> rfl
  | false =>
      rw [removeModule_of_not hmodule, eq_comm, List.filter_eq_self]
      intro other hother
      have hother := hgraph.closed name other hother
      have hne' : other ≠ module := by
        rintro rfl
        rw [hmodule] at hother
        exact absurd hother Bool.false_ne_true
      simpa using hne'

theorem importsOf_removeModule_self :
    (graph.removeModule module).2.importsOf module = [] := by
  cases hmodule : graph.hasModule module with
  | true => rw [importsOf_eq, find_removeModule hmodule, if_pos rfl, Option.getD_none]
  | false =>
      rw [removeModule_of_not hmodule, importsOf_eq]
      have hnone : graph.find module = none := by simpa [hasModule] using hmodule
      rw [hnone, Option.getD_none]

theorem hasModule_removeModule :
    (graph.removeModule module).2.hasModule name = true ↔
      name ≠ module ∧ graph.hasModule name = true := by
  cases hmodule : graph.hasModule module with
  | true =>
      rw [hasModule, find_removeModule hmodule]
      by_cases heq : name = module <;> simp [heq, hasModule]
  | false =>
      rw [removeModule_of_not hmodule, and_iff_right_of_imp]
      rintro hname rfl
      rw [hmodule] at hname
      exact absurd hname Bool.false_ne_true

theorem not_imports_removeModule (hgraph : graph.WellFormed) :
    ¬ (graph.removeModule module).2.Imports name module := by
  intro himports
  rw [Imports] at himports
  by_cases heq : name = module
  · rw [heq, importsOf_removeModule_self] at himports
    exact List.not_mem_nil himports
  · rw [importsOf_removeModule hgraph heq] at himports
    simpa using (List.mem_filter.mp himports).2

theorem WellFormed.removeModule (hgraph : graph.WellFormed) :
    (graph.removeModule module).2.WellFormed where
  distinct := distinct_removeModule hgraph.distinct
  closed other target himports := by
    rw [hasModule_removeModule]
    have htarget : target ≠ module := by
      rintro rfl
      exact not_imports_removeModule hgraph himports
    refine ⟨htarget, ?_⟩
    by_cases heq : other = module
    · rw [Imports, heq, importsOf_removeModule_self] at himports
      exact absurd himports List.not_mem_nil
    · rw [Imports, importsOf_removeModule hgraph heq] at himports
      exact hgraph.closed other target (List.mem_of_mem_filter himports)

end ModuleGraph

theorem wellFormed_new : newModuleGraph.WellFormed :=
  ⟨List.nodup_nil, by simp [imports_iff, newModuleGraph, ModuleGraph.find]⟩

theorem wellFormed_nil : (⟨none⟩ : ModuleGraph).WellFormed :=
  ⟨List.nodup_nil, by simp [imports_iff, ModuleGraph.find]⟩

theorem GraphCall.wellFormed {graph : ModuleGraph} (call : GraphCall) (hgraph : graph.WellFormed) :
    (call.apply graph).WellFormed := by
  cases call with
  | addModule module imports => exact hgraph.addModule
  | addCompactModule module imports => exact hgraph.addModule
  | addImport module imported => exact hgraph.addImport
  | removeImport module imported => exact hgraph.removeImport
  | removeAllImports module imported => exact hgraph.removeAllImports
  | removeModule module => exact hgraph.removeModule
  | replaceImports module imports => exact hgraph.addModule

theorem ModuleGraph.WellFormed.afterCalls {graph : ModuleGraph} (hgraph : graph.WellFormed)
    (calls : List GraphCall) : (graph.afterCalls calls).WellFormed := by
  induction calls generalizing graph with
  | nil => exact hgraph
  | cons call rest ih => exact ih (call.wellFormed hgraph)

end Jayess.Resolver
