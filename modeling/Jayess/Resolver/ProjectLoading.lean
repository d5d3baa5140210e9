import Jayess.Graph.Worklist
import Jayess.Resolver.Project

/-!
# The modules of a project
-/

namespace Jayess.Resolver

open Relation Graph

section Compaction

variable {α β : Type} [DecidableEq α] [DecidableEq β]

theorem eraseDups_concat (list : List α) (last : α) :
    (list ++ [last]).eraseDups = if last ∈ list then list.eraseDups else list.eraseDups ++ [last] := by
  rw [List.eraseDups_append]
  by_cases hmem : last ∈ list
  · simp [hmem, List.removeAll]
  · simp [hmem, List.removeAll, List.eraseDups_cons]

theorem eraseDups_filterMap (f : α → Option β) (list : List α) :
    (list.eraseDups.filterMap f).eraseDups = (list.filterMap f).eraseDups := by
  induction list using List.reverseRecOn with
  | nil => rfl
  | append_singleton list last ih =>
      rw [eraseDups_concat, List.filterMap_append]
      cases hlast : f last with
      | none =>
          rw [List.filterMap_cons_none hlast, List.filterMap_nil, List.append_nil]
          split
          · exact ih
          · rw [List.filterMap_append, List.filterMap_cons_none hlast, List.filterMap_nil, List.append_nil, ih]
      | some result =>
          rw [List.filterMap_cons_some hlast, List.filterMap_nil, eraseDups_concat]
          by_cases hmem : last ∈ list
          · rw [if_pos hmem, if_pos (List.mem_filterMap.mpr ⟨last, hmem, hlast⟩), ih]
          · rw [if_neg hmem, List.filterMap_append, List.filterMap_cons_some hlast, List.filterMap_nil,
              eraseDups_concat, ih]
            simp only [List.mem_filterMap, List.mem_eraseDups]

variable {Entry : Type} {key : Entry → String} {merge : Entry → Entry → Entry}

theorem map_foldl_compactEntry (hmerge : ∀ earlier entry, key (merge earlier entry) = key earlier)
    (entries : List Entry) :
    (entries.foldl (compactEntry key merge) []).map key = (entries.map key).eraseDups := by
  induction entries using List.reverseRecOn with
  | nil => rfl
  | append_singleton entries last ih =>
      rw [List.foldl_append, List.foldl_cons, List.foldl_nil, List.map_append, List.map_singleton,
        eraseDups_concat, ← ih, compactEntry]
      have hmem :
          key last ∈ (entries.foldl (compactEntry key merge) []).map key ↔ key last ∈ entries.map key := by
        rw [ih, List.mem_eraseDups]
      by_cases hlast : key last ∈ entries.map key
      · rw [if_pos (hmem.mpr hlast), if_pos hlast, List.map_map]
        refine List.map_congr_left fun earlier _ => ?_
        rw [Function.comp_apply]
        split
        · exact hmerge earlier last
        · rfl
      · rw [if_neg (fun h => hlast (hmem.mp h)), if_neg hlast, List.map_append, List.map_singleton]

theorem map_source_compactModuleDependencies (dependencies : List ModuleDependency) :
    (compactModuleDependencies dependencies).map (·.source) = (dependencies.map (·.source)).eraseDups := by
  rw [compactModuleDependencies]
  exact map_foldl_compactEntry (by simp) dependencies

theorem map_path_compactResolvedModuleDependencies (dependencies : List ResolvedModuleDependency) :
    (compactResolvedModuleDependencies dependencies).map (·.path) = (dependencies.map (·.path)).eraseDups := by
  rw [compactResolvedModuleDependencies]
  exact map_foldl_compactEntry (by simp) dependencies

end Compaction

def importSources (program : List Statement) : List String := (moduleDependencies program).map (·.source)

namespace Host

variable (host : Host)

def resolvedPath (path source : String) : Option String :=
  (host.resolvedModuleSourcePath path).toOption.bind fun importerPath =>
    (host.resolveImport importerPath source).toOption.map host.normalizeResolvedImport

def unresolved (path source : String) : Option (String × String) :=
  (host.resolvedModuleSourcePath path).toOption.bind fun importerPath =>
    match host.resolveImport importerPath source with
    | .error text => some (path, "resolve module dependency " ++ host.quote source ++ ": " ++ text)
    | .ok _ => none

/-- A module is parsed and one of its imports resolves to another. -/
def Imports (first second : String) : Prop :=
  ∃ program, host.parseModule first = .ok program ∧
    ∃ source ∈ importSources program, host.resolvedPath first source = some second

/-- The modules that are queued after a module. -/
def next (path : String) : List String :=
  match host.parseModule path with
  | .error _ => []
  | .ok program => (host.resolveDependencies path program).1.map (·.path)

/-- What is wrong with a module: it could not be read or parsed, or some of its imports could not be
resolved. -/
def problems (path : String) : List (String × String) :=
  match host.parseModule path with
  | .error diagnostic => [(diagnostic.path, diagnostic.message)]
  | .ok program => (importSources program).eraseDups.filterMap (host.unresolved path)

def projectModule (path : String) : ProjectModule :=
  match host.parseModule path with
  | .error _ => ⟨path, none, []⟩
  | .ok program => ⟨path, some program, (host.resolveDependencies path program).1⟩

variable {host} {path : String} {program : List Statement}

theorem resolvedModuleSourcePath_of_parsed (hparsed : host.parseModule path = .ok program) :
    ∃ importerPath source, host.resolvedModuleSourcePath path = .ok importerPath ∧
      host.files.lookup importerPath = some source := by
  unfold parseModule loadResolvedModuleSource readFile at hparsed
  cases hsource : host.resolvedModuleSourcePath path with
  | error text => rw [hsource] at hparsed; cases hparsed
  | ok importerPath =>
      rw [hsource] at hparsed
      cases hlookup : host.files.lookup importerPath with
      | none => simp only [hlookup] at hparsed; cases hparsed
      | some source => exact ⟨importerPath, source, rfl, hlookup⟩

theorem map_path_resolveDependencies :
    (host.resolveDependencies path program).1.map (·.path) =
      ((importSources program).filterMap (host.resolvedPath path)).eraseDups := by
  unfold resolveDependencies resolvedPath
  cases hsource : host.resolvedModuleSourcePath path with
  | error text => simp [Except.toOption]
  | ok importerPath =>
      have hcompact := map_source_compactModuleDependencies (moduleDependencies program)
      have hresolved : ∀ dependency : ModuleDependency,
          ((host.resolveDependency path importerPath program dependency).toOption.map (·.path)) =
            (host.resolveImport importerPath dependency.source).toOption.map host.normalizeResolvedImport := by
        intro dependency
        unfold resolveDependency
        cases host.resolveImport importerPath dependency.source <;> rfl
      dsimp only
      rw [map_path_compactResolvedModuleDependencies, List.map_filterMap, List.filterMap_map,
        ← eraseDups_filterMap _ (importSources program), importSources, ← hcompact, List.filterMap_map]
      congr 2
      funext dependency
      exact hresolved dependency

theorem map_problem_resolveDependencies (hparsed : host.parseModule path = .ok program) :
    ((host.resolveDependencies path program).2.map fun diagnostic => (diagnostic.path, diagnostic.message)) =
      (importSources program).eraseDups.filterMap (host.unresolved path) := by
  obtain ⟨importerPath, source, hsource, -⟩ := resolvedModuleSourcePath_of_parsed hparsed
  have hcompact := map_source_compactModuleDependencies (moduleDependencies program)
  unfold resolveDependencies unresolved
  rw [hsource]
  dsimp only
  rw [List.map_filterMap, List.filterMap_map, importSources, ← hcompact, List.filterMap_map]
  congr 1
  funext dependency
  simp only [Function.comp_apply, resolveDependency, Except.toOption, Option.bind_some]
  cases host.resolveImport importerPath dependency.source <;> rfl

theorem mem_next {other : String} : other ∈ host.next path ↔ host.Imports path other := by
  unfold next Imports
  cases hparsed : host.parseModule path with
  | error diagnostic => simp
  | ok program =>
      simp only [map_path_resolveDependencies, List.mem_eraseDups, List.mem_filterMap, Except.ok.injEq,
        exists_eq_left']

theorem mem_sources (hparsed : host.parseModule path = .ok program) :
    path ∈ host.files.map Prod.fst ∨ path = stdlibImportPrefix ++ "@jayess/webview" := by
  obtain ⟨importerPath, source, hsource, hlookup⟩ := resolvedModuleSourcePath_of_parsed hparsed
  unfold resolvedModuleSourcePath resolvedStdlibSourcePath resolvedStdlibImportPath at hsource
  by_cases hstdlib : isResolvedStdlibImport path = true
  · right
    rw [if_pos hstdlib, if_pos hstdlib] at hsource
    have hprefix : stdlibImportPrefix.toList <+: path.toList := List.isPrefixOf_iff_prefix.mp hstdlib
    obtain ⟨importPath, himport⟩ := hprefix
    rw [← himport, List.drop_left] at hsource
    by_cases hwebview : String.ofList importPath = "@jayess/webview"
    · rw [← hwebview, ← String.toList_inj, String.toList_append, String.toList_ofList, himport]
    · have hentry : stdlibSourceEntryPaths (String.ofList importPath) = none := if_neg hwebview
      simp only [hentry] at hsource
      cases hsource
  · left
    rw [if_neg hstdlib, if_neg hstdlib] at hsource
    rw [Except.ok.inj hsource]
    obtain ⟨file, hfile, heq⟩ := List.lookup_isSome_iff.mp (Option.isSome_of_eq_some hlookup)
    exact List.mem_map.mpr ⟨file, hfile, (eq_of_beq heq).symm⟩

variable (host) in
def within (entry : String) : List String :=
  entry :: ((stdlibImportPrefix ++ "@jayess/webview") :: host.files.map Prod.fst).flatMap host.next

theorem mem_within {entry : String}
    (hreach : ReflTransGen (fun first second => second ∈ host.next first) entry path) :
    path ∈ host.within entry := by
  rcases ReflTransGen.cases_tail hreach with rfl | ⟨importer, -, hnext⟩
  · exact .head _
  · refine .tail _ (List.mem_flatMap.mpr ⟨importer, ?_, hnext⟩)
    obtain ⟨program, hparsed, -⟩ := mem_next.mp hnext
    rcases mem_sources hparsed with hfile | hwebview
    · exact .tail _ hfile
    · rw [hwebview]
      exact .head _

end Host

namespace ProjectLoader

variable {host : Host} {entry path : String} {rest : List String} {loader : ProjectLoader}

def worklist (loader : ProjectLoader) : Worklist String :=
  ⟨loader.queue, loader.queued, loader.modules.keys.reverse⟩

/-- The loaded modules are as they should be, and were visited in the order in which they were parsed. -/
structure Loading (host : Host) (entry : String) (loader : ProjectLoader) : Prop where
  explores : Worklist.Explores host.next entry loader.worklist
  modules : ∀ path ∈ loader.modules, loader.modules.lookup path = some (host.projectModule path)
  graph : ∀ path, loader.graph.importsOf path = if path ∈ loader.modules then host.next path else []
  diagnostics : loader.diagnostics.map (fun diagnostic => (diagnostic.path, diagnostic.message)) =
    loader.modules.keys.reverse.flatMap host.problems
  parsed : loader.parsed = loader.modules.keys

theorem enqueue_worklist :
    (loader.enqueue path).worklist = Worklist.enqueue loader.worklist path := by
  unfold ProjectLoader.enqueue Worklist.enqueue worklist
  split <;> rfl

theorem foldl_enqueue {paths : List String} :
    paths.foldl enqueue loader =
      { loader with
        queue := (paths.foldl Worklist.enqueue loader.worklist).queue
        queued := (paths.foldl Worklist.enqueue loader.worklist).queued } := by
  induction paths generalizing loader with
  | nil => rfl
  | cons path paths ih =>
      rw [List.foldl_cons, List.foldl_cons, ih, enqueue_worklist, enqueue]
      split <;> rfl

theorem importsOf_addModule {graph : ModuleGraph} {module name : String} {imported : List String} :
    (graph.addModule module imported).importsOf name =
      if name = module then imported else graph.importsOf name := by
  change ((graph.addModule module imported).find name).getD [] = _
  rw [ModuleGraph.find_addModule]
  split
  · rfl
  · split <;> rfl

theorem loadModule_spec (host : Host) (loader : ProjectLoader) (path : String) :
    ∃ diagnostics, diagnostics.map (fun diagnostic => (diagnostic.path, diagnostic.message)) = host.problems path ∧
      loadModule host loader path =
        (host.projectModule path,
          { loader with
            queue := ((host.next path).foldl Worklist.enqueue loader.worklist).queue
            queued := ((host.next path).foldl Worklist.enqueue loader.worklist).queued
            graph := loader.graph.addModule path (host.next path)
            diagnostics := loader.diagnostics ++ diagnostics
            parsed := path :: loader.parsed }) := by
  unfold loadModule Host.problems Host.projectModule Host.next
  cases hparsed : host.parseModule path with
  | error diagnostic => exact ⟨[diagnostic], rfl, rfl⟩
  | ok program =>
      refine ⟨_, Host.map_problem_resolveDependencies hparsed, ?_⟩
      dsimp only
      rw [foldl_enqueue]
      rfl

theorem Loading.start : Loading host entry (new.enqueue entry) where
  explores := by
    have hstart : (new.enqueue entry).worklist = Worklist.start entry := by
      rw [enqueue_worklist]
      rfl
    rw [hstart]
    exact Worklist.explores_start
  modules _ hmem := absurd hmem (AList.notMem_empty _)
  graph _ := rfl
  diagnostics := rfl
  parsed := rfl

theorem Loading.loadNext (hloading : Loading host entry loader) (hqueue : loader.queue = path :: rest) :
    Loading host entry (loadNext host loader path rest) ∧
      (ProjectLoader.loadNext host loader path rest).modules.keys = path :: loader.modules.keys := by
  have hnew : path ∉ loader.modules := by
    intro hmem
    exact hloading.explores.not_done hqueue (List.mem_reverse.mpr (AList.mem_keys.mp hmem))
  obtain ⟨diagnostics, hproblems, hspec⟩ := loadModule_spec host { loader with queue := rest } path
  have hkeys : ∀ module, (loader.modules.insert path module).keys = path :: loader.modules.keys := by
    intro module
    rw [AList.keys_insert, List.erase_of_not_mem (fun hmem => hnew (AList.mem_keys.mpr hmem))]
  have hnext : ProjectLoader.loadNext host loader path rest =
      { loader with
        queue := ((host.next path).foldl Worklist.enqueue { loader with queue := rest }.worklist).queue
        queued := ((host.next path).foldl Worklist.enqueue { loader with queue := rest }.worklist).queued
        modules := loader.modules.insert path (host.projectModule path)
        graph := loader.graph.addModule path (host.next path)
        diagnostics := loader.diagnostics ++ diagnostics
        parsed := path :: loader.parsed } := by
    unfold ProjectLoader.loadNext
    rw [if_neg hnew, hspec]
  have hworklist : (ProjectLoader.loadNext host loader path rest).worklist =
      loader.worklist.visit host.next path rest := by
    rw [hnext, worklist, hkeys, List.reverse_cons, Worklist.visit]
    exact (Worklist.foldl_enqueue_done _).symm
  refine ⟨⟨?_, ?_, ?_, ?_, ?_⟩, ?_⟩
  · rw [hworklist]
    exact hloading.explores.visit hqueue
  · rw [hnext]
    intro other hmem
    by_cases heq : other = path
    · rw [heq, AList.lookup_insert]
    · rw [AList.lookup_insert_ne heq]
      exact hloading.modules other ((AList.mem_insert _).mp hmem |>.resolve_left heq)
  · rw [hnext]
    intro other
    rw [importsOf_addModule, hloading.graph]
    by_cases heq : other = path
    · rw [if_pos heq, if_pos ((AList.mem_insert _).mpr (.inl heq)), heq]
    · rw [if_neg heq]
      exact if_congr ((AList.mem_insert _).trans (or_iff_right heq)).symm rfl rfl
  · rw [hnext]
    dsimp only
    rw [List.map_append, hloading.diagnostics, hproblems, hkeys, List.reverse_cons, List.flatMap_append]
    simp
  · rw [hnext]
    dsimp only
    rw [hkeys, hloading.parsed]
  · rw [hnext]
    exact hkeys _

theorem Loading.load (hloading : Loading host entry loader) {fuel : Nat}
    (hfuel : (host.within entry).length ≤ fuel + loader.modules.keys.length) :
    ∃ loaded, load host fuel loader = some loaded ∧ Loading host entry loaded ∧ loaded.queue = [] := by
  induction fuel generalizing loader with
  | zero =>
      have hle := hloading.explores.length_le fun path hreach => Host.mem_within hreach
      have hdone : loader.worklist.done.length = loader.modules.keys.length := List.length_reverse
      have hqueue : loader.queue = [] := by
        refine List.length_eq_zero_iff.mp ?_
        change loader.worklist.done.length + loader.queue.length ≤ _ at hle
        omega
      exact ⟨loader, if_pos hqueue, hloading, hqueue⟩
  | succ fuel ih =>
      rw [ProjectLoader.load]
      split
      · rename_i hqueue
        exact ⟨loader, rfl, hloading, hqueue⟩
      · rename_i path rest hqueue
        obtain ⟨hnext, hkeys⟩ := hloading.loadNext hqueue
        refine ih hnext ?_
        rw [hkeys, List.length_cons]
        omega

theorem load_mono {fuel more : Nat} {loaded : ProjectLoader} (hle : fuel ≤ more)
    (hload : load host fuel loader = some loaded) : load host more loader = some loaded := by
  induction fuel generalizing loader more with
  | zero =>
      obtain ⟨hqueue, rfl⟩ : loader.queue = [] ∧ loader = loaded := by simpa [load] using hload
      cases more with
      | zero => exact if_pos hqueue
      | succ more => simp [load, hqueue]
  | succ fuel ih =>
      cases more with
      | zero => exact absurd hle (Nat.not_succ_le_zero fuel)
      | succ more =>
          rw [load] at hload ⊢
          split at hload
          · exact hload
          · exact ih (Nat.le_of_succ_le_succ hle) hload

theorem map_path_sortedModules (hloading : Loading host entry loader) :
    loader.sortedModules.map (·.path) = sortStrings loader.modules.keys := by
  have hmem : ∀ path ∈ sortStrings loader.modules.keys,
      loader.modules.lookup path = some (host.projectModule path) := by
    intro path hpath
    exact hloading.modules path (AList.mem_keys.mpr ((List.mergeSort_perm _ _).mem_iff.mp hpath))
  rw [sortedModules, List.filterMap_congr hmem, List.filterMap_eq_map', List.map_map]
  refine List.map_id'' (fun path => ?_) _
  rw [Function.comp_apply, Host.projectModule]
  split <;> rfl

end ProjectLoader

namespace Host

/-- A project with the modules that the entry reaches, each parsed once. -/
structure Loaded (host : Host) (entry : String) (project : Project) (parsed : List String) : Prop where
  start : project.entry = entry
  sorted : (project.modules.map (·.path)).Pairwise (· < ·)
  modules : ∀ path, path ∈ project.modules.map (·.path) ↔ ReflTransGen host.Imports entry path
  contents : ∀ module ∈ project.modules, module = host.projectModule module.path
  graph : ∀ path program, ReflTransGen host.Imports entry path → host.parseModule path = .ok program →
    project.graph.importsOf path = ((importSources program).filterMap (host.resolvedPath path)).eraseDups
  diagnostics : ∃ order : List String, order.Perm (project.modules.map (·.path)) ∧
    project.diagnostics.map (fun diagnostic => (diagnostic.path, diagnostic.message)) =
      order.flatMap host.problems
  parsed : parsed.Perm (project.modules.map (·.path))

variable {host : Host} {entry path : String} {loader : ProjectLoader}

theorem reaches_next_iff :
    ReflTransGen (fun first second => second ∈ host.next first) entry path ↔
      ReflTransGen host.Imports entry path := by
  have heq : (fun first second => second ∈ host.next first) = host.Imports := by
    funext first second
    exact propext mem_next
  rw [heq]

theorem loaded_of_loading (hloading : ProjectLoader.Loading host entry loader) (hqueue : loader.queue = []) :
    host.Loaded entry ⟨entry, loader.sortedModules, loader.graph, loader.diagnostics⟩ loader.parsed := by
  have hpaths := ProjectLoader.map_path_sortedModules hloading
  have hperm : (loader.sortedModules.map (·.path)).Perm loader.modules.keys := by
    rw [hpaths]
    exact List.mergeSort_perm _ _
  have hmem : ∀ path, path ∈ loader.modules.keys ↔ ReflTransGen host.Imports entry path := by
    intro path
    rw [← reaches_next_iff, ← hloading.explores.mem_done_iff hqueue]
    exact List.mem_reverse.symm
  constructor
  · rfl
  · have hsorted : (sortStrings loader.modules.keys).Pairwise (· ≤ ·) := List.pairwise_mergeSort' (· ≤ ·) _
    have hnodup : (sortStrings loader.modules.keys).Nodup :=
      (List.mergeSort_perm _ _).nodup_iff.mpr loader.modules.keys_nodup
    rw [hpaths]
    exact hsorted.and hnodup |>.imp fun h => lt_of_le_of_ne h.1 h.2
  · exact fun path => hperm.mem_iff.trans (hmem path)
  · intro module hmodule
    obtain ⟨path, hpath, hlookup⟩ := List.mem_filterMap.mp hmodule
    have hpath := AList.mem_keys.mpr ((List.mergeSort_perm _ _).mem_iff.mp hpath)
    have hmodule := Option.some.inj (hlookup.symm.trans (hloading.modules path hpath))
    have hname : (host.projectModule path).path = path := by
      unfold projectModule
      split <;> rfl
    rw [hmodule, hname]
  · intro path program hreach hparsed
    rw [hloading.graph, if_pos (AList.mem_keys.mpr ((hmem path).mpr hreach)), next, hparsed]
    exact map_path_resolveDependencies
  · exact ⟨_, (List.reverse_perm _).trans hperm.symm, hloading.diagnostics⟩
  · rw [hloading.parsed]
    exact hperm.symm

end Host

end Jayess.Resolver
