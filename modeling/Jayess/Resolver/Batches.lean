import Mathlib.Data.Fintype.EquivFin
import Jayess.Resolver.Depth
import Jayess.Resolver.Mutations

/-!
# Initialization batches
-/

namespace Jayess.Resolver

open Relation
open Graph

def Searched.map {β γ : Type} (f : β → γ) : Searched β → Searched γ
  | none => none
  | some (.error error) => some (.error error)
  | some (.ok value) => some (.ok (f value))

def addToGroup (depth : Nat) (module : String) :
    List (Nat × List String) → List (Nat × List String)
  | [] => [(depth, [module])]
  | (level, modules) :: rest =>
      if level = depth then (level, modules ++ [module]) :: rest
      else (level, modules) :: addToGroup depth module rest

/-- `sort.Ints`. -/
def sortInts (levels : List Nat) : List Nat :=
  levels.mergeSort fun left right => decide (left ≤ right)

namespace ModuleGraph

variable (graph : ModuleGraph) (fuel : Nat)

/-- The loop of `DependencyDepthMap`. -/
def depthEntries : List String → Searched (List (String × Nat))
  | [] => some (.ok [])
  | module :: rest =>
      match graph.dependencyDepth fuel module with
      | none => none
      | some (.error error) => some (.error error)
      | some (.ok depth) => (depthEntries rest).map fun entries => (module, depth) :: entries

def dependencyDepthMap : Searched (List (String × Nat)) := graph.depthEntries fuel graph.modules

def dependencyDepthGroups : Searched (List (Nat × List String)) :=
  (graph.dependencyDepthMap fuel).map fun depths =>
    if depths = [] then []
    else graph.modules.foldl
      (fun groups module => addToGroup ((depths.lookup module).getD 0) module groups) []

def dependencyDepthLevels : Searched (List Nat) :=
  (graph.dependencyDepthGroups fuel).map fun groups => sortInts (groups.map Prod.fst)

def dependencyDepthLayers : Searched (List (List String)) :=
  match graph.dependencyDepthGroups fuel with
  | none => none
  | some (.error error) => some (.error error)
  | some (.ok groups) =>
      if groups = [] then some (.ok [])
      else (graph.dependencyDepthLevels fuel).map fun levels =>
        levels.map fun level => (groups.lookup level).getD []

def initializationBatchesAll : Searched (List (List String)) := graph.dependencyDepthLayers fuel

end ModuleGraph

section Groups

variable {depth : String → Nat} {groups : List (Nat × List String)}

def Grouped (depth : String → Nat) (modules : List String) (groups : List (Nat × List String)) :
    Prop :=
  (groups.map Prod.fst).Nodup ∧ ∀ level, groups.lookup level =
    if modules.filter (fun module => depth module = level) = [] then none
    else some (modules.filter fun module => depth module = level)

theorem lookup_addToGroup {module : String} {level level' : Nat} :
    (addToGroup level module groups).lookup level' =
      if level' = level then some ((groups.lookup level).getD [] ++ [module])
      else groups.lookup level' := by
  induction groups with
  | nil =>
      by_cases heq : level' = level
      · simp [addToGroup, heq]
      · simp [addToGroup, heq, List.lookup_cons, beq_false_of_ne heq]
  | cons group rest ih =>
      obtain ⟨other, modules⟩ := group
      rw [addToGroup]
      by_cases hother : other = level
      · subst hother
        rw [if_pos rfl, List.lookup_cons, List.lookup_cons_self]
        by_cases heq : level' = other
        · simp [heq]
        · rw [beq_false_of_ne heq, if_neg heq, List.lookup_cons, beq_false_of_ne heq]
      · rw [if_neg hother, List.lookup_cons, ih, List.lookup_cons, List.lookup_cons,
          beq_false_of_ne (Ne.symm hother)]
        by_cases heq : level' = other
        · simp [heq, hother]
        · rw [beq_false_of_ne heq]

theorem keys_addToGroup {module : String} {level : Nat} (hdistinct : (groups.map Prod.fst).Nodup) :
    ((addToGroup level module groups).map Prod.fst).Nodup ∧
      ∀ other, other ∈ (addToGroup level module groups).map Prod.fst ↔
        other = level ∨ other ∈ groups.map Prod.fst := by
  induction groups with
  | nil => simp [addToGroup]
  | cons group rest ih =>
      obtain ⟨other, modules⟩ := group
      obtain ⟨hnew, hrest⟩ := List.nodup_cons.mp hdistinct
      obtain ⟨hnodup, hkeys⟩ := ih hrest
      rw [addToGroup]
      by_cases hother : other = level
      · subst hother
        rw [if_pos rfl]
        refine ⟨List.nodup_cons.mpr ⟨hnew, hrest⟩, fun key => ?_⟩
        simp
      · rw [if_neg hother]
        refine ⟨List.nodup_cons.mpr ⟨?_, hnodup⟩, fun key => ?_⟩
        · rw [hkeys, not_or]
          exact ⟨hother, hnew⟩
        · rw [List.map_cons, List.mem_cons, hkeys, List.map_cons, List.mem_cons]
          exact or_left_comm

theorem Grouped.add {modules : List String} {module : String}
    (hgroups : Grouped depth modules groups) :
    Grouped depth (modules ++ [module]) (addToGroup (depth module) module groups) := by
  obtain ⟨hdistinct, hlookup⟩ := hgroups
  refine ⟨(keys_addToGroup hdistinct).1, fun level => ?_⟩
  rw [lookup_addToGroup, hlookup, hlookup, List.filter_append]
  by_cases heq : level = depth module
  · subst heq
    rw [if_pos rfl]
    by_cases hnil : modules.filter (fun other => depth other = depth module) = []
    · simp [hnil]
    · simp [hnil]
  · have hne : ¬ depth module = level := fun h => heq h.symm
    simp [heq, hne]

theorem grouped_foldl {modules done : List String} (hgroups : Grouped depth done groups) :
    Grouped depth (done ++ modules) (modules.foldl
      (fun groups module => addToGroup (depth module) module groups) groups) := by
  induction modules generalizing done groups with
  | nil => simpa using hgroups
  | cons module rest ih =>
      have hrest := ih (@Grouped.add _ _ _ module hgroups)
      rwa [List.append_assoc] at hrest

theorem grouped_nil : Grouped depth [] [] := ⟨List.nodup_nil, fun _ => by simp⟩

end Groups

theorem sortInts_eq_range {levels : List Nat} {bound : Nat} (hdistinct : levels.Nodup)
    (hlevels : ∀ level, level ∈ levels ↔ level < bound) : sortInts levels = List.range bound := by
  have hsorted : (sortInts levels).Pairwise (· ≤ ·) := List.pairwise_mergeSort' (· ≤ ·) levels
  have hrange : (List.range bound).Pairwise (· ≤ ·) :=
    List.pairwise_lt_range.imp fun h => Nat.le_of_lt h
  refine List.Perm.eq_of_pairwise' hsorted hrange ?_
  refine (List.mergeSort_perm levels _).trans ?_
  rw [List.perm_ext_iff_of_nodup hdistinct List.nodup_range]
  intro level
  rw [hlevels, List.mem_range]

theorem exists_bound {levels : List Nat}
    (hclosed : ∀ level, level + 1 ∈ levels → level ∈ levels) :
    ∃ bound, ∀ level, level ∈ levels ↔ level < bound := by
  classical
  have hmissing : ∃ bound, bound ∉ levels := by
    simpa using Infinite.exists_notMem_finset levels.toFinset
  refine ⟨Nat.find hmissing, fun level => ⟨fun hlevel => ?_, fun hlt => ?_⟩⟩
  · by_contra hge
    have hdown : ∀ steps, level - steps ∈ levels := by
      intro steps
      induction steps with
      | zero => exact hlevel
      | succ steps ih =>
          by_cases hzero : level - steps = 0
          · have heq : level - (steps + 1) = level - steps := by omega
            rwa [heq]
          · refine hclosed _ ?_
            have heq : level - (steps + 1) + 1 = level - steps := by omega
            rwa [heq]
    refine Nat.find_spec hmissing ?_
    have heq : Nat.find hmissing = level - (level - Nat.find hmissing) := by omega
    rw [heq]
    exact hdown _
  · exact not_not.mp (Nat.find_min hmissing hlt)

section Batches

variable {graph : ModuleGraph} {fuel : Nat} {depth : String → Nat}

theorem depthEntries_eq {list : List String}
    (hdepth : ∀ module ∈ list, graph.dependencyDepth fuel module = some (.ok (depth module))) :
    graph.depthEntries fuel list = some (.ok (list.map fun module => (module, depth module))) := by
  induction list with
  | nil => rfl
  | cons module rest ih =>
      rw [ModuleGraph.depthEntries, hdepth module List.mem_cons_self]
      simp only [ih fun other hother => hdepth other (List.mem_cons_of_mem _ hother)]
      rfl

theorem depthEntries_error {list : List String}
    (hends : ∀ module ∈ list, ∃ result, graph.dependencyDepth fuel module = some result)
    (herror : ∃ module ∈ list, ∃ error, graph.dependencyDepth fuel module = some (.error error)) :
    ∃ error, graph.depthEntries fuel list = some (.error error) := by
  induction list with
  | nil =>
      obtain ⟨module, hmodule, -⟩ := herror
      exact absurd hmodule List.not_mem_nil
  | cons module rest ih =>
      obtain ⟨result, hresult⟩ := hends module List.mem_cons_self
      rw [ModuleGraph.depthEntries, hresult]
      cases result with
      | error error => exact ⟨error, rfl⟩
      | ok depth =>
          obtain ⟨other, hother, error, hfails⟩ := herror
          have hrest : other ∈ rest := by
            refine (List.mem_cons.mp hother).resolve_left ?_
            rintro rfl
            rw [hresult] at hfails
            cases hfails
          obtain ⟨error', herror'⟩ := ih
            (fun next hnext => hends next (List.mem_cons_of_mem _ hnext))
            ⟨other, hrest, error, hfails⟩
          refine ⟨error', ?_⟩
          simp only [herror']
          rfl

def ModuleGraph.atDepth (graph : ModuleGraph) (depth : String → Nat) (level : Nat) : List String :=
  graph.modules.filter fun module => depth module = level

variable {module : String}

theorem mem_atDepth {level : Nat} :
    module ∈ graph.atDepth depth level ↔ graph.hasModule module = true ∧ depth module = level := by
  rw [ModuleGraph.atDepth, List.mem_filter, mem_modules]
  simp

theorem dependencyDepthGroups_eq
    (hdepth : ∀ module ∈ graph.modules,
      graph.dependencyDepth fuel module = some (.ok (depth module))) :
    ∃ groups, graph.dependencyDepthGroups fuel = some (.ok groups) ∧
      Grouped depth graph.modules groups := by
  rw [ModuleGraph.dependencyDepthGroups, ModuleGraph.dependencyDepthMap, depthEntries_eq hdepth]
  refine ⟨_, rfl, ?_⟩
  dsimp only
  by_cases hnil : graph.modules = []
  · simp only [hnil, List.map_nil, if_true]
    exact grouped_nil
  · rw [if_neg (by simpa using hnil)]
    have hfold := @List.foldl_ext _ _
      (fun groups module => addToGroup
        (((graph.modules.map fun module => (module, depth module)).lookup module).getD 0) module
          groups)
      (fun groups module => addToGroup (depth module) module groups) [] graph.modules
      (fun groups module hmodule => by rw [lookup_map_of_mem hmodule, Option.getD_some])
    rw [hfold]
    simpa using @grouped_foldl depth [] graph.modules [] grouped_nil

theorem dependencyDepthLayers_eq
    (hdepth : ∀ module ∈ graph.modules,
      graph.dependencyDepth fuel module = some (.ok (depth module)))
    (hclosed : ∀ module level, module ∈ graph.modules → depth module = level + 1 →
      ∃ other ∈ graph.modules, depth other = level) :
    ∃ bound, graph.dependencyDepthLayers fuel =
        some (.ok ((List.range bound).map (graph.atDepth depth))) ∧
      ∀ level, level < bound ↔ graph.atDepth depth level ≠ [] := by
  obtain ⟨groups, hgroups, hdistinct, hgrouped⟩ := dependencyDepthGroups_eq hdepth
  have hlookup : ∀ level, groups.lookup level = if graph.atDepth depth level = [] then none
      else some (graph.atDepth depth level) := hgrouped
  have hkeys : ∀ level, level ∈ groups.map Prod.fst ↔ graph.atDepth depth level ≠ [] := by
    intro level
    have hsome : level ∈ groups.map Prod.fst ↔ (groups.lookup level).isSome = true := by
      rw [List.lookup_isSome_iff, List.mem_map]
      constructor
      · rintro ⟨entry, hentry, rfl⟩
        exact ⟨entry, hentry, BEq.rfl⟩
      · rintro ⟨entry, hentry, heq⟩
        exact ⟨entry, hentry, (eq_of_beq heq).symm⟩
    rw [hsome, hlookup]
    by_cases hnil : graph.atDepth depth level = []
    · simp [hnil]
    · simp [hnil]
  have hlevels : ∀ level, level + 1 ∈ groups.map Prod.fst → level ∈ groups.map Prod.fst := by
    intro level hlevel
    rw [hkeys] at hlevel ⊢
    obtain ⟨module, hmodule⟩ := List.exists_mem_of_ne_nil _ hlevel
    obtain ⟨hmodule, heq⟩ := mem_atDepth.mp hmodule
    obtain ⟨other, hother, hlower⟩ := hclosed module level (mem_modules.mpr hmodule) heq
    exact List.ne_nil_of_mem (mem_atDepth.mpr ⟨mem_modules.mp hother, hlower⟩)
  obtain ⟨bound, hbound⟩ := exists_bound hlevels
  refine ⟨bound, ?_, fun level => (hbound level).symm.trans (hkeys level)⟩
  have hsorted : sortInts (groups.map Prod.fst) = List.range bound :=
    sortInts_eq_range hdistinct hbound
  rw [ModuleGraph.dependencyDepthLayers, ModuleGraph.dependencyDepthLevels, hgroups]
  simp only [Searched.map, hsorted]
  by_cases hnil : groups = []
  · have hzero : bound = 0 := by
      by_contra hne
      have hmem := (hbound 0).mpr (Nat.pos_of_ne_zero hne)
      simp [hnil] at hmem
    rw [if_pos hnil, hzero]
    rfl
  · rw [if_neg hnil]
    congr 2
    refine List.map_congr_left fun level hlevel => ?_
    have hne := (hkeys level).mp ((hbound level).mpr (List.mem_range.mp hlevel))
    rw [hlookup, if_neg hne, Option.getD_some]

/-- Batches by depth: they partition the modules, the batch of a number holds the modules whose longest
walk has that many steps, and imports lie in earlier batches. -/
structure ModuleGraph.Batched (graph : ModuleGraph) (batches : List (List String)) : Prop where
  partition : batches.flatten.Perm graph.modules
  nodup : graph.modules.Nodup
  level : ∀ (index : Nat) batch, batches[index]? = some batch →
    batch ≠ [] ∧ ∀ module, module ∈ batch ↔
      graph.hasModule module = true ∧ Longest graph.Imports module index
  earlier : ∀ module imported, graph.Imports module imported →
    ∀ (index : Nat) batch, batches[index]? = some batch → module ∈ batch →
      ∃ before < index, ∃ batch', batches[before]? = some batch' ∧ imported ∈ batch'

/-- The depth and the longest path of a module belong to one longest walk. -/
structure ModuleGraph.Measured (graph : ModuleGraph) (fuel : Nat) (module : String) : Prop where
  depth : ∃ depth, graph.dependencyDepth fuel module = some (.ok depth) ∧
    Longest graph.Imports module depth ∧
    ∃ path, graph.longestDependencyPath fuel module = some (.ok path) ∧
      IsWalk graph.Imports module path ∧ path.length = depth + 1

theorem batched_atDepth {bound : Nat} (hgraph : graph.WellFormed)
    (hlongest : ∀ module ∈ graph.modules, Longest graph.Imports module (depth module))
    (hbound : ∀ level, level < bound ↔ graph.atDepth depth level ≠ []) :
    graph.Batched ((List.range bound).map (graph.atDepth depth)) := by
  have hget : ∀ (index : Nat), index < bound →
      ((List.range bound).map (graph.atDepth depth))[index]? = some (graph.atDepth depth index) := by
    intro index hlt
    rw [List.getElem?_map, List.getElem?_range hlt, Option.map_some]
  have hbatch : ∀ (index : Nat) batch,
      ((List.range bound).map (graph.atDepth depth))[index]? = some batch →
        index < bound ∧ batch = graph.atDepth depth index := by
    intro index batch hsome
    obtain ⟨hlt, -⟩ := List.getElem?_eq_some_iff.mp hsome
    have hlt : index < bound := by simpa using hlt
    rw [hget index hlt] at hsome
    exact ⟨hlt, (Option.some.inj hsome).symm⟩
  have hdepth : ∀ module level, graph.hasModule module = true →
      (depth module = level ↔ Longest graph.Imports module level) := by
    intro module level hmodule
    have hmodule := hlongest module (mem_modules.mpr hmodule)
    constructor
    · rintro rfl
      exact hmodule
    · exact hmodule.unique
  refine ⟨?_, hgraph.nodup_modules, ?_, ?_⟩
  · rw [List.perm_ext_iff_of_nodup _ hgraph.nodup_modules]
    · intro module
      rw [List.mem_flatten, mem_modules]
      constructor
      · rintro ⟨batch, hmem, hmodule⟩
        obtain ⟨level, -, rfl⟩ := List.mem_map.mp hmem
        exact (mem_atDepth.mp hmodule).1
      · intro hmodule
        have hmem : module ∈ graph.atDepth depth (depth module) := mem_atDepth.mpr ⟨hmodule, rfl⟩
        have hlt := (hbound (depth module)).mpr (List.ne_nil_of_mem hmem)
        exact ⟨_, List.mem_map.mpr ⟨_, List.mem_range.mpr hlt, rfl⟩, hmem⟩
    · rw [List.nodup_flatten]
      constructor
      · intro batch hmem
        obtain ⟨level, -, rfl⟩ := List.mem_map.mp hmem
        exact hgraph.nodup_modules.filter _
      · rw [List.pairwise_map]
        refine List.nodup_range.imp fun {first second} hne => ?_
        intro module hfirst hsecond
        exact hne ((mem_atDepth.mp hfirst).2.symm.trans (mem_atDepth.mp hsecond).2)
  · intro index batch hsome
    obtain ⟨hlt, rfl⟩ := hbatch index batch hsome
    refine ⟨(hbound index).mp hlt, fun module => ?_⟩
    rw [mem_atDepth]
    exact and_congr_right fun hmodule => hdepth module index hmodule
  · intro module imported himports index batch hsome hmem
    obtain ⟨hlt, rfl⟩ := hbatch index batch hsome
    obtain ⟨hmodule, rfl⟩ := mem_atDepth.mp hmem
    have himported := hgraph.closed module imported himports
    have hbefore := (hlongest module (mem_modules.mpr hmodule)).lt_of_step
      (hlongest imported (mem_modules.mpr himported)) himports
    exact ⟨depth imported, hbefore, _, hget _ (hbefore.trans hlt),
      mem_atDepth.mpr ⟨himported, rfl⟩⟩

def ModuleGraph.depthOf (graph : ModuleGraph) (fuel : Nat) (module : String) : Nat :=
  match graph.dependencyDepth fuel module with
  | some (.ok depth) => depth
  | _ => 0

theorem dependencyDepth_eq (hacyclic : ∀ module, ¬ TransGen graph.Imports module module)
    (hfuel : (graph.imports.getD []).length < fuel) (hmodule : graph.hasModule module = true) :
    graph.dependencyDepth fuel module = some (.ok (graph.depthOf fuel module)) ∧
      Longest graph.Imports module (graph.depthOf fuel module) := by
  obtain ⟨result, hresult, hvalue, herror⟩ := dependencyDepth_spec hmodule hfuel
  cases result with
  | error error =>
      obtain ⟨other, -, hcycle⟩ := herror.mp ⟨error, rfl⟩
      exact absurd hcycle (hacyclic other)
  | ok depth =>
      have hdepth : graph.depthOf fuel module = depth := by
        rw [ModuleGraph.depthOf, hresult]
      rw [hdepth]
      exact ⟨hresult, hvalue depth rfl⟩

theorem measured (hacyclic : ∀ module, ¬ TransGen graph.Imports module module)
    (hfuel : (graph.imports.getD []).length < fuel) (hmodule : graph.hasModule module = true) :
    graph.Measured fuel module := by
  obtain ⟨hdepth, hlongest⟩ := dependencyDepth_eq hacyclic hfuel hmodule
  obtain ⟨result, hresult, hvalue, herror⟩ := longestDependencyPath_spec hmodule hfuel
  cases result with
  | error error =>
      obtain ⟨other, -, hcycle⟩ := herror.mp ⟨error, rfl⟩
      exact absurd hcycle (hacyclic other)
  | ok path =>
      obtain ⟨hwalk, hpath⟩ := hvalue path rfl
      have hlength := hlongest.unique hpath
      have hpos := hwalk.length_pos
      exact ⟨_, hdepth, hlongest, path, hresult, hwalk, by omega⟩

/-- `InitializationBatchesAll` fails exactly on a graph with a cycle of imports, and otherwise gives
the batches by depth. -/
theorem initializationBatchesAll_spec (hgraph : graph.WellFormed)
    (hfuel : (graph.imports.getD []).length < fuel) :
    ∃ result, graph.initializationBatchesAll fuel = some result ∧
      ((∃ error, result = .error error) ↔ ∃ module, TransGen graph.Imports module module) ∧
      ∀ batches, result = .ok batches → graph.Batched batches ∧
        ∀ module, graph.hasModule module = true → graph.Measured fuel module := by
  by_cases hcyclic : ∃ module, TransGen graph.Imports module module
  · obtain ⟨module, hcycle⟩ := hcyclic
    have hmodule : graph.hasModule module = true := by
      obtain ⟨next, himports, -⟩ := TransGen.head'_iff.mp hcycle
      exact himports.hasModule
    obtain ⟨error, herror⟩ : ∃ error,
        graph.depthEntries fuel graph.modules = some (.error error) := by
      refine depthEntries_error (fun other hother => ?_) ⟨module, mem_modules.mpr hmodule, ?_⟩
      · obtain ⟨result, hresult, -⟩ := dependencyDepth_spec (mem_modules.mp hother) hfuel
        exact ⟨result, hresult⟩
      · obtain ⟨result, hresult, -, herror⟩ := dependencyDepth_spec hmodule hfuel
        obtain ⟨error, rfl⟩ := herror.mpr ⟨module, .refl, hcycle⟩
        exact ⟨error, hresult⟩
    refine ⟨.error error, ?_, iff_of_true ⟨error, rfl⟩ ⟨module, hcycle⟩, nofun⟩
    rw [ModuleGraph.initializationBatchesAll, ModuleGraph.dependencyDepthLayers,
      ModuleGraph.dependencyDepthGroups, ModuleGraph.dependencyDepthMap, herror]
    rfl
  · have hacyclic : ∀ module, ¬ TransGen graph.Imports module module := not_exists.mp hcyclic
    have hdepth : ∀ module ∈ graph.modules,
        graph.dependencyDepth fuel module = some (.ok (graph.depthOf fuel module)) ∧
          Longest graph.Imports module (graph.depthOf fuel module) :=
      fun module hmodule => dependencyDepth_eq hacyclic hfuel (mem_modules.mp hmodule)
    have hclosed : ∀ module level, module ∈ graph.modules →
        graph.depthOf fuel module = level + 1 →
          ∃ other ∈ graph.modules, graph.depthOf fuel other = level := by
      intro module level hmodule heq
      have hlongest := (hdepth module hmodule).2
      rw [heq] at hlongest
      obtain ⟨other, himports, hother⟩ := hlongest.exists_step
      have hother' := mem_modules.mpr (hgraph.closed module other himports)
      exact ⟨other, hother', (hdepth other hother').2.unique hother⟩
    obtain ⟨bound, hlayers, hbound⟩ := dependencyDepthLayers_eq
      (fun module hmodule => (hdepth module hmodule).1) hclosed
    refine ⟨_, hlayers, iff_of_false nofun hcyclic, ?_⟩
    rintro batches ⟨rfl⟩
    exact ⟨batched_atDepth hgraph (fun module hmodule => (hdepth module hmodule).2) hbound,
      fun module hmodule => measured hacyclic hfuel hmodule⟩

end Batches

def layeredImports : ModuleGraph :=
  newModuleGraph.afterCalls
    [.addModule "app" ["log", "util"], .addImport "log" "util", .addModule "base" []]

theorem layeredImports_wellFormed : layeredImports.WellFormed :=
  wellFormed_new.afterCalls _

theorem layeredImports_spec : ∃ result,
    layeredImports.initializationBatchesAll 5 = some result ∧
      ((∃ error, result = .error error) ↔
        ∃ module, TransGen layeredImports.Imports module module) ∧
      ∀ batches, result = .ok batches → layeredImports.Batched batches ∧
        ∀ module, layeredImports.hasModule module = true → layeredImports.Measured 5 module :=
  initializationBatchesAll_spec layeredImports_wellFormed (by decide)

end Jayess.Resolver
