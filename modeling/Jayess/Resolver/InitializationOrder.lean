import Mathlib.Data.List.Chain
import Mathlib.Data.List.Nodup
import Mathlib.Data.List.Perm.Subperm
import Mathlib.Logic.Relation
import Jayess.Resolver.ModuleGraph

/-!
# The initialization order is a topological order

The stack of the search is a path of imports and the order so far is closed under imports and lists
every module after what it imports.
-/

namespace Jayess.Resolver

open Relation

/-- A module imports another one. -/
def ModuleGraph.Imports (graph : ModuleGraph) (module imported : String) : Prop :=
  imported ∈ graph.importsOf module

/-- A list of modules in which each one comes after everything it imports. -/
def ModuleGraph.Ordered (graph : ModuleGraph) (order : List String) : Prop :=
  ∀ before module after, order = before ++ module :: after →
    ∀ imported, graph.Imports module imported → imported ∈ before

/-- A walk along imports that ends where it starts. -/
structure ModuleGraph.IsCycle (graph : ModuleGraph) (cycle : List String) : Prop where
  long : 2 ≤ cycle.length
  closed : cycle.head? = cycle.getLast?
  walk : cycle.IsChain graph.Imports

/-- Some module that an entry reaches imports itself along some walk. -/
def ModuleGraph.ReachesCycle (graph : ModuleGraph) (entries : List String) : Prop :=
  ∃ entry ∈ entries, ∃ module, ReflTransGen graph.Imports entry module ∧
    TransGen graph.Imports module module

variable {graph : ModuleGraph}

theorem ordered_nil : graph.Ordered [] := by
  intro before module after heq
  simp at heq

theorem ModuleGraph.Ordered.concat {order : List String} {module : String}
    (hordered : graph.Ordered order)
    (himports : ∀ imported, graph.Imports module imported → imported ∈ order) :
    graph.Ordered (order ++ [module]) := by
  intro before other after heq imported himported
  rcases List.eq_nil_or_concat after with rfl | ⟨initial, last, rfl⟩
  · obtain ⟨rfl, hlast⟩ := List.append_inj' heq rfl
    obtain rfl : module = other := by simpa using hlast
    exact himports imported himported
  · rw [List.concat_eq_append, ← List.cons_append, ← List.append_assoc] at heq
    obtain ⟨rfl, -⟩ := List.append_inj' heq rfl
    exact hordered before other initial rfl imported himported

theorem ModuleGraph.Ordered.closed {order : List String} (hordered : graph.Ordered order)
    {module imported : String} (hmodule : module ∈ order) (himports : graph.Imports module imported) :
    imported ∈ order := by
  obtain ⟨before, after, rfl⟩ := List.append_of_mem hmodule
  exact List.mem_append_left _ (hordered before module after rfl imported himports)

theorem ModuleGraph.Ordered.reachable {order : List String} (hordered : graph.Ordered order)
    {module other : String} (hmodule : module ∈ order)
    (hreaches : ReflTransGen graph.Imports module other) : other ∈ order := by
  induction hreaches with
  | refl => exact hmodule
  | tail _ himports ih => exact hordered.closed ih himports

theorem ModuleGraph.Ordered.before {before after : List String} {module other : String}
    (hordered : graph.Ordered (before ++ module :: after))
    (hreaches : TransGen graph.Imports module other) : other ∈ before := by
  have hfirst : ∀ imported, graph.Imports module imported → imported ∈ before :=
    hordered before module after rfl
  have hprefix : graph.Ordered before := by
    intro before' module' after' heq imported himported
    refine hordered before' module' (after' ++ module :: after) ?_ imported himported
    rw [heq, List.append_assoc, List.cons_append]
  induction hreaches with
  | single himports => exact hfirst _ himports
  | tail _ himports ih => exact hprefix.closed ih himports

theorem ModuleGraph.Ordered.acyclic {order : List String} (hordered : graph.Ordered order)
    (hnodup : order.Nodup) {module : String} (hmodule : module ∈ order) :
    ¬ TransGen graph.Imports module module := by
  intro hcycle
  obtain ⟨before, after, rfl⟩ := List.append_of_mem hmodule
  have hbefore := hordered.before hcycle
  have hdisjoint := (List.nodup_append.mp hnodup).2.2
  exact hdisjoint module hbefore module List.mem_cons_self rfl

theorem ModuleGraph.acyclic_of_lowers (rank : String → Nat)
    (hlowers : ∀ importer imported, graph.Imports importer imported →
      rank imported < rank importer) (module : String) :
    ¬ TransGen graph.Imports module module := by
  have hrank : ∀ other, TransGen graph.Imports module other → rank other < rank module := by
    intro other hpath
    induction hpath with
    | single himports => exact hlowers _ _ himports
    | tail _ himports ih => exact (hlowers _ _ himports).trans ih
  exact fun hcycle => lt_irrefl _ (hrank module hcycle)

theorem reaches_of_isChain {first : String} {rest : List String}
    (hwalk : (first :: rest).IsChain graph.Imports) :
    ∀ module ∈ first :: rest, ReflTransGen graph.Imports first module := by
  induction rest generalizing first with
  | nil => simp [ReflTransGen.refl]
  | cons second rest ih =>
      obtain ⟨himports, hrest⟩ := List.isChain_cons_cons.mp hwalk
      intro module hmodule
      rcases List.mem_cons.mp hmodule with rfl | hmodule
      · exact .refl
      · exact .head himports (ih hrest module hmodule)

theorem ModuleGraph.IsCycle.transGen {cycle : List String} (hcycle : graph.IsCycle cycle)
    {module : String} (hmodule : cycle.head? = some module) :
    TransGen graph.Imports module module := by
  obtain _ | ⟨first, _ | ⟨second, rest⟩⟩ := cycle
  · simp at hmodule
  · have hlong := hcycle.long
    simp at hlong
  · obtain rfl : first = module := by simpa using hmodule
    obtain ⟨himports, hrest⟩ := List.isChain_cons_cons.mp hcycle.walk
    have hlast : (second :: rest).getLast? = some first := by
      rw [← List.getLast?_cons_cons, ← hcycle.closed, List.head?_cons]
    exact .head' himports (reaches_of_isChain hrest first (List.mem_of_getLast? hlast))

/-! ## The search -/

/-- What the search keeps: it has listed what it has visited, and its stack is a path of the modules
it is in. -/
structure Search.Valid (graph : ModuleGraph) (search : Search) : Prop where
  visited : ∀ module, search.visited module = true ↔ module ∈ search.order
  active : ∀ module index, search.active module = some index ↔ search.stack[index]? = some module
  disjoint : ∀ module ∈ search.stack, module ∉ search.order
  nodup : search.order.Nodup
  ordered : graph.Ordered search.order
  path : search.stack.IsChain graph.Imports

def Search.Offers (graph : ModuleGraph) (search : Search) (module : String) : Prop :=
  ∀ last ∈ search.stack.getLast?, graph.Imports last module

/-- After a successful search the stack is as before, and the new modules are those the search was
sent to and what they reach. -/
structure Search.Extends (graph : ModuleGraph) (modules : List String) (search found : Search) :
    Prop where
  valid : found.Valid graph
  stack : found.stack = search.stack
  active : found.active = search.active
  listed : ∀ module ∈ modules, module ∈ found.order
  extended : ∃ added, found.order = search.order ++ added ∧
    ∀ module ∈ added, ∃ start ∈ modules, ReflTransGen graph.Imports start module

structure Search.Fails (graph : ModuleGraph) (modules : List String) (error : ImportCycleError) :
    Prop where
  isCycle : graph.IsCycle error.cycle
  reached : ∀ module ∈ error.cycle, ∃ start ∈ modules, ReflTransGen graph.Imports start module

def Search.Ends (graph : ModuleGraph) (modules : List String) (search : Search) :
    Option (Except ImportCycleError Search) → Prop
  | some (.ok found) => search.Extends graph modules found
  | some (.error error) => Fails graph modules error
  | none => False

namespace Search

variable {search found : Search} {module : String}

theorem valid_new : Valid graph .new where
  visited := by simp [new]
  active := by simp [new]
  disjoint := by simp [new]
  nodup := List.nodup_nil
  ordered := ordered_nil
  path := .nil

theorem Valid.stack_nodup (hvalid : search.Valid graph) : search.stack.Nodup := by
  rw [List.nodup_iff_getElem?_ne_getElem?]
  intro first second hlt hbound heq
  obtain ⟨module, hmodule⟩ : ∃ module, search.stack[first]? = some module :=
    ⟨_, List.getElem?_eq_getElem (hlt.trans hbound)⟩
  have hfirst := (hvalid.active module first).mpr hmodule
  have hsecond := (hvalid.active module second).mpr (heq ▸ hmodule)
  rw [hfirst] at hsecond
  exact absurd (Option.some.inj hsecond) hlt.ne

theorem Valid.active_none (hvalid : search.Valid graph) (hactive : search.active module = none) :
    module ∉ search.stack := by
  intro hmem
  obtain ⟨index, hindex⟩ := List.mem_iff_getElem?.mp hmem
  rw [(hvalid.active module index).mpr hindex] at hactive
  exact absurd hactive (by simp)

theorem Valid.enter (hvalid : search.Valid graph) (hoffers : search.Offers graph module)
    (hactive : search.active module = none) (hvisited : ¬ search.visited module = true) :
    (search.enter module).Valid graph where
  visited := hvalid.visited
  active other index := by
    have hnotin := hvalid.active_none hactive
    by_cases hother : other = module
    · subst hother
      simp only [Search.enter, Function.update_self, List.getElem?_append, Option.some.injEq]
      split
      · rename_i hlt
        constructor
        · rintro rfl
          exact absurd hlt (lt_irrefl _)
        · intro hmem
          exact absurd (List.mem_of_getElem? hmem) hnotin
      · rename_i hle
        rw [List.getElem?_singleton]
        constructor
        · rintro rfl
          simp
        · intro hsome
          have hzero : index - search.stack.length = 0 := by
            by_contra hne
            simp [hne] at hsome
          omega
    · simp only [Search.enter, Function.update_of_ne hother, hvalid.active,
        List.getElem?_append]
      split
      · rfl
      · rename_i hle
        rw [List.getElem?_eq_none (not_lt.mp hle), List.getElem?_singleton]
        constructor
        · intro hnone
          simp at hnone
        · intro hsome
          split at hsome
          · exact absurd (Option.some.inj hsome).symm hother
          · simp at hsome
  disjoint other hmem := by
    rcases List.mem_append.mp hmem with hmem | hmem
    · exact hvalid.disjoint other hmem
    · obtain rfl := List.mem_singleton.mp hmem
      exact fun hlisted => hvisited ((hvalid.visited other).mpr hlisted)
  nodup := hvalid.nodup
  ordered := hvalid.ordered
  path := by
    rw [Search.enter, List.isChain_append]
    exact ⟨hvalid.path, .singleton _, by simpa [Offers] using hoffers⟩

theorem Extends.leave (hvalid : search.Valid graph) (hactive : search.active module = none)
    (hfound : (search.enter module).Extends graph (graph.importsOf module) found) :
    search.Extends graph [module] (found.leave module) := by
  have hnotin := hvalid.active_none hactive
  have hstack : (found.leave module).stack = search.stack := by
    rw [Search.leave, hfound.stack, Search.enter, List.dropLast_concat]
  have hactives : (found.leave module).active = search.active := by
    rw [Search.leave, hfound.active, Search.enter, Function.update_idem, ← hactive,
      Function.update_eq_self]
  have hentered : module ∈ found.stack := by
    rw [hfound.stack]
    exact List.mem_append_right _ List.mem_cons_self
  have hnew : module ∉ found.order := hfound.valid.disjoint module hentered
  refine ⟨⟨?_, ?_, ?_, ?_, ?_, ?_⟩, hstack, hactives, ?_, ?_⟩
  · intro other
    by_cases hother : other = module
    · simp [Search.leave, hother]
    · simp [Search.leave, hother, hfound.valid.visited]
  · rw [hactives, hstack]
    exact hvalid.active
  · intro other hmem
    rw [hstack] at hmem
    have hother : other ∈ found.stack := by
      rw [hfound.stack]
      exact List.mem_append_left _ hmem
    rw [Search.leave, List.mem_append, List.mem_singleton, not_or]
    refine ⟨hfound.valid.disjoint other hother, ?_⟩
    rintro rfl
    exact hnotin hmem
  · rw [Search.leave, List.nodup_append]
    refine ⟨hfound.valid.nodup, List.nodup_singleton _, ?_⟩
    intro other hother last hlast heq
    rw [List.mem_singleton] at hlast
    exact hnew (hlast ▸ heq ▸ hother)
  · exact hfound.valid.ordered.concat fun imported himports => hfound.listed imported himports
  · rw [hstack]
    exact hvalid.path
  · simp [Search.leave]
  · obtain ⟨added, horder, hadded⟩ := hfound.extended
    refine ⟨added ++ [module], ?_, ?_⟩
    · rw [Search.leave, horder, Search.enter, List.append_assoc]
    · intro other hother
      refine ⟨module, List.mem_cons_self, ?_⟩
      rcases List.mem_append.mp hother with hother | hother
      · obtain ⟨start, hstart, hreaches⟩ := hadded other hother
        exact .head hstart hreaches
      · obtain rfl := List.mem_singleton.mp hother
        exact .refl

theorem fails_of_active (hvalid : search.Valid graph) (hoffers : search.Offers graph module)
    {index : Nat} (hactive : search.active module = some index) :
    Fails graph [module] ⟨search.stack.drop index ++ [module]⟩ := by
  have hindex := (hvalid.active module index).mp hactive
  obtain ⟨hlt, hget⟩ := List.getElem?_eq_some_iff.mp hindex
  have hdrop : search.stack.drop index = module :: search.stack.drop (index + 1) := by
    rw [List.drop_eq_getElem_cons hlt, hget]
  have hwalk : (search.stack.drop index ++ [module]).IsChain graph.Imports := by
    rw [List.isChain_append]
    refine ⟨hvalid.path.drop index, .singleton _, ?_⟩
    intro last hlast first hfirst
    obtain rfl : module = first := by simpa using hfirst
    refine hoffers last ?_
    rwa [List.getLast?_drop, if_neg (not_le.mpr hlt)] at hlast
  have hcycle : graph.IsCycle (search.stack.drop index ++ [module]) := by
    refine ⟨?_, ?_, hwalk⟩
    · simp [hdrop]
    · rw [List.getLast?_concat, hdrop, List.cons_append, List.head?_cons]
  refine ⟨hcycle, fun other hother => ⟨module, List.mem_cons_self, ?_⟩⟩
  rw [hdrop, List.cons_append] at hwalk
  simp only [hdrop, List.cons_append] at hother
  exact reaches_of_isChain hwalk other hother

theorem Extends.nil (hvalid : search.Valid graph) : search.Extends graph [] search :=
  ⟨hvalid, rfl, rfl, by simp, [], by simp, by simp⟩

theorem Extends.cons {middle : Search} {rest : List String}
    (hfirst : search.Extends graph [module] middle) (hrest : middle.Extends graph rest found) :
    search.Extends graph (module :: rest) found := by
  obtain ⟨added, horder, hadded⟩ := hfirst.extended
  obtain ⟨added', horder', hadded'⟩ := hrest.extended
  refine ⟨hrest.valid, hrest.stack.trans hfirst.stack, hrest.active.trans hfirst.active, ?_,
    added ++ added', ?_, ?_⟩
  · intro other hother
    rcases List.mem_cons.mp hother with rfl | hother
    · rw [horder']
      exact List.mem_append_left _ (hfirst.listed other List.mem_cons_self)
    · exact hrest.listed other hother
  · rw [horder', horder, List.append_assoc]
  · intro other hother
    rcases List.mem_append.mp hother with hother | hother
    · obtain ⟨start, hstart, hreaches⟩ := hadded other hother
      obtain rfl := List.mem_singleton.mp hstart
      exact ⟨start, List.mem_cons_self, hreaches⟩
    · obtain ⟨start, hstart, hreaches⟩ := hadded' other hother
      exact ⟨start, List.mem_cons_of_mem _ hstart, hreaches⟩

theorem Fails.mono {modules modules' : List String} {error : ImportCycleError}
    (hfails : Fails graph modules error)
    (hreach : ∀ start ∈ modules, ∃ start' ∈ modules', ReflTransGen graph.Imports start' start) :
    Fails graph modules' error := by
  refine ⟨hfails.isCycle, fun module hmodule => ?_⟩
  obtain ⟨start, hstart, hreaches⟩ := hfails.reached module hmodule
  obtain ⟨start', hstart', hreaches'⟩ := hreach start hstart
  exact ⟨start', hstart', hreaches'.trans hreaches⟩

theorem Valid.offers_of_extends (hfound : search.Extends graph [module] found) {other : String}
    (hoffers : search.Offers graph other) : found.Offers graph other := by
  rw [Offers, hfound.stack]
  exact hoffers

theorem visitAll_ends {visit : String → Search → Option (Except ImportCycleError Search)}
    {modules : List String} (hvalid : search.Valid graph)
    (hoffers : ∀ module ∈ modules, search.Offers graph module)
    (hvisit : ∀ module ∈ modules, ∀ current : Search, current.Valid graph →
      current.stack = search.stack → current.Offers graph module →
        current.Ends graph [module] (visit module current)) :
    search.Ends graph modules (visitAll visit modules search) := by
  induction modules generalizing search with
  | nil => exact Extends.nil hvalid
  | cons module rest ih =>
      have hends := hvisit module List.mem_cons_self search hvalid rfl
        (hoffers module List.mem_cons_self)
      rw [visitAll]
      match hresult : visit module search with
      | none =>
          rw [hresult] at hends
          exact hends.elim
      | some (.error error) =>
          rw [hresult] at hends
          refine Fails.mono hends fun start hstart => ?_
          obtain rfl := List.mem_singleton.mp hstart
          exact ⟨start, List.mem_cons_self, .refl⟩
      | some (.ok middle) =>
          rw [hresult] at hends
          have hextends : search.Extends graph [module] middle := hends
          have hrest := ih hextends.valid
            (fun other hother => Valid.offers_of_extends hextends
              (hoffers other (List.mem_cons_of_mem _ hother)))
            (fun other hother current hcurrent hstack => hvisit other
              (List.mem_cons_of_mem _ hother) current hcurrent (hstack.trans hextends.stack))
          show search.Ends graph (module :: rest) (visitAll visit rest middle)
          match hrestResult : visitAll visit rest middle with
          | none =>
              rw [hrestResult] at hrest
              exact hrest.elim
          | some (.error error) =>
              rw [hrestResult] at hrest
              exact Fails.mono hrest fun start hstart =>
                ⟨start, List.mem_cons_of_mem _ hstart, .refl⟩
          | some (.ok found) =>
              rw [hrestResult] at hrest
              exact hextends.cons hrest

end Search

theorem ModuleGraph.Imports.mem_keys {module imported : String}
    (himports : graph.Imports module imported) :
    module ∈ (graph.imports.getD []).map Prod.fst := by
  unfold ModuleGraph.Imports ModuleGraph.importsOf at himports
  cases hlookup : (graph.imports.getD []).lookup module with
  | none => simp [hlookup] at himports
  | some imports =>
      rw [List.lookup_eq_some_iff] at hlookup
      obtain ⟨before, after, heq, -⟩ := hlookup
      rw [heq]
      simp

theorem Search.Valid.stack_length {search : Search} {module : String}
    (hvalid : search.Valid graph) (hoffers : search.Offers graph module) :
    search.stack.length ≤ (graph.imports.getD []).length := by
  have hkeys : search.stack ⊆ (graph.imports.getD []).map Prod.fst := by
    intro other hother
    obtain ⟨before, after, hstack⟩ := List.append_of_mem hother
    obtain _ | ⟨next, after⟩ := after
    · refine (hoffers other ?_).mem_keys
      simp [hstack]
    · have hpath := hvalid.path
      rw [hstack, List.isChain_append] at hpath
      exact (List.isChain_cons_cons.mp hpath.2.1).1.mem_keys
  calc
    search.stack.length ≤ ((graph.imports.getD []).map Prod.fst).length :=
      (List.subperm_of_subset hvalid.stack_nodup hkeys).length_le
    _ = (graph.imports.getD []).length := List.length_map ..

theorem ModuleGraph.visit_ends (fuel : Nat) {search : Search} {module : String}
    (hvalid : search.Valid graph) (hoffers : search.Offers graph module)
    (hfuel : (graph.imports.getD []).length < fuel + search.stack.length) :
    search.Ends graph [module] (graph.visit fuel module search) := by
  induction fuel generalizing search module with
  | zero =>
      have hlength := hvalid.stack_length hoffers
      omega
  | succ fuel ih =>
      rw [ModuleGraph.visit]
      by_cases hvisited : search.visited module = true
      · rw [if_pos hvisited]
        have hlisted := (hvalid.visited module).mp hvisited
        exact ⟨hvalid, rfl, rfl, by simpa using hlisted, [], by simp, by simp⟩
      · rw [if_neg hvisited]
        cases hactive : search.active module with
        | some index => exact Search.fails_of_active hvalid hoffers hactive
        | none =>
            have hentered := hvalid.enter hoffers hactive hvisited
            have hlength : (search.enter module).stack.length = search.stack.length + 1 := by
              simp [Search.enter]
            have hends : (search.enter module).Ends graph (graph.importsOf module)
                (visitAll (graph.visit fuel) (graph.importsOf module) (search.enter module)) := by
              refine Search.visitAll_ends hentered ?_ ?_
              · intro imported himported last hlast
                obtain rfl : module = last := by simpa [Search.enter] using hlast
                exact himported
              · intro imported himported current hcurrent hstack hcurrentOffers
                refine ih hcurrent hcurrentOffers ?_
                rw [hstack, hlength]
                omega
            simp only
            match hresult : visitAll (graph.visit fuel) (graph.importsOf module)
              (search.enter module) with
            | none =>
                rw [hresult] at hends
                exact hends.elim
            | some (.error error) =>
                rw [hresult] at hends
                refine Search.Fails.mono hends fun start hstart => ?_
                exact ⟨module, List.mem_cons_self, .single hstart⟩
            | some (.ok found) =>
                rw [hresult] at hends
                exact Search.Extends.leave hvalid hactive hends

/-- `InitializationOrderFor` on a graph with a map ends. It lists what the entries reach in an order
that puts imports first, or fails with a cycle the entries reach, which it does if there is one. -/
theorem initializationOrderFor_spec (graph : ModuleGraph) (imports : List (String × List String))
    (entries : List String) (fuel : Nat) (hmap : graph.imports = some imports)
    (hfuel : imports.length < fuel) :
    ∃ result, graph.initializationOrderFor fuel entries = some result ∧
      (∀ order, result = .ok order →
        order.Nodup ∧ graph.Ordered order ∧
          ∀ module, module ∈ order ↔
            ∃ entry ∈ entries, ReflTransGen graph.Imports entry module) ∧
      (∀ error, result = .error error →
        graph.IsCycle error.cycle ∧
          ∀ module ∈ error.cycle, ∃ entry ∈ entries, ReflTransGen graph.Imports entry module) ∧
      ((∃ error, result = .error error) ↔ graph.ReachesCycle entries) := by
  have hends : Search.new.Ends graph entries (visitAll (graph.visit fuel) entries .new) := by
    refine Search.visitAll_ends Search.valid_new ?_ ?_
    · intro entry _ last hlast
      simp [Search.new] at hlast
    · intro entry _ current hvalid hstack hoffers
      refine graph.visit_ends fuel hvalid hoffers ?_
      rw [hstack, hmap]
      exact hfuel
  rw [ModuleGraph.initializationOrderFor, hmap]
  simp only
  match hresult : visitAll (graph.visit fuel) entries .new with
  | none =>
      rw [hresult] at hends
      exact hends.elim
  | some (.error error) =>
      rw [hresult] at hends
      have hfails : Search.Fails graph entries error := hends
      refine ⟨.error error, rfl, by simp, ?_, ?_⟩
      · rintro other ⟨rfl⟩
        exact ⟨hfails.isCycle, hfails.reached⟩
      · refine iff_of_true ⟨error, rfl⟩ ?_
        obtain ⟨first, hfirst⟩ : ∃ first, error.cycle.head? = some first := by
          rw [← Option.isSome_iff_exists, List.isSome_head?]
          exact List.ne_nil_of_length_pos (Nat.lt_of_lt_of_le Nat.two_pos hfails.isCycle.long)
        obtain ⟨entry, hentry, hreaches⟩ := hfails.reached first (List.mem_of_head? hfirst)
        exact ⟨entry, hentry, first, hreaches, hfails.isCycle.transGen hfirst⟩
  | some (.ok found) =>
      rw [hresult] at hends
      have hextends : Search.new.Extends graph entries found := hends
      have hreached : ∀ module, module ∈ found.order ↔
          ∃ entry ∈ entries, ReflTransGen graph.Imports entry module := by
        intro module
        constructor
        · intro hmodule
          obtain ⟨added, horder, hadded⟩ := hextends.extended
          rw [horder] at hmodule
          exact hadded module (by simpa [Search.new] using hmodule)
        · rintro ⟨entry, hentry, hreaches⟩
          exact hextends.valid.ordered.reachable (hextends.listed entry hentry) hreaches
      refine ⟨.ok found.order, rfl, ?_, by simp, ?_⟩
      · rintro order ⟨rfl⟩
        exact ⟨hextends.valid.nodup, hextends.valid.ordered, hreached⟩
      · refine iff_of_false (by simp) ?_
        rintro ⟨entry, hentry, module, hreaches, hcycle⟩
        have hmodule := (hreached module).mpr ⟨entry, hentry, hreaches⟩
        exact hextends.valid.ordered.acyclic hextends.valid.nodup hmodule hcycle

def sharedImports : ModuleGraph :=
  ((newModuleGraph.addModule "app" ["util", "log", "util"]).addModule "log" ["util"])

theorem sharedImports_spec : ∃ result,
    sharedImports.initializationOrderFor 4 ["app"] = some result ∧
      (∀ order, result = .ok order →
        order.Nodup ∧ sharedImports.Ordered order ∧
          ∀ module, module ∈ order ↔
            ∃ entry ∈ ["app"], ReflTransGen sharedImports.Imports entry module) ∧
      (∀ error, result = .error error →
        sharedImports.IsCycle error.cycle ∧
          ∀ module ∈ error.cycle, ∃ entry ∈ ["app"],
            ReflTransGen sharedImports.Imports entry module) ∧
      ((∃ error, result = .error error) ↔ sharedImports.ReachesCycle ["app"]) := by
  have hmap : sharedImports.imports =
      some [("log", ["util"]), ("util", []), ("app", ["util", "log", "util"])] := by decide
  exact initializationOrderFor_spec sharedImports _ ["app"] 4 hmap (by decide)

/-- A graph whose map is nil lists nothing, whatever the entries are. -/
theorem nilGraph_lists_nothing :
    ModuleGraph.initializationOrderFor ⟨none⟩ 1 ["app"] = some (.ok []) ∧
      ∃ entry ∈ ["app"], entry ∉ ([] : List String) := by
  exact ⟨rfl, "app", List.mem_cons_self, List.not_mem_nil⟩

end Jayess.Resolver
