import Jayess.Graph.Trail
import Jayess.Resolver.Inspection

/-!
# Depths and longest paths
-/

namespace Jayess.Resolver

open Relation
open Graph

variable {β : Type}

structure DepthSearch (β : Type) where
  memo : String → Option β
  active : String → Option Nat
  stack : List String

/-- What a search returns; `none` stands for one that has run out of fuel. -/
abbrev Searched (β : Type) := Option (Except ImportCycleError β)

namespace DepthSearch

def new : DepthSearch β := ⟨fun _ => none, fun _ => none, []⟩

def enter (search : DepthSearch β) (module : String) : DepthSearch β :=
  { search with
    active := Function.update search.active module (some search.stack.length)
    stack := search.stack ++ [module] }

def leave (search : DepthSearch β) (module : String) (value : β) : DepthSearch β where
  memo := Function.update search.memo module (some value)
  active := Function.update search.active module none
  stack := search.stack.dropLast

end DepthSearch

/-- The value of a module when it is met first, and with the value of one more module it goes on
to. -/
structure DepthValue (β : Type) where
  start : String → β
  extend : String → β → β → β

/-- The loop over the modules a module goes on to. -/
def DepthValue.loop (values : DepthValue β)
    (visit : String → DepthSearch β → Searched (β × DepthSearch β)) (module : String) :
    List String → β → DepthSearch β → Searched (β × DepthSearch β)
  | [], value, search => some (.ok (value, search))
  | next :: rest, value, search =>
      match visit next search with
      | none => none
      | some (.error error) => some (.error error)
      | some (.ok (part, search)) =>
          values.loop visit module rest (values.extend module value part) search

def DepthValue.visit (values : DepthValue β) (next : String → List String) :
    Nat → String → DepthSearch β → Searched (β × DepthSearch β)
  | 0, _, _ => none
  | fuel + 1, module, search =>
      match search.memo module with
      | some value => some (.ok (value, search))
      | none =>
          match search.active module with
          | some index => some (.error ⟨search.stack.drop index ++ [module]⟩)
          | none =>
              match values.loop (values.visit next fuel) module (next module)
                  (values.start module) (search.enter module) with
              | none => none
              | some (.error error) => some (.error error)
              | some (.ok (value, search)) => some (.ok (value, search.leave module value))

/-- A search from one module, or a default for what is not a module. -/
def ModuleGraph.searchFrom (graph : ModuleGraph) (values : DepthValue β)
    (next : String → List String) (missing : β) (fuel : Nat) (module : String) : Searched β :=
  if graph.hasModule module then
    match values.visit next fuel module .new with
    | none => none
    | some (.error error) => some (.error error)
    | some (.ok (value, _)) => some (.ok value)
  else some (.ok missing)

def depthValue : DepthValue Nat where
  start _ := 0
  extend _ depth nextDepth := if nextDepth + 1 > depth then nextDepth + 1 else depth

def pathValue : DepthValue (List String) where
  start module := [module]
  extend module path nextPath :=
    if nextPath.length + 1 > path.length then module :: nextPath else path

namespace ModuleGraph

def dependencyDepth (graph : ModuleGraph) (fuel : Nat) (module : String) : Searched Nat :=
  graph.searchFrom depthValue graph.importsOf 0 fuel module

def longestDependencyPath (graph : ModuleGraph) (fuel : Nat) (module : String) :
    Searched (List String) :=
  graph.searchFrom pathValue graph.importsOf [] fuel module

def dependentDepth (graph : ModuleGraph) (fuel : Nat) (module : String) : Searched Nat :=
  graph.searchFrom depthValue graph.dependents 0 fuel module

end ModuleGraph

/-- A value of a module stands for a walk from it, of `size` steps, and the value made from two walks
stands for the longer one. -/
structure DepthValue.Measures (values : DepthValue β) (r : String → String → Prop)
    (realises : String → β → Prop) (size : β → Nat) : Prop where
  start : ∀ module, realises module (values.start module) ∧ size (values.start module) = 0
  extend : ∀ module next value part, r module next → realises module value → realises next part →
    realises module (values.extend module value part) ∧
      size (values.extend module value part) = max (size value) (size part + 1)
  attained : ∀ module value, realises module value →
    ∃ walk, IsWalk r module walk ∧ walk.length = size value + 1

theorem depthValue_measures (r : String → String → Prop) :
    depthValue.Measures r (fun module depth => ∃ walk, IsWalk r module walk ∧
      walk.length = depth + 1) id where
  start module := ⟨⟨[module], .singleton, rfl⟩, rfl⟩
  extend module next value part hstep hvalue hpart := by
    obtain ⟨walk, hwalk, hlength⟩ := hpart
    unfold depthValue
    dsimp only
    split
    · exact ⟨⟨_, hwalk.cons hstep, by rw [List.length_cons, hlength]⟩, by simp only [id]; omega⟩
    · exact ⟨hvalue, by simp only [id]; omega⟩
  attained _ _ hvalue := hvalue

theorem pathValue_measures (r : String → String → Prop) :
    pathValue.Measures r (IsWalk r) fun path => path.length - 1 where
  start module := ⟨.singleton, rfl⟩
  extend module next value part hstep hvalue hpart := by
    have hpos := hvalue.length_pos
    have hpos' := hpart.length_pos
    unfold pathValue
    dsimp only
    split
    · exact ⟨hpart.cons hstep, by rw [List.length_cons]; omega⟩
    · exact ⟨hvalue, by omega⟩
  attained module path hpath := ⟨path, hpath, (Nat.sub_add_cancel hpath.length_pos).symm⟩

section Search

variable {values : DepthValue β} {r : String → String → Prop} {realises : String → β → Prop}
  {size : β → Nat} {next : String → List String}

def Realised (r : String → String → Prop) (realises : String → β → Prop) (size : β → Nat)
    (module : String) (value : β) : Prop :=
  realises module value ∧ Bounded r module (size value + 1)

structure DepthSearch.Valid (r : String → String → Prop) (realises : String → β → Prop)
    (size : β → Nat) (search : DepthSearch β) : Prop where
  memo : ∀ module value, search.memo module = some value → Realised r realises size module value
  trail : IsTrail r search.active search.stack

/-- A search that succeeds leaves the stack as it was; one that fails has met a cycle. -/
def DepthSearch.Ends (r : String → String → Prop) (realises : String → β → Prop) (size : β → Nat)
    (good : β → Prop) (modules : List String) (search : DepthSearch β) :
    Searched (β × DepthSearch β) → Prop
  | some (.ok (value, found)) =>
      good value ∧ found.Valid r realises size ∧ found.stack = search.stack ∧
        found.active = search.active
  | some (.error _) =>
      ∃ start ∈ modules, ∃ module, ReflTransGen r start module ∧ TransGen r module module
  | none => False

def BoundedThrough (r : String → String → Prop) (through : List String) (length : Nat) : Prop :=
  ∀ next ∈ through, ∀ walk, IsWalk r next walk → walk.length + 1 ≤ length

theorem BoundedThrough.concat {done : List String} {next : String} {length longer partLength : Nat}
    (hdone : BoundedThrough r done length) (hnext : Bounded r next partLength)
    (hlonger : longer = max length (partLength + 1)) :
    BoundedThrough r (done ++ [next]) longer := by
  intro other hother walk hwalk
  rcases List.mem_append.mp hother with hother | hother
  · have hle := hdone other hother walk hwalk
    omega
  · obtain rfl := List.mem_singleton.mp hother
    have hle := hnext walk hwalk
    omega

theorem BoundedThrough.bounded {module : String} {length : Nat}
    (hthrough : BoundedThrough r (next module) (length + 1))
    (hnext : ∀ first second, r first second → second ∈ next first) :
    Bounded r module (length + 1) := by
  intro walk hwalk
  rcases hwalk.cases with rfl | ⟨second, rest, hstep, hrest, rfl⟩
  · simp
  · exact hthrough second (hnext module second hstep) rest hrest

variable {search : DepthSearch β}

theorem DepthSearch.Ends.mono {good better : β → Prop} {modules more : List String}
    {result : Searched (β × DepthSearch β)}
    (hends : search.Ends r realises size good modules result)
    (hgood : ∀ value, good value → better value)
    (hmodules : ∀ start ∈ modules, ∃ start' ∈ more, ReflTransGen r start' start) :
    search.Ends r realises size better more result := by
  match result with
  | none => exact hends
  | some (.error _) =>
      obtain ⟨start, hstart, module, hreaches, hcycle⟩ := hends
      obtain ⟨start', hstart', hreaches'⟩ := hmodules start hstart
      exact ⟨start', hstart', module, hreaches'.trans hreaches, hcycle⟩
  | some (.ok (value, found)) => exact ⟨hgood value hends.1, hends.2⟩

theorem DepthSearch.Ends.same {good : β → Prop} {modules : List String} {other : DepthSearch β}
    {result : Searched (β × DepthSearch β)} (hends : other.Ends r realises size good modules result)
    (hstack : other.stack = search.stack) (hactive : other.active = search.active) :
    search.Ends r realises size good modules result := by
  match result with
  | none => exact hends
  | some (.error _) => exact hends
  | some (.ok (value, found)) =>
      obtain ⟨hgood, hfound, hfoundStack, hfoundActive⟩ := hends
      exact ⟨hgood, hfound, hfoundStack.trans hstack, hfoundActive.trans hactive⟩

theorem loop_ends (hmeasures : values.Measures r realises size)
    {visit : String → DepthSearch β → Searched (β × DepthSearch β)} {module : String}
    {done rest : List String} {value : β} (hvalid : search.Valid r realises size)
    (hvalue : realises module value) (hdone : BoundedThrough r done (size value + 1))
    (hsteps : ∀ next ∈ rest, r module next)
    (hvisit : ∀ next ∈ rest, ∀ current : DepthSearch β, current.Valid r realises size →
      current.stack = search.stack →
        current.Ends r realises size (Realised r realises size next) [next] (visit next current)) :
    search.Ends r realises size
      (fun value => realises module value ∧ BoundedThrough r (done ++ rest) (size value + 1))
      rest (values.loop visit module rest value search) := by
  induction rest generalizing done value search with
  | nil => exact ⟨⟨hvalue, by rwa [List.append_nil]⟩, hvalid, rfl, rfl⟩
  | cons next rest ih =>
      have hends := hvisit next List.mem_cons_self search hvalid rfl
      rw [DepthValue.loop]
      match hresult : visit next search with
      | none =>
          rw [hresult] at hends
          exact hends.elim
      | some (.error error) =>
          rw [hresult] at hends
          obtain ⟨start, hstart, module', hreaches, hcycle⟩ := hends
          obtain rfl := List.mem_singleton.mp hstart
          exact ⟨start, List.mem_cons_self, module', hreaches, hcycle⟩
      | some (.ok (part, middle)) =>
          rw [hresult] at hends
          obtain ⟨⟨hpart, hbounded⟩, hmiddle, hstack, hactive⟩ := hends
          obtain ⟨hextended, hsize⟩ := hmeasures.extend module next value part
            (hsteps next List.mem_cons_self) hvalue hpart
          have hdone' := hdone.concat hbounded
            (show size (values.extend module value part) + 1 =
              max (size value + 1) (size part + 1 + 1) by omega)
          have hrest := ih hmiddle hextended hdone'
            (fun other hother => hsteps other (List.mem_cons_of_mem _ hother))
            (fun other hother current hcurrent hcurrentStack =>
              hvisit other (List.mem_cons_of_mem _ hother) current hcurrent
                (hcurrentStack.trans hstack))
          rw [List.append_assoc, List.singleton_append] at hrest
          have hmodules : ∀ start ∈ rest, ∃ start' ∈ next :: rest, ReflTransGen r start' start :=
            fun start hstart => ⟨start, List.mem_cons_of_mem _ hstart, .refl⟩
          exact (hrest.mono (fun _ hgood => hgood) hmodules).same hstack hactive

theorem DepthSearch.Valid.enter {module : String} (hvalid : search.Valid r realises size)
    (hoffers : Offers r search.stack module) (hactive : search.active module = none) :
    (search.enter module).Valid r realises size :=
  ⟨hvalid.memo, hvalid.trail.push hoffers hactive⟩

theorem DepthSearch.Valid.leave {found : DepthSearch β} {module : String} {value : β}
    (hvalid : search.Valid r realises size) (hfound : found.Valid r realises size)
    (hstack : found.stack = (search.enter module).stack)
    (hactives : found.active = (search.enter module).active) (hactive : search.active module = none)
    (hvalue : Realised r realises size module value) :
    (found.leave module value).Valid r realises size ∧
      (found.leave module value).stack = search.stack ∧
      (found.leave module value).active = search.active := by
  have hback : (found.leave module value).stack = search.stack := by
    rw [DepthSearch.leave, hstack, DepthSearch.enter, List.dropLast_concat]
  have hbackActive : (found.leave module value).active = search.active := by
    rw [DepthSearch.leave, hactives, DepthSearch.enter, Function.update_idem, ← hactive,
      Function.update_eq_self]
  refine ⟨⟨fun other kept hkept => ?_, ?_⟩, hback, hbackActive⟩
  · by_cases heq : other = module
    · subst heq
      obtain rfl : value = kept := by simpa [DepthSearch.leave] using hkept
      exact hvalue
    · refine hfound.memo other kept ?_
      simpa [DepthSearch.leave, heq] using hkept
  · rw [hback, hbackActive]
    exact hvalid.trail

theorem visit_ends (hmeasures : values.Measures r realises size)
    (hnext : ∀ first second, r first second ↔ second ∈ next first) {keys : List String}
    (hkeys : ∀ first second, r first second → first ∈ keys) (fuel : Nat) {module : String}
    (hvalid : search.Valid r realises size) (hoffers : Offers r search.stack module)
    (hfuel : keys.length < fuel + search.stack.length) :
    search.Ends r realises size (Realised r realises size module) [module]
      (values.visit next fuel module search) := by
  induction fuel generalizing search module with
  | zero =>
      have hlength := hvalid.trail.length_le hoffers hkeys
      omega
  | succ fuel ih =>
      rw [DepthValue.visit]
      cases hmemo : search.memo module with
      | some value => exact ⟨hvalid.memo module value hmemo, hvalid, rfl, rfl⟩
      | none =>
          cases hactive : search.active module with
          | some index =>
              exact ⟨module, List.mem_cons_self, module, .refl, hvalid.trail.cycle hoffers hactive⟩
          | none =>
              have hlength : (search.enter module).stack.length = search.stack.length + 1 := by
                simp [DepthSearch.enter]
              obtain ⟨hstart, hsize⟩ := hmeasures.start module
              have hnone : BoundedThrough r [] (size (values.start module) + 1) := by
                simp [BoundedThrough]
              have hvisit : ∀ other ∈ next module, ∀ current : DepthSearch β,
                  current.Valid r realises size → current.stack = (search.enter module).stack →
                  current.Ends r realises size (Realised r realises size other) [other]
                    (values.visit next fuel other current) := by
                intro other hother current hcurrent hstack
                refine ih hcurrent ?_ (by rw [hstack, hlength]; omega)
                intro last hlast
                rw [hstack] at hlast
                obtain rfl : module = last := by simpa [DepthSearch.enter] using hlast
                exact (hnext module other).mpr hother
              have hends := loop_ends hmeasures (hvalid.enter hoffers hactive) hstart hnone
                (fun other hother => (hnext module other).mpr hother) hvisit
              dsimp only
              match hresult : values.loop (values.visit next fuel) module (next module)
                (values.start module) (search.enter module) with
              | none =>
                  rw [hresult] at hends
                  exact hends.elim
              | some (.error error) =>
                  rw [hresult] at hends
                  obtain ⟨start, hstart, other, hreaches, hcycle⟩ := hends
                  have hstep := (hnext module start).mpr hstart
                  exact ⟨module, List.mem_cons_self, other, .head hstep hreaches, hcycle⟩
              | some (.ok (value, found)) =>
                  rw [hresult] at hends
                  obtain ⟨⟨hvalue, hthrough⟩, hfound, hstack, hactives⟩ := hends
                  have hrealised : Realised r realises size module value :=
                    ⟨hvalue, hthrough.bounded fun first second => (hnext first second).mp⟩
                  exact ⟨hrealised, hvalid.leave hfound hstack hactives hactive hrealised⟩

/-- A search from a module of the graph gives the value of a longest walk, and fails exactly where a
cycle is reached. -/
theorem searchFrom_spec {graph : ModuleGraph} (hmeasures : values.Measures r realises size)
    (hnext : ∀ first second, r first second ↔ second ∈ next first) {keys : List String}
    (hkeys : ∀ first second, r first second → first ∈ keys) {fuel : Nat}
    (hfuel : keys.length < fuel) (missing : β) {module : String}
    (hmodule : graph.hasModule module = true) :
    ∃ result, graph.searchFrom values next missing fuel module = some result ∧
      (∀ value, result = .ok value → realises module value ∧ Longest r module (size value)) ∧
      ((∃ error, result = .error error) ↔
        ∃ other, ReflTransGen r module other ∧ TransGen r other other) := by
  have hvalid : (DepthSearch.new : DepthSearch β).Valid r realises size :=
    ⟨by simp [DepthSearch.new], isTrail_nil⟩
  have hoffers : Offers r (DepthSearch.new : DepthSearch β).stack module := by
    simp [Offers, DepthSearch.new]
  have hends := visit_ends hmeasures hnext hkeys fuel hvalid hoffers hfuel
  unfold ModuleGraph.searchFrom
  rw [if_pos hmodule]
  rcases hresult : values.visit next fuel module .new with _ | error | ⟨value, found⟩
  · rw [hresult] at hends
    exact hends.elim
  · rw [hresult] at hends
    obtain ⟨start, hstart, other, hreaches, hcycle⟩ := hends
    obtain rfl := List.mem_singleton.mp hstart
    refine ⟨.error error, rfl, ?_, iff_of_true ⟨error, rfl⟩ ⟨other, hreaches, hcycle⟩⟩
    rintro value ⟨⟩
  · rw [hresult] at hends
    obtain ⟨⟨hvalue, hbounded⟩, -⟩ := hends
    refine ⟨.ok value, rfl, ?_, iff_of_false ?_ ?_⟩
    · rintro other ⟨rfl⟩
      exact ⟨hvalue, hmeasures.attained module value hvalue, hbounded⟩
    · rintro ⟨error, ⟨⟩⟩
    · rintro ⟨other, hreaches, hcycle⟩
      obtain ⟨shorter, hshorter⟩ := hbounded.reflTransGen hreaches
      exact hshorter.not_cycle hcycle

end Search

section Graph

variable {graph : ModuleGraph} {fuel : Nat} {module : String}

def ModuleGraph.ReachesCycleFrom (graph : ModuleGraph) (module : String) : Prop :=
  ∃ other, ReflTransGen graph.Imports module other ∧ TransGen graph.Imports other other

theorem importer_mem_keys {first second : String} (himports : graph.Imports first second) :
    first ∈ (graph.imports.getD []).map Prod.fst :=
  mem_keys_iff.mpr himports.hasModule

theorem dependencyDepth_spec (hmodule : graph.hasModule module = true)
    (hfuel : (graph.imports.getD []).length < fuel) :
    ∃ result, graph.dependencyDepth fuel module = some result ∧
      (∀ depth, result = .ok depth → Longest graph.Imports module depth) ∧
      ((∃ error, result = .error error) ↔ graph.ReachesCycleFrom module) := by
  obtain ⟨result, hresult, hvalue, herror⟩ := @searchFrom_spec _ _ graph.Imports _ _
    graph.importsOf graph (depthValue_measures graph.Imports) (fun _ _ => Iff.rfl) _
    (fun _ _ => importer_mem_keys) fuel (by rwa [List.length_map]) 0 module hmodule
  exact ⟨result, hresult, fun depth hdepth => (hvalue depth hdepth).2, herror⟩

theorem longestDependencyPath_spec (hmodule : graph.hasModule module = true)
    (hfuel : (graph.imports.getD []).length < fuel) :
    ∃ result, graph.longestDependencyPath fuel module = some result ∧
      (∀ path, result = .ok path → IsWalk graph.Imports module path ∧
        Longest graph.Imports module (path.length - 1)) ∧
      ((∃ error, result = .error error) ↔ graph.ReachesCycleFrom module) :=
  @searchFrom_spec _ _ graph.Imports _ _ graph.importsOf graph (pathValue_measures graph.Imports)
    (fun _ _ => Iff.rfl) _ (fun _ _ => importer_mem_keys) fuel (by rwa [List.length_map]) []
    module hmodule

def ModuleGraph.ImportedBy (graph : ModuleGraph) (module importer : String) : Prop :=
  graph.Imports importer module

theorem dependentDepth_spec (hgraph : graph.WellFormed) (hmodule : graph.hasModule module = true)
    (hfuel : (graph.imports.getD []).length < fuel) :
    ∃ result, graph.dependentDepth fuel module = some result ∧
      (∀ depth, result = .ok depth → Longest graph.ImportedBy module depth) ∧
      ((∃ error, result = .error error) ↔
        ∃ other, ReflTransGen graph.ImportedBy module other ∧
          TransGen graph.ImportedBy other other) := by
  obtain ⟨result, hresult, hvalue, herror⟩ := @searchFrom_spec _ _ graph.ImportedBy _ _
    graph.dependents graph (depthValue_measures graph.ImportedBy)
    (fun _ _ => hgraph.mem_dependents.symm) _
    (fun first second hstep => mem_keys_iff.mpr (hgraph.closed second first hstep)) fuel
    (by rwa [List.length_map]) 0 module hmodule
  exact ⟨result, hresult, fun depth hdepth => (hvalue depth hdepth).2, herror⟩

end Graph

end Jayess.Resolver
