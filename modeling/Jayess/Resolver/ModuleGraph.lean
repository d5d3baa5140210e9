import Mathlib.Logic.Function.Basic

/-!
# The module graph and its initialization order

`InitializationOrderFor` is a depth-first search that shares its visited and active modules, its
stack and the order between all entries.
-/

namespace Jayess.Resolver

/-- The imports of each module; `none` is the nil map of a graph that was not made by
`NewModuleGraph`. -/
structure ModuleGraph where
  imports : Option (List (String × List String))

def newModuleGraph : ModuleGraph := ⟨some []⟩

def setImports (module : String) (imported : List String) (imports : List (String × List String)) :
    List (String × List String) :=
  (module, imported) :: imports.filter fun entry => entry.1 ≠ module

/-- `AddModule`: every import becomes a module too. -/
def ModuleGraph.addModule (graph : ModuleGraph) (module : String) (imported : List String) :
    ModuleGraph :=
  ⟨some (imported.foldl
    (fun imports name => if (imports.lookup name).isSome then imports else setImports name [] imports)
    (setImports module imported (graph.imports.getD [])))⟩

def ModuleGraph.importsOf (graph : ModuleGraph) (module : String) : List String :=
  ((graph.imports.getD []).lookup module).getD []

structure ImportCycleError where
  cycle : List String
deriving DecidableEq, Repr

structure Search where
  visited : String → Bool
  active : String → Option Nat
  stack : List String
  order : List String

namespace Search

def new : Search := ⟨fun _ => false, fun _ => none, [], []⟩

def enter (search : Search) (module : String) : Search :=
  { search with
    active := Function.update search.active module (some search.stack.length)
    stack := search.stack ++ [module] }

def leave (search : Search) (module : String) : Search where
  visited := Function.update search.visited module true
  active := Function.update search.active module none
  stack := search.stack.dropLast
  order := search.order ++ [module]

end Search

/-- Visits modules one after the other until one fails. -/
def visitAll (visit : String → Search → Option (Except ImportCycleError Search)) :
    List String → Search → Option (Except ImportCycleError Search)
  | [], search => some (.ok search)
  | module :: rest, search =>
      match visit module search with
      | none => none
      | some (.error error) => some (.error error)
      | some (.ok search) => visitAll visit rest search

/-- `visit`; `none` stands for a search that has run out of fuel. -/
def ModuleGraph.visit (graph : ModuleGraph) :
    Nat → String → Search → Option (Except ImportCycleError Search)
  | 0, _, _ => none
  | fuel + 1, module, search =>
      if search.visited module then some (.ok search)
      else match search.active module with
        | some index => some (.error ⟨search.stack.drop index ++ [module]⟩)
        | none =>
            match visitAll (graph.visit fuel) (graph.importsOf module) (search.enter module) with
            | none => none
            | some (.error error) => some (.error error)
            | some (.ok search) => some (.ok (search.leave module))

def ModuleGraph.initializationOrderFor (graph : ModuleGraph) (fuel : Nat) (entries : List String) :
    Option (Except ImportCycleError (List String)) :=
  match graph.imports with
  | none => some (.ok [])
  | some _ =>
      match visitAll (graph.visit fuel) entries .new with
      | none => none
      | some (.error error) => some (.error error)
      | some (.ok search) => some (.ok search.order)

end Jayess.Resolver
