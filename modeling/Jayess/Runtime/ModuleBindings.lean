import Mathlib.Data.List.Nodup
import Mathlib.Logic.Function.Basic

/-!
# Module bindings at run time
-/

namespace Jayess.Runtime

/-- `runtime.Value`, as far as a namespace is concerned: the object of a namespace is never written
after it was built, so it is a value itself. -/
inductive Value (α : Type) where
  | undefined
  | plain (value : α)
  | object (properties : List (String × Value α))

/-- `runtime.Object`: the properties in the order of their keys. -/
abbrev Object (α : Type) := List (String × Value α)

namespace Object

variable {α : Type}

def setNamedProperty : Object α → String → Value α → Object α
  | [], key, value => [(key, value)]
  | (other, kept) :: rest, key, value =>
      if other = key then (key, value) :: rest
      else (other, kept) :: setNamedProperty rest key value

def getNamedProperty (object : Object α) (key : String) : Option (Value α) := object.lookup key

def keys (object : Object α) : List String := object.map Prod.fst

theorem setNamedProperty_of_notMem (object : Object α) (key : String) (value : Value α)
    (hnew : key ∉ object.keys) : object.setNamedProperty key value = object ++ [(key, value)] := by
  induction object with
  | nil => rfl
  | cons property rest ih =>
    obtain ⟨other, kept⟩ := property
    simp only [keys, List.map_cons, List.mem_cons, not_or] at hnew
    rw [setNamedProperty, if_neg (Ne.symm hnew.1), ih hnew.2, List.cons_append]

theorem foldl_setNamedProperty (value : String → Value α) (names : List String) (object : Object α)
    (hnodup : (object.keys ++ names).Nodup) :
    names.foldl (fun object name => object.setNamedProperty name (value name)) object =
      object ++ names.map fun name => (name, value name) := by
  induction names generalizing object with
  | nil => simp
  | cons name rest ih =>
    have hnew : name ∉ object.keys := by
      intro hmem
      exact (List.nodup_append.mp hnodup).2.2 name hmem name (List.mem_cons_self ..) rfl
    have hset := setNamedProperty_of_notMem object name (value name) hnew
    have hrest : ((object.setNamedProperty name (value name)).keys ++ rest).Nodup := by
      rw [hset]
      simpa [keys] using hnodup
    rw [List.foldl_cons, ih _ hrest, hset, List.append_assoc, List.map_cons, List.singleton_append]

theorem lookup_map (value : String → Value α) (names : List String) (key : String) :
    getNamedProperty (names.map fun name => (name, value name)) key =
      if key ∈ names then some (value key) else none := by
  induction names with
  | nil => rfl
  | cons name rest ih =>
    rw [getNamedProperty] at ih ⊢
    by_cases heq : key = name
    · subst heq
      simp
    · have hne : (key == name) = false := by simpa using heq
      rw [List.map_cons, List.lookup_cons, hne, ih]
      simp [heq]

end Object

structure ModuleBinding (α : Type) where
  name : String
  value : Value α
  initialized : Bool

namespace ModuleBinding

variable {α : Type}

/-- `NewModuleBinding`. -/
def new (name : String) : ModuleBinding α := ⟨name, .undefined, false⟩

def set (binding : ModuleBinding α) (value : Value α) : ModuleBinding α :=
  { binding with value, initialized := true }

/-- `Value`. -/
def read (binding : ModuleBinding α) : Option (Value α) :=
  if binding.initialized then some binding.value else none

@[simp]
theorem read_set (binding : ModuleBinding α) (value : Value α) :
    (binding.set value).read = some value := rfl

end ModuleBinding

/-- One of the maps of `ModuleBindings`, from names to pointers, with the order its keys came in. -/
structure NameTable where
  pointer : String → Option Nat
  order : List String
  nodup : order.Nodup
  mem_order : ∀ name, name ∈ order ↔ (pointer name).isSome

namespace NameTable

def empty : NameTable := ⟨fun _ => none, [], .nil, fun _ => by simp⟩

/-- An assignment to the map; a key that is new goes to the end of the order. -/
def bind (table : NameTable) (name : String) (pointer : Nat) : NameTable where
  pointer := Function.update table.pointer name (some pointer)
  order := if (table.pointer name).isSome then table.order else table.order ++ [name]
  nodup := by
    split
    · exact table.nodup
    · rename_i hnew
      rw [← table.mem_order] at hnew
      exact List.nodup_append.mpr ⟨table.nodup, List.nodup_singleton _, by
        rintro other hother _ hname rfl
        exact hnew (List.mem_singleton.mp hname ▸ hother)⟩
  mem_order other := by
    by_cases heq : other = name
    · subst heq
      split
      · rename_i hold
        simpa [table.mem_order] using hold
      · simp
    · have hother := table.mem_order other
      rw [Function.update_of_ne heq]
      split <;> simp [heq, hother]

/-- `orderedBindingNames`. -/
def names (table : NameTable) : List String :=
  table.order.filter fun name => (table.pointer name).isSome

@[simp]
theorem names_eq (table : NameTable) : table.names = table.order :=
  List.filter_eq_self.mpr fun name hmem => (table.mem_order name).mp hmem

end NameTable

structure ModuleBindings where
  locals : NameTable
  imports : NameTable
  exports : NameTable

/-- `NewModuleBindings`. -/
def ModuleBindings.new : ModuleBindings := ⟨.empty, .empty, .empty⟩

/-! ## Several modules -/

structure Collection (Module α : Type) where
  bindings : List (ModuleBinding α)
  modules : Module → ModuleBindings

/-- Where a caller has a pointer from: `Local`, `Import` or `Export` of a module. -/
inductive Reference (Module : Type) where
  | definition (module : Module) (name : String)
  | imported (module : Module) (name : String)
  | exported (module : Module) (name : String)
deriving DecidableEq

namespace Collection

variable {Module α : Type} [DecidableEq Module]

def new : Collection Module α := ⟨[], fun _ => .new⟩

def pointer (collection : Collection Module α) : Reference Module → Option Nat
  | .definition module name => (collection.modules module).locals.pointer name
  | .imported module name => (collection.modules module).imports.pointer name
  | .exported module name => (collection.modules module).exports.pointer name

def valueAt (collection : Collection Module α) (pointer : Nat) : Option (Value α) :=
  collection.bindings[pointer]?.bind ModuleBinding.read

def update (collection : Collection Module α) (module : Module)
    (change : ModuleBindings → ModuleBindings) : Collection Module α :=
  { collection with
    modules := Function.update collection.modules module (change (collection.modules module)) }

def allocate (collection : Collection Module α) (binding : ModuleBinding α) :
    Collection Module α × Nat :=
  ({ collection with bindings := collection.bindings ++ [binding] }, collection.bindings.length)

def defineLocal (collection : Collection Module α) (module : Module) (name : String)
    (value : Value α) : Collection Module α :=
  if name = "" then collection
  else
    match (collection.modules module).locals.pointer name with
    | some pointer =>
        { collection with bindings := collection.bindings.modify pointer fun binding => binding.set value }
    | none =>
        let (collection, pointer) := collection.allocate ((ModuleBinding.new name).set value)
        collection.update module fun bindings =>
          { bindings with locals := bindings.locals.bind name pointer }

def bindImport (collection : Collection Module α) (module : Module) (name : String)
    (imported : Option Nat) : Collection Module α :=
  match imported with
  | some pointer =>
      if name = "" then collection
      else collection.update module fun bindings =>
        { bindings with imports := bindings.imports.bind name pointer }
  | none => collection

def bindExport (collection : Collection Module α) (module : Module) (exported : String)
    (definition : Option Nat) : Collection Module α :=
  match definition with
  | some pointer =>
      if exported = "" then collection
      else collection.update module fun bindings =>
        { bindings with exports := bindings.exports.bind exported pointer }
  | none => collection

def bindImportFrom (collection : Collection Module α) (module : Module) (name : String)
    (source : Module) (imported : String) : Collection Module α :=
  collection.bindImport module name (collection.pointer (.exported source imported))

def bindReExportFrom (collection : Collection Module α) (module : Module) (exported : String)
    (source : Module) (imported : String) : Collection Module α :=
  collection.bindExport module exported (collection.pointer (.exported source imported))

/-- What `NamespaceObject` sets an exported name to. -/
def exportedValue (collection : Collection Module α) (module : Module) (name : String) : Value α :=
  ((collection.pointer (.exported module name)).bind collection.valueAt).getD .undefined

def namespaceObject (collection : Collection Module α) (module : Module) : Object α :=
  (collection.modules module).exports.names.foldl
    (fun object name => object.setNamedProperty name (collection.exportedValue module name)) []

def namespaceBinding (collection : Collection Module α) (name : String) (source : Module) :
    ModuleBinding α :=
  (ModuleBinding.new name).set (.object (collection.namespaceObject source))

def bindNamespaceImport (collection : Collection Module α) (module : Module) (name : String)
    (source : Module) : Collection Module α :=
  if name = "" then collection
  else
    let (collection, pointer) := collection.allocate (collection.namespaceBinding name source)
    collection.bindImport module name (some pointer)

def bindNamespaceExport (collection : Collection Module α) (module : Module) (exported : String)
    (source : Module) : Collection Module α :=
  if exported = "" then collection
  else
    let (collection, pointer) := collection.allocate (collection.namespaceBinding exported source)
    collection.bindExport module exported (some pointer)

end Collection

inductive Call (Module α : Type) where
  | defineLocal (module : Module) (name : String) (value : Value α)
  | bindExport (module : Module) (exported : String) (binding : Reference Module)
  | bindImportFrom (module : Module) (name : String) (source : Module) (imported : String)
  | bindReExportFrom (module : Module) (exported : String) (source : Module) (imported : String)
  | bindNamespaceImport (module : Module) (name : String) (source : Module)
  | bindNamespaceExport (module : Module) (exported : String) (source : Module)

namespace Collection

variable {Module α : Type} [DecidableEq Module]

def step (collection : Collection Module α) : Call Module α → Collection Module α
  | .defineLocal module name value => collection.defineLocal module name value
  | .bindExport module exported binding =>
      collection.bindExport module exported (collection.pointer binding)
  | .bindImportFrom module name source imported =>
      collection.bindImportFrom module name source imported
  | .bindReExportFrom module exported source imported =>
      collection.bindReExportFrom module exported source imported
  | .bindNamespaceImport module name source => collection.bindNamespaceImport module name source
  | .bindNamespaceExport module exported source =>
      collection.bindNamespaceExport module exported source

def run (calls : List (Call Module α)) : Collection Module α := calls.foldl step new

end Collection

end Jayess.Runtime
