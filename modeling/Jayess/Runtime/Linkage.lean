import Jayess.Runtime.ModuleBindings

/-!
# What the names of modules stand for

What the names of modules stand for, and what reading them gives, without pointers: an import or an
export stands for a variable of some module or for the namespace of one, and a read looks at the
variables and the exports as they are now.
-/

namespace Jayess.Runtime

/-! ## Reading -/

inductive Observation (α : Type) where
  | missing
  | undefined
  | plain (value : α)
  | object (keys : List String)

def Value.observe {α : Type} : Value α → List String → Observation α
  | .undefined, [] => .undefined
  | .plain value, [] => .plain value
  | .object properties, [] => .object (Object.keys properties)
  | .object properties, key :: path =>
      match Object.getNamedProperty properties key with
      | some value => value.observe path
      | none => .missing
  | _, _ :: _ => .missing

inductive Origin (Module : Type) where
  | variableOf (module : Module) (name : String)
  | namespaceOf (module : Module)
deriving DecidableEq

/-- The modules as a reader of the language knows them: the value last given to each local, and what
each import and export stands for. -/
structure Linkage (Module α : Type) where
  value : Module → String → Option (Value α)
  imports : Module → String → Option (Origin Module)
  exports : Module → String → Option (Origin Module)
  exportNames : Module → List String

namespace Linkage

variable {Module α : Type} [DecidableEq Module]

def new : Linkage Module α := ⟨fun _ _ => none, fun _ _ => none, fun _ _ => none, fun _ => []⟩

def origin (linkage : Linkage Module α) : Reference Module → Option (Origin Module)
  | .definition module name =>
      if (linkage.value module name).isSome then some (.variableOf module name) else none
  | .imported module name => linkage.imports module name
  | .exported module name => linkage.exports module name

def define (linkage : Linkage Module α) (module : Module) (name : String) (value : Value α) :
    Linkage Module α :=
  if name = "" then linkage
  else
    { linkage with
      value := Function.update linkage.value module
        (Function.update (linkage.value module) name (some value)) }

def importAs (linkage : Linkage Module α) (module : Module) (name : String)
    (origin : Option (Origin Module)) : Linkage Module α :=
  match origin with
  | some origin =>
      if name = "" then linkage
      else
        { linkage with
          imports := Function.update linkage.imports module
            (Function.update (linkage.imports module) name (some origin)) }
  | none => linkage

def exportAs (linkage : Linkage Module α) (module : Module) (name : String)
    (origin : Option (Origin Module)) : Linkage Module α :=
  match origin with
  | some origin =>
      if name = "" then linkage
      else
        { linkage with
          exports := Function.update linkage.exports module
            (Function.update (linkage.exports module) name (some origin))
          exportNames :=
            if (linkage.exports module name).isSome then linkage.exportNames
            else Function.update linkage.exportNames module (linkage.exportNames module ++ [name]) }
  | none => linkage

def step (linkage : Linkage Module α) : Call Module α → Linkage Module α
  | .defineLocal module name value => linkage.define module name value
  | .bindExport module exported binding => linkage.exportAs module exported (linkage.origin binding)
  | .bindImportFrom module name source imported =>
      linkage.importAs module name (linkage.exports source imported)
  | .bindReExportFrom module exported source imported =>
      linkage.exportAs module exported (linkage.exports source imported)
  | .bindNamespaceImport module name source =>
      linkage.importAs module name (some (.namespaceOf source))
  | .bindNamespaceExport module exported source =>
      linkage.exportAs module exported (some (.namespaceOf source))

def run (calls : List (Call Module α)) : Linkage Module α := calls.foldl step new

/-- A live read: a namespace has the names its module exports now, and each of them reads what the
export stands for. -/
def reads (linkage : Linkage Module α) : Origin Module → List String → Observation α
  | .variableOf module name, path => ((linkage.value module name).getD .undefined).observe path
  | .namespaceOf module, [] => .object (linkage.exportNames module)
  | .namespaceOf module, key :: path =>
      match linkage.exports module key with
      | some origin => linkage.reads origin path
      | none => .missing

def observe (linkage : Linkage Module α) (reference : Reference Module) (path : List String) :
    Observation α :=
  match linkage.origin reference with
  | some origin => linkage.reads origin path
  | none => .missing

end Linkage

def Collection.observe {Module α : Type} (collection : Collection Module α)
    (reference : Reference Module) (path : List String) : Observation α :=
  match collection.pointer reference with
  | some pointer => ((collection.valueAt pointer).getD .undefined).observe path
  | none => .missing

variable {Module α : Type} [DecidableEq Module]

def Live (collection : Collection Module α) (linkage : Linkage Module α) : Prop :=
  ∀ reference path, collection.observe reference path = linkage.observe reference path

namespace Linkage

variable (linkage : Linkage Module α)

variable {name : String}

theorem origin_importAs (hname : name ≠ "") (module : Module) (origin : Origin Module)
    (reference : Reference Module) :
    (linkage.importAs module name (some origin)).origin reference =
      if reference = .imported module name then some origin else linkage.origin reference := by
  simp only [importAs, if_neg hname]
  cases reference with
  | imported other used =>
    by_cases hmodule : other = module
    · subst hmodule
      by_cases hused : used = name
      · subst hused
        simp [Linkage.origin]
      · simp [Linkage.origin, hused]
    · simp [Linkage.origin, hmodule]
  | definition => simp [Linkage.origin]
  | exported => simp [Linkage.origin]

theorem origin_exportAs (hname : name ≠ "") (module : Module) (origin : Origin Module)
    (reference : Reference Module) :
    (linkage.exportAs module name (some origin)).origin reference =
      if reference = .exported module name then some origin else linkage.origin reference := by
  simp only [exportAs, if_neg hname]
  cases reference with
  | exported other used =>
    by_cases hmodule : other = module
    · subst hmodule
      by_cases hused : used = name
      · subst hused
        simp [Linkage.origin]
      · simp [Linkage.origin, hused]
    · simp [Linkage.origin, hmodule]
  | definition => simp [Linkage.origin]
  | imported => simp [Linkage.origin]

theorem value_define (hname : name ≠ "") (module : Module) (value : Value α) (other : Module)
    (used : String) :
    (linkage.define module name value).value other used =
      if other = module ∧ used = name then some value else linkage.value other used := by
  simp only [define, if_neg hname]
  by_cases hmodule : other = module
  · subst hmodule
    by_cases hused : used = name
    · subst hused
      simp
    · simp [hused]
  · simp [hmodule]

theorem origin_define (hname : name ≠ "") (module : Module) (value : Value α)
    (reference : Reference Module) :
    (linkage.define module name value).origin reference =
      if reference = .definition module name then some (.variableOf module name)
      else linkage.origin reference := by
  cases reference with
  | definition other used =>
    rw [Linkage.origin, value_define linkage hname]
    by_cases heq : other = module ∧ used = name
    · obtain ⟨rfl, rfl⟩ := heq
      simp
    · have hne : Reference.definition other used ≠ .definition module name := by
        simpa using heq
      rw [if_neg heq, if_neg hne, Linkage.origin]
  | imported => simp [Linkage.origin, define, hname]
  | exported => simp [Linkage.origin, define, hname]

end Linkage

namespace Collection

variable (collection : Collection Module α)

theorem pointer_bindImport {name : String} (hname : name ≠ "") (module : Module) (pointer : Nat)
    (reference : Reference Module) :
    (collection.bindImport module name (some pointer)).pointer reference =
      if reference = .imported module name then some pointer else collection.pointer reference := by
  simp only [bindImport, if_neg hname, update]
  cases reference with
  | imported other used =>
    by_cases hmodule : other = module
    · subst hmodule
      by_cases hused : used = name
      · subst hused
        simp [Collection.pointer, NameTable.bind]
      · simp [Collection.pointer, NameTable.bind, hused]
    · simp [Collection.pointer, hmodule]
  | definition other =>
    by_cases hmodule : other = module
    · subst hmodule
      simp [Collection.pointer]
    · simp [Collection.pointer, hmodule]
  | exported other =>
    by_cases hmodule : other = module
    · subst hmodule
      simp [Collection.pointer]
    · simp [Collection.pointer, hmodule]

theorem pointer_bindExport {name : String} (hname : name ≠ "") (module : Module) (pointer : Nat)
    (reference : Reference Module) :
    (collection.bindExport module name (some pointer)).pointer reference =
      if reference = .exported module name then some pointer else collection.pointer reference := by
  simp only [bindExport, if_neg hname, update]
  cases reference with
  | exported other used =>
    by_cases hmodule : other = module
    · subst hmodule
      by_cases hused : used = name
      · subst hused
        simp [Collection.pointer, NameTable.bind]
      · simp [Collection.pointer, NameTable.bind, hused]
    · simp [Collection.pointer, hmodule]
  | definition other =>
    by_cases hmodule : other = module
    · subst hmodule
      simp [Collection.pointer]
    · simp [Collection.pointer, hmodule]
  | imported other =>
    by_cases hmodule : other = module
    · subst hmodule
      simp [Collection.pointer]
    · simp [Collection.pointer, hmodule]

omit [DecidableEq Module] in
theorem valueAt_allocate (binding : ModuleBinding α) (pointer : Nat)
    (hpointer : pointer < collection.bindings.length) :
    (collection.allocate binding).1.valueAt pointer = collection.valueAt pointer := by
  simp [allocate, valueAt, List.getElem?_append_left hpointer]

omit [DecidableEq Module] in
theorem valueAt_allocate_self (binding : ModuleBinding α) :
    (collection.allocate binding).1.valueAt (collection.allocate binding).2 = binding.read := by
  simp [allocate, valueAt]

omit [DecidableEq Module] in
theorem keys_namespaceObject (module : Module) :
    Object.keys (collection.namespaceObject module) =
      (collection.modules module).exports.order := by
  have hnodup := (collection.modules module).exports.nodup
  rw [namespaceObject, NameTable.names_eq, Object.foldl_setNamedProperty _ _ _ (by simpa [Object.keys])]
  simp [Object.keys, Function.comp_def]

omit [DecidableEq Module] in
theorem getNamedProperty_namespaceObject (module : Module) (key : String) :
    Object.getNamedProperty (collection.namespaceObject module) key =
      (collection.pointer (.exported module key)).map fun pointer =>
        (collection.valueAt pointer).getD .undefined := by
  have hnodup := (collection.modules module).exports.nodup
  have hmem := (collection.modules module).exports.mem_order key
  rw [namespaceObject, NameTable.names_eq, Object.foldl_setNamedProperty _ _ _ (by simpa [Object.keys]),
    List.nil_append, Object.lookup_map]
  rw [Collection.pointer]
  cases hpointer : (collection.modules module).exports.pointer key with
  | none =>
    have hnew : key ∉ (collection.modules module).exports.order := by simp [hmem, hpointer]
    rw [if_neg hnew, Option.map_none]
  | some pointer =>
    have hold : key ∈ (collection.modules module).exports.order := by simp [hmem, hpointer]
    rw [if_pos hold, Option.map_some, exportedValue, Collection.pointer, hpointer, Option.bind_some]

end Collection

end Jayess.Runtime
