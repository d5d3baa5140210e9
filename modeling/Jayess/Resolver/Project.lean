import Mathlib.Data.List.AList
import Jayess.Ast
import Jayess.Resolver.Mutations

/-!
# Loading a project
-/

namespace Jayess.Resolver

structure ModuleDependency where
  source : String
  reExport : Bool
  sideEffect : Bool
deriving DecidableEq

structure ResolvedModuleDependency where
  source : String
  path : String
  reExport : Bool
  sideEffect : Bool
deriving DecidableEq

def moduleDependencies (program : List Statement) : List ModuleDependency :=
  program.filterMap fun statement =>
    match statement with
    | .importDecl _ source _ sideEffect => some ⟨source, false, sideEffect⟩
    | .exportDecl _ _ _ _ source _ _ _ => if source = "" then none else some ⟨source, true, false⟩
    | _ => none

def compactEntry {Entry : Type} (key : Entry → String) (merge : Entry → Entry → Entry)
    (compacted : List Entry) (entry : Entry) : List Entry :=
  if key entry ∈ compacted.map key then
    compacted.map fun earlier => if key earlier = key entry then merge earlier entry else earlier
  else compacted ++ [entry]

def compactModuleDependencies (dependencies : List ModuleDependency) : List ModuleDependency :=
  dependencies.foldl (compactEntry (·.source) fun earlier dependency =>
    { earlier with
      reExport := earlier.reExport || dependency.reExport
      sideEffect := earlier.sideEffect || dependency.sideEffect }) []

def compactResolvedModuleDependencies (dependencies : List ResolvedModuleDependency) :
    List ResolvedModuleDependency :=
  dependencies.foldl (compactEntry (·.path) fun earlier dependency =>
    { earlier with
      reExport := earlier.reExport || dependency.reExport
      sideEffect := earlier.sideEffect || dependency.sideEffect }) []

def ModuleGraph.addResolvedModule (graph : ModuleGraph) (module : String)
    (dependencies : List ResolvedModuleDependency) : ModuleGraph :=
  graph.addModule module (dependencies.map (·.path))

def dependencyPosition (program : List Statement) (dependency : ModuleDependency) : SourcePos :=
  ((program.find? fun statement =>
    match statement with
    | .importDecl _ source _ sideEffect => source = dependency.source ∧ sideEffect = dependency.sideEffect
    | .exportDecl _ _ _ _ source _ _ _ => source = dependency.source ∧ dependency.reExport
    | _ => false).map Statement.pos).getD ⟨0, 0⟩

structure ProjectDiagnostic where
  path : String
  line : Nat
  column : Nat
  message : String
deriving DecidableEq

/-- An error of the parser: a `DiagnosticError`, or any other one. -/
inductive ParseError where
  | diagnostic (line column : Nat) (message : String)
  | other (text : String)

def projectDiagnostic (path : String) (pos : SourcePos) (message : String) : ProjectDiagnostic :=
  ⟨path, pos.line, pos.column, message⟩

def parseProjectDiagnostic (path : String) : ParseError → ProjectDiagnostic
  | .diagnostic line column message => ⟨path, line, column, message⟩
  | .other text => ⟨path, 0, 0, text⟩

/-- What the loader runs on: the files, and the functions of Go and of the other packages that it calls. -/
structure Host where
  files : List (String × String)
  /-- the text of the error of `os.ReadFile` -/
  readError : String → String
  stat : String → Except String Unit
  absolute : String → Except String String
  clean : String → String
  repoRootJoinedPath : String → Except String String
  quote : String → String
  parse : String → Except ParseError (List Statement)
  resolveImport : String → String → Except String String

def stdlibImportPrefix : String := "jayess:stdlib/"

def isResolvedStdlibImport (path : String) : Bool := stdlibImportPrefix.toList.isPrefixOf path.toList

def resolvedStdlibImportPath (path : String) : Option String :=
  if isResolvedStdlibImport path then
    some (String.ofList (path.toList.drop stdlibImportPrefix.toList.length))
  else none

def stdlibSourceEntryPaths (importPath : String) : Option String :=
  if importPath = "@jayess/webview" then some "stdlib/@jayess/webview/index.js" else none

namespace Host

variable (host : Host)

def resolvedStdlibSourcePath (path : String) : Except String (Option String) :=
  match resolvedStdlibImportPath path with
  | none => .ok none
  | some importPath =>
      match stdlibSourceEntryPaths importPath with
      | none => .ok none
      | some entry =>
          match host.repoRootJoinedPath entry with
          | .error text => .error ("resolve stdlib source " ++ host.quote importPath ++ ": " ++ text)
          | .ok resolved => .ok (some resolved)

def resolvedModuleSourcePath (path : String) : Except String String :=
  match host.resolvedStdlibSourcePath path with
  | .error text => .error text
  | .ok (some sourcePath) => .ok sourcePath
  | .ok none =>
      if isResolvedStdlibImport path then
        .error ("stdlib module " ++ host.quote path ++ " has no source entry")
      else .ok path

def readFile (path : String) : Except String String :=
  match host.files.lookup path with
  | some source => .ok source
  | none => .error (host.readError path)

def loadResolvedModuleSource (path : String) : Except String String :=
  match host.resolvedModuleSourcePath path with
  | .error text => .error text
  | .ok sourcePath => host.readFile sourcePath

def normalizeProjectPath (path : String) : Except String String :=
  if path = "" then .error "project path must not be empty"
  else
    match host.absolute path with
    | .error text => .error text
    | .ok absolute => .ok (host.clean absolute)

def normalizeResolvedImport (path : String) : String :=
  if isResolvedStdlibImport path then path
  else
    match host.normalizeProjectPath path with
    | .error _ => host.clean path
    | .ok normalized => normalized

/-- `parseModule`; where it fails, the diagnostic that it adds. -/
def parseModule (path : String) : Except ProjectDiagnostic (List Statement) :=
  match host.loadResolvedModuleSource path with
  | .error text => .error ⟨path, 0, 0, "read module: " ++ text⟩
  | .ok source =>
      match host.parse source with
      | .error error => .error (parseProjectDiagnostic path error)
      | .ok program => .ok program

/-- The step of the loop of `resolveDependencies`. -/
def resolveDependency (path importerPath : String) (program : List Statement)
    (dependency : ModuleDependency) : Except ProjectDiagnostic ResolvedModuleDependency :=
  match host.resolveImport importerPath dependency.source with
  | .error text =>
      .error (projectDiagnostic path (dependencyPosition program dependency)
        ("resolve module dependency " ++ host.quote dependency.source ++ ": " ++ text))
  | .ok resolvedPath =>
      .ok ⟨dependency.source, host.normalizeResolvedImport resolvedPath, dependency.reExport,
        dependency.sideEffect⟩

/-- `resolveDependencies`, with the diagnostics that it adds. -/
def resolveDependencies (path : String) (program : List Statement) :
    List ResolvedModuleDependency × List ProjectDiagnostic :=
  match host.resolvedModuleSourcePath path with
  | .error text => ([], [⟨path, 0, 0, "resolve importer path: " ++ text⟩])
  | .ok importerPath =>
      let results := (compactModuleDependencies (moduleDependencies program)).map
        (host.resolveDependency path importerPath program)
      (compactResolvedModuleDependencies (results.filterMap Except.toOption),
        results.filterMap fun result =>
          match result with
          | .error diagnostic => some diagnostic
          | .ok _ => none)

end Host

structure ProjectModule where
  path : String
  program : Option (List Statement)
  dependencies : List ResolvedModuleDependency

structure Project where
  entry : String
  modules : List ProjectModule
  graph : ModuleGraph
  diagnostics : List ProjectDiagnostic

/-- `projectLoader`, and which modules were parsed, the latest first. -/
structure ProjectLoader where
  queue : List String
  queued : List String
  modules : AList fun _ : String => ProjectModule
  graph : ModuleGraph
  diagnostics : List ProjectDiagnostic
  parsed : List String

namespace ProjectLoader

def new : ProjectLoader := ⟨[], [], ∅, newModuleGraph, [], []⟩

def enqueue (loader : ProjectLoader) (path : String) : ProjectLoader :=
  if path ∈ loader.queued then loader
  else { loader with queue := loader.queue ++ [path], queued := loader.queued ++ [path] }

def loadModule (host : Host) (loader : ProjectLoader) (path : String) : ProjectModule × ProjectLoader :=
  match host.parseModule path with
  | .error diagnostic =>
      (⟨path, none, []⟩,
        { loader with
          graph := loader.graph.addModule path []
          diagnostics := loader.diagnostics ++ [diagnostic]
          parsed := path :: loader.parsed })
  | .ok program =>
      let (dependencies, diagnostics) := host.resolveDependencies path program
      (⟨path, some program, dependencies⟩,
        (dependencies.map (·.path)).foldl enqueue
          { loader with
            graph := loader.graph.addResolvedModule path dependencies
            diagnostics := loader.diagnostics ++ diagnostics
            parsed := path :: loader.parsed })

/-- The body of the loop of `load`. -/
def loadNext (host : Host) (loader : ProjectLoader) (path : String) (rest : List String) : ProjectLoader :=
  let loader := { loader with queue := rest }
  if path ∈ loader.modules then loader
  else
    let (module, loader) := loadModule host loader path
    { loader with modules := loader.modules.insert path module }

/-- `load`, for as many rounds as the fuel allows. -/
def load (host : Host) : Nat → ProjectLoader → Option ProjectLoader
  | 0, loader => if loader.queue = [] then some loader else none
  | fuel + 1, loader =>
      match loader.queue with
      | [] => some loader
      | path :: rest => load host fuel (loadNext host loader path rest)

def sortedModules (loader : ProjectLoader) : List ProjectModule :=
  (sortStrings loader.modules.keys).filterMap loader.modules.lookup

end ProjectLoader

/-- `LoadProject`, and which modules it parsed; nothing when the fuel is used up. -/
def Host.loadProject (host : Host) (fuel : Nat) (entryPath : String) :
    Option (Except String (Project × List String)) :=
  match host.normalizeProjectPath entryPath with
  | .error text => some (.error text)
  | .ok entry =>
      match host.stat entry with
      | .error text => some (.error ("load project entry: " ++ text))
      | .ok () =>
          (ProjectLoader.load host fuel (ProjectLoader.new.enqueue entry)).map fun loader =>
            .ok (⟨entry, loader.sortedModules, loader.graph, loader.diagnostics⟩, loader.parsed)

end Jayess.Resolver
