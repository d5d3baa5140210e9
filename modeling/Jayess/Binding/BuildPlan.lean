import Jayess.Binding.Manifest

/-! # Build plans -/

namespace Jayess.Binding

structure CompileUnit where
  modulePath : List UInt8
  source : List UInt8
  includeDirs : List (List UInt8)
  cflags : List (List UInt8)

structure ExpectedSymbol where
  modulePath : List UInt8
  exportName : List UInt8
  symbol : List UInt8

structure BuildPlan where
  compileUnits : List CompileUnit := []
  libraryDirs : List (List UInt8) := []
  sharedLibraries : List (List UInt8) := []
  sharedLibraryFiles : List (List UInt8) := []
  licenseFiles : List (List UInt8) := []
  runtimeAssets : List (List UInt8) := []
  helperAssets : List (List UInt8) := []
  expectedSymbols : List ExpectedSymbol := []
  ldflags : List (List UInt8) := []
  runtimeHeaderDir : List UInt8
  diagnostics : List Diagnostic := []

/-- What was planned: the sources with the modules that own them, and the keys of everything else. -/
structure Seen where
  sources : List (List UInt8 × List UInt8) := []
  libraryDirs : List (List UInt8) := []
  sharedLibraries : List (List UInt8) := []
  licenseFiles : List (List UInt8) := []
  runtimeAssets : List (List UInt8) := []
  helperAssets : List (List UInt8) := []
  ldflags : List (List UInt8) := []

structure Planning where
  plan : BuildPlan
  seen : Seen := {}

def normalizeSourceKey (modulePath source : List UInt8) : List UInt8 :=
  if SlashPath.isAbs source then SlashPath.clean source else SlashPath.clean (SlashPath.join [SlashPath.dir modulePath, source])

def resolveBindingPaths (modulePath : List UInt8) (paths : List (List UInt8)) : List (List UInt8) :=
  paths.map (normalizeSourceKey modulePath)

def includeRuntimeHeader (includeDirs : List (List UInt8)) (runtimeHeaderDir : List UInt8) : List (List UInt8) :=
  if runtimeHeaderDir = [] ∨ runtimeHeaderDir ∈ includeDirs then includeDirs
  else includeDirs ++ [runtimeHeaderDir]

def looksLikeLibraryPath (library : List UInt8) : Bool := SlashPath.slash ∈ library || SlashPath.ext library ≠ []

def sharedLibraryLinkArg (modulePath library : List UInt8) : List UInt8 :=
  if [0x2D, 0x6C].isPrefixOf library then library
  else if looksLikeLibraryPath library then normalizeSourceKey modulePath library
  else [0x2D, 0x6C] ++ library

def libraryDirFlag (dir : List UInt8) : List UInt8 := [0x2D, 0x4C] ++ dir

def appendUniqueLDFlag (state : Planning) (flag : List UInt8) : Planning :=
  if flag ∈ state.seen.ldflags then state
  else
    { plan := { state.plan with ldflags := state.plan.ldflags ++ [flag] }
      seen := { state.seen with ldflags := flag :: state.seen.ldflags } }

def duplicateSource (source owner : List UInt8) : Diagnostic :=
  ⟨text "sources", text "duplicate native source " ++ source ++ text " already compiled for " ++ owner⟩

def addSource (modulePath : List UInt8) (includeDirs cflags : List (List UInt8)) (state : Planning)
    (source : List UInt8) : Planning :=
  let key := normalizeSourceKey modulePath source
  match state.seen.sources.lookup key with
  | some owner =>
      { state with
        plan := { state.plan with diagnostics := state.plan.diagnostics ++ [duplicateSource source owner] } }
  | none =>
      { plan :=
          { state.plan with
            compileUnits := state.plan.compileUnits ++ [⟨modulePath, source, includeDirs, cflags⟩] }
        seen := { state.seen with sources := (key, modulePath) :: state.seen.sources } }

def addLibraryDir (modulePath : List UInt8) (state : Planning) (rawDir : List UInt8) : Planning :=
  let dir := normalizeSourceKey modulePath rawDir
  if dir ∈ state.seen.libraryDirs then state
  else
    appendUniqueLDFlag
      { plan := { state.plan with libraryDirs := state.plan.libraryDirs ++ [dir] }
        seen := { state.seen with libraryDirs := dir :: state.seen.libraryDirs } }
      (libraryDirFlag dir)

def addSharedLibrary (modulePath : List UInt8) (state : Planning) (library : List UInt8) : Planning :=
  let linkArg := sharedLibraryLinkArg modulePath library
  if linkArg ∈ state.seen.sharedLibraries then state
  else
    appendUniqueLDFlag
      { plan :=
          { state.plan with
            sharedLibraries := state.plan.sharedLibraries ++ [library]
            sharedLibraryFiles :=
              state.plan.sharedLibraryFiles ++ if looksLikeLibraryPath library then [linkArg] else [] }
        seen := { state.seen with sharedLibraries := linkArg :: state.seen.sharedLibraries } }
      linkArg

def addLicenseFile (modulePath : List UInt8) (state : Planning) (rawLicense : List UInt8) : Planning :=
  let license := normalizeSourceKey modulePath rawLicense
  if license ∈ state.seen.licenseFiles then state
  else
    { plan := { state.plan with licenseFiles := state.plan.licenseFiles ++ [license] }
      seen := { state.seen with licenseFiles := license :: state.seen.licenseFiles } }

def addRuntimeAsset (modulePath : List UInt8) (state : Planning) (rawAsset : List UInt8) : Planning :=
  let asset := normalizeSourceKey modulePath rawAsset
  if asset ∈ state.seen.runtimeAssets then state
  else
    { plan := { state.plan with runtimeAssets := state.plan.runtimeAssets ++ [asset] }
      seen := { state.seen with runtimeAssets := asset :: state.seen.runtimeAssets } }

def addHelperAsset (modulePath : List UInt8) (state : Planning) (rawAsset : List UInt8) : Planning :=
  let asset := normalizeSourceKey modulePath rawAsset
  if asset ∈ state.seen.helperAssets then state
  else
    { plan := { state.plan with helperAssets := state.plan.helperAssets ++ [asset] }
      seen := { state.seen with helperAssets := asset :: state.seen.helperAssets } }

/-- The diagnostics and the expected symbols of a module. -/
def addManifest (modulePath : List UInt8) (manifest : Manifest) (state : Planning) : Planning :=
  let symbols := (wrapperExpectations manifest).map fun expectation =>
    ⟨modulePath, expectation.exportName, expectation.nativeSymbol⟩
  { state with
    plan :=
      { state.plan with
        diagnostics := state.plan.diagnostics ++ validateManifest manifest
        expectedSymbols := state.plan.expectedSymbols ++ symbols } }

section Plan

variable (quote : List UInt8 → List UInt8) (platform runtimeHeaderDir : List UInt8)

/-- The inputs of a module, one kind after the other. -/
def addInputs (modulePath : List UInt8) (inputs : BuildInputs) (state : Planning) : Planning :=
  let includeDirs := includeRuntimeHeader (resolveBindingPaths modulePath inputs.includeDirs) runtimeHeaderDir
  let state := inputs.sources.foldl (addSource modulePath includeDirs inputs.cflags) state
  let state := inputs.libraryDirs.foldl (addLibraryDir modulePath) state
  let state := inputs.sharedLibraries.foldl (addSharedLibrary modulePath) state
  let state := inputs.licenseFiles.foldl (addLicenseFile modulePath) state
  let state := inputs.runtimeAssets.foldl (addRuntimeAsset modulePath) state
  let state := inputs.helperAssets.foldl (addHelperAsset modulePath) state
  inputs.ldflags.foldl appendUniqueLDFlag state

def planModule (state : Planning) (module : Module) : Planning :=
  match validateBindingTarget module.path with
  | .error error =>
      { state with
        plan :=
          { state.plan with
            diagnostics := state.plan.diagnostics ++ [⟨text "module", error.text quote⟩] } }
  | .ok () =>
      addInputs runtimeHeaderDir module.path (module.manifest.buildInputsFor platform)
        (addManifest module.path module.manifest state)

def planBuild (modules : List Module) : BuildPlan :=
  (modules.foldl (planModule quote platform runtimeHeaderDir) { plan := { runtimeHeaderDir } }).plan

end Plan

end Jayess.Binding
