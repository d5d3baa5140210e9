import Jayess.Text.Path
import Jayess.Text.Utf8
import Jayess.Text.White

/-!
# Binding manifests
-/

namespace Jayess.Binding

scoped instance decidableListed (entry : List UInt8) (entries : List (List UInt8)) :
    Decidable (entry ∈ entries) :=
  List.instDecidableMemOfLawfulBEq entry entries

inductive ExportKind where
  | function
  | value
  | other (kind : List UInt8)

structure Export where
  name : List UInt8
  symbol : List UInt8
  kind : ExportKind

structure PlatformOptions where
  sources : List (List UInt8) := []
  includeDirs : List (List UInt8) := []
  libraryDirs : List (List UInt8) := []
  sharedLibraries : List (List UInt8) := []
  licenseFiles : List (List UInt8) := []
  runtimeAssets : List (List UInt8) := []
  helperAssets : List (List UInt8) := []
  cflags : List (List UInt8) := []
  ldflags : List (List UInt8) := []

structure Platforms where
  entries : List (List UInt8 × PlatformOptions)
  nodup : (entries.map Prod.fst).Nodup

structure Manifest where
  sources : List (List UInt8) := []
  includeDirs : List (List UInt8) := []
  libraryDirs : List (List UInt8) := []
  sharedLibraries : List (List UInt8) := []
  licenseFiles : List (List UInt8) := []
  runtimeAssets : List (List UInt8) := []
  helperAssets : List (List UInt8) := []
  cflags : List (List UInt8) := []
  ldflags : List (List UInt8) := []
  platforms : Platforms := ⟨[], List.nodup_nil⟩
  exports : List Export := []

structure BuildInputs where
  sources : List (List UInt8)
  includeDirs : List (List UInt8)
  libraryDirs : List (List UInt8)
  sharedLibraries : List (List UInt8)
  licenseFiles : List (List UInt8)
  runtimeAssets : List (List UInt8)
  helperAssets : List (List UInt8)
  cflags : List (List UInt8)
  ldflags : List (List UInt8)

structure Diagnostic where
  field : List UInt8
  message : List UInt8

/-- The bytes of a text. -/
def text (literal : String) : List UInt8 := Utf8.encode literal.toList

def Platforms.get? (platforms : Platforms) (platform : List UInt8) : Option PlatformOptions :=
  platforms.entries.lookup platform

/-- The inputs of every platform, and after them those of one. -/
def Manifest.buildInputsFor (manifest : Manifest) (platform : List UInt8) : BuildInputs :=
  let override := (manifest.platforms.get? platform).getD {}
  { sources := manifest.sources ++ override.sources
    includeDirs := manifest.includeDirs ++ override.includeDirs
    libraryDirs := manifest.libraryDirs ++ override.libraryDirs
    sharedLibraries := manifest.sharedLibraries ++ override.sharedLibraries
    licenseFiles := manifest.licenseFiles ++ override.licenseFiles
    runtimeAssets := manifest.runtimeAssets ++ override.runtimeAssets
    helperAssets := manifest.helperAssets ++ override.helperAssets
    cflags := manifest.cflags ++ override.cflags
    ldflags := manifest.ldflags ++ override.ldflags }

structure Module where
  path : List UInt8
  manifest : Manifest

inductive TargetError where
  | malformed (path : List UInt8)
  | query (path : List UInt8)
  | backslash (path : List UInt8)
  | source (path : List UInt8)

/-- The text of an error, for the text that `%q` makes of a string. -/
def TargetError.text (quote : List UInt8 → List UInt8) : TargetError → List UInt8
  | malformed path => Binding.text "binding target " ++ quote path ++ Binding.text " is malformed"
  | query path =>
      Binding.text "binding target " ++ quote path ++ Binding.text " must not include query strings or fragments"
  | backslash path =>
      Binding.text "binding target " ++ quote path ++ Binding.text " must use / as the path separator"
  | source path => Binding.text "binding target " ++ quote path ++ Binding.text " must use a .js source file"

def isBindingSourcePath (path : List UInt8) : Bool := [0x2E, 0x6A, 0x73].isSuffixOf (SlashPath.toLower path)

def validateBindingTarget (path : List UInt8) : Except TargetError Unit :=
  if White.trimSpace path ≠ path ∨ path = [] then .error (.malformed path)
  else if 0x3F ∈ path ∨ 0x23 ∈ path then .error (.query path)
  else if 0x5C ∈ path then .error (.backslash path)
  else if !isBindingSourcePath path then .error (.source path)
  else .ok ()

def padded (value : List UInt8) : Bool := White.trimSpace value ≠ value || value = []

/-- A list of entries without padding, queries and backslashes. -/
def validateEntries (noun : String) (field : List UInt8) (values : List (List UInt8)) : List Diagnostic :=
  values.flatMap fun value =>
    (if padded value then [⟨field, text (noun ++ " entries must not be empty or padded")⟩] else []) ++
    (if 0x3F ∈ value ∨ 0x23 ∈ value then
      [⟨field, text (noun ++ " entries must not include query strings or fragments")⟩]
    else []) ++
    (if 0x5C ∈ value then [⟨field, text (noun ++ " entries must use / as the separator")⟩] else [])

def validatePathList : List UInt8 → List (List UInt8) → List Diagnostic := validateEntries "path"

def validateSharedLibraries : List UInt8 → List (List UInt8) → List Diagnostic :=
  validateEntries "shared library"

def validateFlagList (field : List UInt8) (values : List (List UInt8)) : List Diagnostic :=
  values.flatMap fun value =>
    if padded value then [⟨field, text "flag entries must not be empty or padded"⟩] else []

def validatePlatforms (platforms : Platforms) : List Diagnostic :=
  platforms.entries.flatMap fun (platform, options) =>
    let field := fun name => text "platforms." ++ platform ++ text ("." ++ name)
    (if padded platform then [⟨text "platforms", text "platform name must not be empty or padded"⟩] else []) ++
    validatePathList (field "sources") options.sources ++
    validatePathList (field "includeDirs") options.includeDirs ++
    validatePathList (field "libraryDirs") options.libraryDirs ++
    validatePathList (field "licenseFiles") options.licenseFiles ++
    validatePathList (field "runtimeAssets") options.runtimeAssets ++
    validatePathList (field "helperAssets") options.helperAssets ++
    validateSharedLibraries (field "sharedLibraries") options.sharedLibraries ++
    validateFlagList (field "cflags") options.cflags ++
    validateFlagList (field "ldflags") options.ldflags

def ExportKind.valid : ExportKind → Bool
  | function => true
  | value => true
  | other _ => false

/-- The checks of the exports after some names. -/
def validateExportsFrom (names : List (List UInt8)) : List Export → List Diagnostic
  | [] => []
  | item :: exports =>
      let field := text "exports." ++ item.name
      (if padded item.name then [⟨text "exports", text "export name must not be empty or padded"⟩] else []) ++
      (if padded item.symbol then [⟨field, text "export symbol must not be empty or padded"⟩] else []) ++
      (if !item.kind.valid then [⟨field, text "export type must be function or value"⟩] else []) ++
      (if item.name ∈ names then [⟨field, text "duplicate export name"⟩] else []) ++
      validateExportsFrom (item.name :: names) exports

def validateExports (exports : List Export) : List Diagnostic :=
  if exports = [] then [⟨text "exports", text "binding manifest must export at least one symbol"⟩]
  else validateExportsFrom [] exports

structure WrapperExpectation where
  exportName : List UInt8
  nativeSymbol : List UInt8
  wrapperSymbol : List UInt8
  kind : ExportKind

def isCSymbolStart (character : UInt8) : Bool :=
  character = 0x5F || (0x61 ≤ character && character ≤ 0x7A) || (0x41 ≤ character && character ≤ 0x5A)

def isCSymbolPart (character : UInt8) : Bool :=
  isCSymbolStart character || (0x30 ≤ character && character ≤ 0x39)

def isCSymbol : List UInt8 → Bool
  | [] => false
  | character :: rest => isCSymbolStart character && rest.all isCSymbolPart

def cSymbolSuffix (value : List UInt8) : List UInt8 :=
  value.map fun character => if isCSymbolPart character then character else 0x5F

def wrapperSymbolForExport (name : List UInt8) : List UInt8 :=
  text "jayess_binding_export_" ++ if cSymbolSuffix name = [] then text "anonymous" else cSymbolSuffix name

def wrapperExpectations (manifest : Manifest) : List WrapperExpectation :=
  manifest.exports.map fun item => ⟨item.name, item.symbol, wrapperSymbolForExport item.name, item.kind⟩

def runtimeHeaderFunctions : List String :=
  ["jayess_value_from_number", "jayess_value_to_number", "jayess_value_from_string_copy",
    "jayess_value_to_string_copy", "jayess_string_free", "jayess_value_from_bytes_copy",
    "jayess_value_to_bytes_copy", "jayess_bytes_free", "jayess_expect_object", "jayess_expect_array",
    "jayess_value_from_managed_native_handle", "jayess_value_close_native_handle", "jayess_throw_error",
    "jayess_throw_type_error"]

def runtimeHeaderHasFunction (name : List UInt8) : Bool :=
  runtimeHeaderFunctions.any fun function => text function = name

/-- The checks of the symbols after those of some exports, the last export of a symbol first. -/
def validateSymbolsFrom (owners : List (List UInt8 × List UInt8)) : List WrapperExpectation → List Diagnostic
  | [] => []
  | expectation :: expectations =>
      let field := text "exports." ++ expectation.exportName
      let symbol := expectation.nativeSymbol
      (if !isCSymbol symbol then
        [⟨field, text "export symbol must be a valid C symbol for generated wrappers"⟩]
      else []) ++
      (((owners.lookup symbol).filter fun _ => symbol ≠ []).map fun owner =>
        ⟨field, text "export symbol duplicates native symbol used by " ++ owner⟩).toList ++
      (if symbol = expectation.wrapperSymbol then
        [⟨field, text "export symbol must not collide with generated wrapper symbol"⟩]
      else []) ++
      (if runtimeHeaderHasFunction symbol then
        [⟨field, text "export symbol must not collide with Jayess runtime header functions"⟩]
      else []) ++
      validateSymbolsFrom ((symbol, expectation.exportName) :: owners) expectations

def validateExportedSymbols (manifest : Manifest) : List Diagnostic :=
  validateSymbolsFrom [] (wrapperExpectations manifest)

def validateManifest (manifest : Manifest) : List Diagnostic :=
  validatePathList (text "sources") manifest.sources ++
  validatePathList (text "includeDirs") manifest.includeDirs ++
  validatePathList (text "libraryDirs") manifest.libraryDirs ++
  validatePathList (text "licenseFiles") manifest.licenseFiles ++
  validatePathList (text "runtimeAssets") manifest.runtimeAssets ++
  validatePathList (text "helperAssets") manifest.helperAssets ++
  validateSharedLibraries (text "sharedLibraries") manifest.sharedLibraries ++
  validateFlagList (text "cflags") manifest.cflags ++
  validateFlagList (text "ldflags") manifest.ldflags ++
  validatePlatforms manifest.platforms ++
  validateExports manifest.exports ++
  validateExportedSymbols manifest

end Jayess.Binding
