import Jayess.Text.Path
import Jayess.Text.White

/-!
# Package imports

A package is looked up in the `node_modules` directories from a directory upwards, and its file is
the one that the import or an entry of its `package.json` names, with or without an extension.
-/

namespace Jayess.Resolver

open SlashPath

structure PackageJSON where
  jayess : List UInt8
  module : List UInt8
  main : List UInt8

inductive ReadError where
  | notExist
  | other (text : String)

/-- The calls of the operating system: whether a path is a directory, where it is anything, what a file holds,
and the working directory. -/
structure FileSystem where
  stat : List UInt8 → Option Bool
  readFile : List UInt8 → Except ReadError (List UInt8)
  getwd : Option (List UInt8)

inductive ImportError where
  | noStartDirectory (importPath : List UInt8)
  | empty
  | malformed (importPath : List UInt8)
  | notBare (importPath : List UInt8)
  | schemeLike (importPath : List UInt8)
  | query (importPath : List UInt8)
  | backslash (importPath : List UInt8)
  | notFound (importPath : List UInt8)
  | noPackageDirectory (importPath : List UInt8)
  | noEntrypoint (importPath : List UInt8)
  | read (error : ReadError)
  | invalidJSON (importPath : List UInt8) (error : String)
  | unsafeEntry (importPath entry : List UInt8)
  | unsupportedEntry (importPath entry : List UInt8)
  | unresolvedEntry (importPath entry : List UInt8) (error : ImportError)
  | unsupportedFile (path : List UInt8)
  | fileNotFound (path : List UInt8)

/-- The text of an error, for the text that `%q` makes of a string. -/
def ImportError.text (quote : List UInt8 → String) : ImportError → String
  | noStartDirectory importPath => "package " ++ quote importPath ++ " has no import start directory"
  | empty => "package import must not be empty"
  | malformed importPath => "package import " ++ quote importPath ++ " is malformed"
  | notBare importPath => "package import " ++ quote importPath ++ " must be a bare package specifier"
  | schemeLike importPath => "package import " ++ quote importPath ++ " must not be scheme-like"
  | query importPath =>
      "package import " ++ quote importPath ++ " must not include query strings or fragments"
  | backslash importPath => "package import " ++ quote importPath ++ " must use / as the path separator"
  | notFound importPath => "package " ++ quote importPath ++
      " was not found in node_modules; run npm install or check package.json dependencies"
  | noPackageDirectory importPath => "package " ++ quote importPath ++ " has no package directory"
  | noEntrypoint importPath => "package " ++ quote importPath ++
      " does not expose a supported Jayess .js entrypoint via jayess/module/main or index.js"
  | read .notExist => "file does not exist"
  | read (.other text) => text
  | invalidJSON importPath error => "package " ++ quote importPath ++ " has an invalid package.json: " ++ error
  | unsafeEntry importPath entry =>
      "package " ++ quote importPath ++ " entry " ++ quote entry ++ " is not a safe package-relative path"
  | unsupportedEntry importPath entry =>
      "package " ++ quote importPath ++ " entry " ++ quote entry ++ " is not a supported Jayess .js module"
  | unresolvedEntry importPath entry error =>
      "package " ++ quote importPath ++ " entry " ++ quote entry ++ " could not be resolved: " ++ error.text quote
  | unsupportedFile path => "source file " ++ quote path ++ " is not a supported Jayess .js module"
  | fileNotFound path => "source file " ++ quote path ++ " was not found"

/-- `.js`. -/
def jsSuffix : List UInt8 := [0x2E, 0x6A, 0x73]
/-- `index.js`. -/
def indexFile : List UInt8 := [0x69, 0x6E, 0x64, 0x65, 0x78, 0x2E, 0x6A, 0x73]
/-- `node_modules`. -/
def nodeModules : List UInt8 := [0x6E, 0x6F, 0x64, 0x65, 0x5F, 0x6D, 0x6F, 0x64, 0x75, 0x6C, 0x65, 0x73]
/-- `package.json`. -/
def packageFile : List UInt8 := [0x70, 0x61, 0x63, 0x6B, 0x61, 0x67, 0x65, 0x2E, 0x6A, 0x73, 0x6F, 0x6E]

def isWindowsAbsolutePath : List UInt8 → Bool
  | drive :: colon :: separator :: _ =>
      colon = 0x3A && (0x41 ≤ drive && drive ≤ 0x5A || 0x61 ≤ drive && drive ≤ 0x7A) &&
        (separator = 0x2F || separator = 0x5C)
  | _ => false

section Resolve

variable (files : FileSystem) (unmarshal : List UInt8 → Except String PackageJSON)

def FileSystem.abs (path : List UInt8) : Option (List UInt8) :=
  if isAbs path then some (clean path) else files.getwd.map fun directory => join [directory, path]

def FileSystem.file? (candidate : List UInt8) : Option (List UInt8) :=
  (files.abs candidate).filter fun path => files.stat path = some false

def resolveSourceFile (path : List UInt8) : Except ImportError (List UInt8) :=
  if ext path ≠ [] ∧ toLower (ext path) ≠ jsSuffix then .error (.unsupportedFile path)
  else
    let candidates :=
      if ext path = [] then [path, path ++ jsSuffix, join [path, indexFile]] else [path]
    match candidates.findSome? files.file? with
    | some file => .ok file
    | none => .error (.fileNotFound path)

def normalizePackageEntryPath (entry : List UInt8) : Except String (List UInt8) :=
  if isAbs entry ∨ isWindowsAbsolutePath entry then .error "absolute package entry"
  else if 0x3A ∈ entry then .error "scheme-like package entry"
  else if 0x3F ∈ entry ∨ 0x23 ∈ entry then .error "package entry with query string or fragment"
  else if 0x5C ∈ entry then .error "backslash package entry"
  else
    let normalized := if [0x2E, 0x2F].isPrefixOf entry then entry.drop 2 else entry
    if (Lines.split slash normalized).any fun part => part = [] ∨ part = dot ∨ part = dotdot then
      .error "invalid package entry segment"
    else .ok normalized

/-- The entries that are left, and the error of the first one that was not found. -/
def resolveEntries (packageDir importPath : List UInt8) :
    List (List UInt8) → Option ImportError → Except ImportError (List UInt8)
  | [], none => .error (.read .notExist)
  | [], some error => .error error
  | entry :: entries, firstError =>
      let trimmed := White.trimSpace entry
      if entry ≠ [] ∧ trimmed = [] then .error (.unsafeEntry importPath entry)
      else if trimmed = [] then resolveEntries packageDir importPath entries firstError
      else
        match normalizePackageEntryPath trimmed with
        | .error _ => .error (.unsafeEntry importPath trimmed)
        | .ok normalized =>
            if ext normalized ≠ [] ∧ toLower (ext normalized) ≠ jsSuffix then
              .error (.unsupportedEntry importPath trimmed)
            else
              match resolveSourceFile files (join [packageDir, normalized]) with
              | .ok file => .ok file
              | .error error =>
                  resolveEntries packageDir importPath entries
                    (firstError.or (some (.unresolvedEntry importPath trimmed error)))

def resolvePackageJSONEntry (packageDir importPath : List UInt8) : Except ImportError (List UInt8) :=
  match files.readFile (join [packageDir, packageFile]) with
  | .error error => .error (.read error)
  | .ok data =>
      match unmarshal data with
      | .error error => .error (.invalidJSON importPath error)
      | .ok json =>
          resolveEntries files packageDir importPath [json.jayess, json.module, json.main] none

def ImportError.isNotExist : ImportError → Bool
  | read .notExist => true
  | _ => false

def resolvePackageEntry (packageDir importPath : List UInt8) : Except ImportError (List UInt8) :=
  if packageDir = [] then .error (.noPackageDirectory importPath)
  else
    match resolvePackageJSONEntry files unmarshal packageDir importPath with
    | .ok file => .ok file
    | .error error =>
        if error.isNotExist then
          match resolveSourceFile files (join [packageDir, indexFile]) with
          | .ok file => .ok file
          | .error _ => .error (.noEntrypoint importPath)
        else .error error

def validatePackageImportPath (importPath : List UInt8) : Except ImportError Unit :=
  let parts := Lines.split slash importPath
  if importPath = [] then .error .empty
  else if White.trimSpace importPath ≠ importPath then .error (.malformed importPath)
  else if isAbs importPath ∨ isWindowsAbsolutePath importPath then .error (.notBare importPath)
  else if 0x3A ∈ importPath then .error (.schemeLike importPath)
  else if 0x3F ∈ importPath ∨ 0x23 ∈ importPath then .error (.query importPath)
  else if 0x5C ∈ importPath then .error (.backslash importPath)
  else if parts.any fun part => part = [] ∨ part = dot ∨ part = dotdot then .error (.malformed importPath)
  else if importPath.head? = some 0x40 ∧ (parts.length < 2 ∨ parts.head? = some [0x40]) then
    .error (.malformed importPath)
  else if importPath.head? = some 0x2E then .error (.malformed importPath)
  else .ok ()

def splitPackageImport (importPath : List UInt8) : List UInt8 × List UInt8 :=
  let parts := Lines.split slash importPath
  if importPath.head? = some 0x40 then
    if parts.length ≤ 2 then (importPath, []) else (unite (parts.take 2), unite (parts.drop 2))
  else if parts.length = 1 then (importPath, [])
  else (parts.headI, unite (parts.drop 1))

def resolvePackageTarget (packageDir subpath importPath : List UInt8) : Except ImportError (List UInt8) :=
  if subpath ≠ [] then resolveSourceFile files (join [packageDir, subpath])
  else resolvePackageEntry files unmarshal packageDir importPath

/-- A round looks into a directory and goes up to its parent. -/
def resolvePackageImportLoop (packageName subpath importPath : List UInt8) :
    Nat → List UInt8 → Except ImportError (List UInt8)
  | 0, _ => .error (.notFound importPath)
  | rounds + 1, directory =>
      let candidateBase := join [directory, nodeModules, packageName]
      if files.stat candidateBase = some true then
        resolvePackageTarget files unmarshal candidateBase subpath importPath
      else if dir directory = directory then .error (.notFound importPath)
      else resolvePackageImportLoop packageName subpath importPath rounds (dir directory)

def resolvePackageImport (startDir importPath : List UInt8) : Except ImportError (List UInt8) := do
  if startDir = [] then throw (.noStartDirectory importPath)
  else
    validatePackageImportPath importPath
    resolvePackageImportLoop files unmarshal (splitPackageImport importPath).1
      (splitPackageImport importPath).2 importPath (startDir.length + 1) startDir

end Resolve

end Jayess.Resolver
