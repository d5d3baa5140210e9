import Jayess.Resolver.PackageImport

/-!
# The file of a package
-/

namespace Jayess.Resolver

open SlashPath

section Spec

variable (files : FileSystem) (unmarshal : List UInt8 → Except String PackageJSON)

def FileSystem.IsFile (path : List UInt8) : Prop := files.stat path = some false

def Supported (path : List UInt8) : Prop := ext path = [] ∨ toLower (ext path) = jsSuffix

def Found (path : List UInt8) : Prop :=
  Supported path ∧ (files.IsFile path ∨
    ext path = [] ∧ (files.IsFile (path ++ jsSuffix) ∨ files.IsFile (path ++ slash :: indexFile)))

def Normalizes (entry normalized : List UInt8) : Prop :=
  White.trimSpace entry ≠ [] ∧ normalizePackageEntryPath (White.trimSpace entry) = .ok normalized ∧
    Supported normalized

/-- The first entry whose file is found, after empty ones and ones whose files are missing. -/
inductive FirstEntry (packageDir : List UInt8) : List (List UInt8) → List UInt8 → Prop
  | here {entry normalized : List UInt8} {entries : List (List UInt8)} (hentry : Normalizes entry normalized)
      (hfound : Found files (packageDir ++ slash :: normalized)) :
      FirstEntry packageDir (entry :: entries) normalized
  | empty {normalized : List UInt8} {entries : List (List UInt8)}
      (hlater : FirstEntry packageDir entries normalized) : FirstEntry packageDir ([] :: entries) normalized
  | missing {entry other normalized : List UInt8} {entries : List (List UInt8)} (hentry : Normalizes entry other)
      (hmissing : ¬Found files (packageDir ++ slash :: other))
      (hlater : FirstEntry packageDir entries normalized) : FirstEntry packageDir (entry :: entries) normalized

/-- The path in a package that an import names: its own, or that of the first entry whose file is found. -/
def Names (packageDir subpath path : List UInt8) : Prop :=
  if subpath = [] then
    ∃ data json normalized, files.readFile (packageDir ++ slash :: packageFile) = .ok data ∧
      unmarshal data = .ok json ∧
      FirstEntry files packageDir [json.jayess, json.module, json.main] normalized ∧
      path = packageDir ++ slash :: normalized
  else path = packageDir ++ slash :: subpath ∧ Found files path

def HasIndex (packageDir subpath : List UInt8) : Prop :=
  subpath = [] ∧ files.IsFile (packageDir ++ slash :: indexFile) ∧
    (files.readFile (packageDir ++ slash :: packageFile) = .error .notExist ∨
      ∃ data json, files.readFile (packageDir ++ slash :: packageFile) = .ok data ∧
        unmarshal data = .ok json ∧ json.jayess = [] ∧ json.module = [] ∧ json.main = [])

def Provides (packageDir subpath : List UInt8) : Prop :=
  (∃ path, Names files unmarshal packageDir subpath path) ∨ HasIndex files unmarshal packageDir subpath

def NamesBare (packageDir subpath : List UInt8) : Prop :=
  ∃ path, Names files unmarshal packageDir subpath path ∧ ext path = [] ∧ files.IsFile path

def Below (directory path : List UInt8) : Prop := ∃ sub, Relative sub ∧ path = directory ++ slash :: sub

end Spec

section SourceFiles

variable {files : FileSystem} {path sub file : List UInt8}

theorem relative_indexFile : Relative indexFile := by
  intro part hpart
  rw [show Lines.split slash indexFile = [indexFile] by decide, List.mem_singleton] at hpart
  subst hpart
  exact ⟨by decide, by decide, by decide, by decide⟩

theorem ext_indexFile : ext indexFile = jsSuffix := by decide

theorem cleaned_js (hpath : Cleaned path) : Cleaned (path ++ jsSuffix) ∧ ext (path ++ jsSuffix) = jsSuffix :=
  hpath.suffix (by decide) (by decide) (by decide)

theorem ext_index (path : List UInt8) : ext (path ++ slash :: indexFile) = jsSuffix := by
  rw [ext_append (by decide), ext_indexFile]

theorem file?_of_isFile (hpath : Cleaned path) (hfile : files.IsFile path) : files.file? path = some path := by
  have hstat : files.stat path = some false := hfile
  rw [FileSystem.file?, FileSystem.abs, if_pos hpath.isAbs, hpath.clean_eq, Option.filter_some,
    if_pos (decide_eq_true hstat)]

theorem file?_of_not_isFile (hpath : Cleaned path) (hfile : ¬files.IsFile path) : files.file? path = none := by
  have hstat : files.stat path ≠ some false := hfile
  rw [FileSystem.file?, FileSystem.abs, if_pos hpath.isAbs, hpath.clean_eq, Option.filter_some,
    if_neg (by simpa using hstat)]

def FoundAs (files : FileSystem) (path file : List UInt8) : Prop :=
  (file = path ∧ files.IsFile path) ∨
    (ext path = [] ∧ ¬files.IsFile path ∧ (file = path ++ jsSuffix ∨ file = path ++ slash :: indexFile))

theorem resolveSourceFile_found (hpath : Cleaned path) (hfound : Found files path) :
    ∃ file, resolveSourceFile files path = .ok file ∧ FoundAs files path file := by
  obtain ⟨hsupported, hfile⟩ := hfound
  have hguard : ¬(ext path ≠ [] ∧ toLower (ext path) ≠ jsSuffix) := by
    rintro ⟨hext, hlower⟩
    exact hsupported.elim hext hlower
  rw [resolveSourceFile, if_neg hguard]
  by_cases hself : files.IsFile path
  · have hhere := file?_of_isFile hpath hself
    refine ⟨path, ?_, .inl ⟨rfl, hself⟩⟩
    by_cases hext : ext path = []
    · simp only [if_pos hext, List.findSome?_cons, hhere]
    · simp only [if_neg hext, List.findSome?_cons, hhere]
  obtain ⟨hext, hother⟩ := hfile.resolve_left hself
  have hhere := file?_of_not_isFile hpath hself
  simp only [if_pos hext, List.findSome?_cons, hhere, hpath.join_eq relative_indexFile]
  by_cases hjs : files.IsFile (path ++ jsSuffix)
  · have hfirst := file?_of_isFile (cleaned_js hpath).1 hjs
    exact ⟨_, by rw [hfirst], .inr ⟨hext, hself, .inl rfl⟩⟩
  · have hfirst := file?_of_not_isFile (cleaned_js hpath).1 hjs
    have hsecond := file?_of_isFile (hpath.append relative_indexFile) (hother.resolve_left hjs)
    exact ⟨_, by rw [hfirst, hsecond], .inr ⟨hext, hself, .inr rfl⟩⟩

theorem resolveSourceFile_missing (hpath : Cleaned path) (hmissing : ¬Found files path) :
    ∃ error, resolveSourceFile files path = .error error ∧ error.isNotExist = false := by
  by_cases hguard : ext path ≠ [] ∧ toLower (ext path) ≠ jsSuffix
  · exact ⟨_, if_pos hguard, rfl⟩
  have hsupported : Supported path := by
    by_cases hext : ext path = []
    · exact .inl hext
    · exact .inr (by_contra fun hlower => hguard ⟨hext, hlower⟩)
  have hnone : ¬(files.IsFile path ∨
      ext path = [] ∧ (files.IsFile (path ++ jsSuffix) ∨ files.IsFile (path ++ slash :: indexFile))) :=
    fun hfile => hmissing ⟨hsupported, hfile⟩
  rw [not_or, not_and, not_or] at hnone
  obtain ⟨hself, hothers⟩ := hnone
  have hhere := file?_of_not_isFile hpath hself
  rw [resolveSourceFile, if_neg hguard]
  by_cases hext : ext path = []
  · obtain ⟨hjs, hindexFile⟩ := hothers hext
    have hfirst := file?_of_not_isFile (cleaned_js hpath).1 hjs
    have hsecond := file?_of_not_isFile (hpath.append relative_indexFile) hindexFile
    simp only [if_pos hext, List.findSome?_cons, hhere, hfirst, hpath.join_eq relative_indexFile, hsecond,
      List.findSome?_nil]
    exact ⟨_, rfl, rfl⟩
  · simp only [if_neg hext, List.findSome?_cons, hhere, List.findSome?_nil]
    exact ⟨_, rfl, rfl⟩

theorem FoundAs.below {directory : List UInt8} (hfile : FoundAs files (directory ++ slash :: sub) file)
    (hsub : Relative sub) : Below directory file := by
  rcases hfile with ⟨rfl, -⟩ | ⟨-, -, rfl | rfl⟩
  · exact ⟨sub, hsub, rfl⟩
  · refine ⟨sub ++ jsSuffix, hsub.suffix (by decide) (by decide), ?_⟩
    rw [List.append_assoc, List.cons_append]
  · refine ⟨sub ++ slash :: indexFile, hsub.append relative_indexFile, ?_⟩
    rw [List.append_assoc, List.cons_append]

theorem FoundAs.extension_iff (hfile : FoundAs files path file) (hpath : Cleaned path)
    (hsupported : Supported path) :
    toLower (ext file) = jsSuffix ↔ ¬(ext path = [] ∧ files.IsFile path) := by
  rcases hfile with ⟨rfl, hself⟩ | ⟨hext, hself, rfl | rfl⟩
  · constructor
    · rintro hlower ⟨hext, -⟩
      rw [hext] at hlower
      cases hlower
    · intro hnot
      exact hsupported.resolve_left fun hext => hnot ⟨hext, hself⟩
  · rw [(cleaned_js hpath).2]
    exact iff_of_true (by decide) fun hboth => hself hboth.2
  · rw [ext_index]
    exact iff_of_true (by decide) fun hboth => hself hboth.2

end SourceFiles

section Entries

variable {files : FileSystem} {packageDir importPath normalized entry file : List UInt8}
  {entries : List (List UInt8)}

theorem relative_of_checked {text : List UInt8}
    (hchecked : ¬((Lines.split slash text).any fun part => part = [] ∨ part = dot ∨ part = dotdot) = true) :
    Relative text := by
  intro part hmem
  have hgood : ¬(part = [] ∨ part = dot ∨ part = dotdot) :=
    fun hbad => hchecked (List.any_eq_true.mpr ⟨part, hmem, decide_eq_true hbad⟩)
  rw [not_or, not_or] at hgood
  exact ⟨hgood.1, hgood.2.1, hgood.2.2, Lines.not_mem_split part hmem⟩

theorem relative_normalized (hentry : normalizePackageEntryPath entry = .ok normalized) : Relative normalized := by
  rw [normalizePackageEntryPath] at hentry
  split_ifs at hentry
  all_goals
    dsimp only at hentry
    split_ifs at hentry with hpart
    rw [← Except.ok.inj hentry]
    exact relative_of_checked hpart

theorem resolveEntries_normalizes (hdir : Cleaned packageDir) (hentry : Normalizes entry normalized)
    (firstError : Option ImportError) :
    (∃ file, resolveEntries files packageDir importPath (entry :: entries) firstError = .ok file ∧
      Found files (packageDir ++ slash :: normalized) ∧
      FoundAs files (packageDir ++ slash :: normalized) file) ∨
    (¬Found files (packageDir ++ slash :: normalized) ∧
      ∃ error : ImportError, error.isNotExist = false ∧
        resolveEntries files packageDir importPath (entry :: entries) firstError =
          resolveEntries files packageDir importPath entries (firstError.or (some error))) := by
  obtain ⟨hne, hnormalized, hsupported⟩ := hentry
  have hrelative := relative_normalized hnormalized
  have hguard : ¬(ext normalized ≠ [] ∧ toLower (ext normalized) ≠ jsSuffix) := by
    rintro ⟨hext, hlower⟩
    exact hsupported.elim hext hlower
  have hok : ∀ file, resolveSourceFile files (packageDir ++ slash :: normalized) = .ok file →
      resolveEntries files packageDir importPath (entry :: entries) firstError = .ok file := by
    intro file hfile
    rw [resolveEntries]
    simp only [if_neg (not_and_of_not_right (entry ≠ []) hne), if_neg hne, hnormalized, if_neg hguard,
      hdir.join_eq hrelative, hfile]
  have herror : ∀ error, resolveSourceFile files (packageDir ++ slash :: normalized) = .error error →
      resolveEntries files packageDir importPath (entry :: entries) firstError =
        resolveEntries files packageDir importPath entries
          (firstError.or (some (.unresolvedEntry importPath (White.trimSpace entry) error))) := by
    intro error hfile
    rw [resolveEntries]
    simp only [if_neg (not_and_of_not_right (entry ≠ []) hne), if_neg hne, hnormalized, if_neg hguard,
      hdir.join_eq hrelative, hfile]
  by_cases hfound : Found files (packageDir ++ slash :: normalized)
  · obtain ⟨file, hfile, hfoundAs⟩ := resolveSourceFile_found (hdir.append hrelative) hfound
    exact .inl ⟨file, hok file hfile, hfound, hfoundAs⟩
  · obtain ⟨error, hfile, -⟩ := resolveSourceFile_missing (hdir.append hrelative) hfound
    exact .inr ⟨hfound, _, rfl, herror error hfile⟩

theorem resolveEntries_nil (firstError : Option ImportError) :
    resolveEntries files packageDir importPath ([] :: entries) firstError =
      resolveEntries files packageDir importPath entries firstError := by
  rw [resolveEntries, White.trimSpace_nil]
  simp

theorem resolveEntries_bad (entries : List (List UInt8)) (hne : entry ≠ [])
    (hbad : ∀ normalized, ¬Normalizes entry normalized) (firstError : Option ImportError) : ∃ error : ImportError, error.isNotExist = false ∧
      resolveEntries files packageDir importPath (entry :: entries) firstError = .error error := by
  rw [resolveEntries]
  by_cases hblank : White.trimSpace entry = []
  · exact ⟨_, rfl, if_pos ⟨hne, hblank⟩⟩
  simp only [if_neg (not_and_of_not_right (entry ≠ []) hblank), if_neg hblank]
  cases hnormalized : normalizePackageEntryPath (White.trimSpace entry) with
  | error error => exact ⟨_, rfl, rfl⟩
  | ok normalized =>
      refine ⟨_, rfl, if_pos ?_⟩
      have hunsupported : ¬Supported normalized := fun hsupported => hbad _ ⟨hblank, hnormalized, hsupported⟩
      exact not_or.mp hunsupported

theorem resolveEntries_of_first (importPath : List UInt8) (hdir : Cleaned packageDir)
    (hfirst : FirstEntry files packageDir entries normalized) (firstError : Option ImportError) :
    ∃ file, resolveEntries files packageDir importPath entries firstError = .ok file ∧
      FoundAs files (packageDir ++ slash :: normalized) file := by
  induction hfirst generalizing firstError with
  | here hentry hfound =>
      rcases resolveEntries_normalizes hdir hentry firstError with ⟨file, hfile, -, hfoundAs⟩ | ⟨hmissing, -⟩
      · exact ⟨file, hfile, hfoundAs⟩
      · exact absurd hfound hmissing
  | empty _ ih =>
      obtain ⟨file, hfile, hfoundAs⟩ := ih firstError
      exact ⟨file, by rw [resolveEntries_nil, hfile], hfoundAs⟩
  | missing hentry hmissing _ ih =>
      rcases resolveEntries_normalizes hdir hentry firstError with ⟨_, -, hfound, -⟩ | ⟨-, error, -, hlater⟩
      · exact absurd hfound hmissing
      · obtain ⟨file, hfile, hfoundAs⟩ := ih (firstError.or (some error))
        exact ⟨file, by rw [hlater, hfile], hfoundAs⟩

theorem first_of_resolveEntries (hdir : Cleaned packageDir) (firstError : Option ImportError)
    (hfile : resolveEntries files packageDir importPath entries firstError = .ok file) :
    ∃ normalized, FirstEntry files packageDir entries normalized ∧
      FoundAs files (packageDir ++ slash :: normalized) file := by
  induction entries generalizing firstError with
  | nil => cases firstError <;> cases hfile
  | cons entry entries ih =>
      by_cases hnil : entry = []
      · rw [hnil, resolveEntries_nil] at hfile
        obtain ⟨normalized, hfirst, hfoundAs⟩ := ih firstError hfile
        exact ⟨normalized, hnil ▸ .empty hfirst, hfoundAs⟩
      by_cases hentry : ∃ normalized, Normalizes entry normalized
      · obtain ⟨normalized, hentry⟩ := hentry
        rcases resolveEntries_normalizes hdir hentry firstError with ⟨other, hother, hfound, hfoundAs⟩ |
          ⟨hmissing, error, -, hlater⟩
        · rw [hother] at hfile
          exact ⟨normalized, .here hentry hfound, Except.ok.inj hfile ▸ hfoundAs⟩
        · rw [hlater] at hfile
          obtain ⟨later, hfirst, hfoundAs⟩ := ih _ hfile
          exact ⟨later, .missing hentry hmissing hfirst, hfoundAs⟩
      · rw [not_exists] at hentry
        obtain ⟨error, -, herror⟩ := resolveEntries_bad entries hnil hentry firstError
        rw [herror] at hfile
        cases hfile

theorem isNotExist_resolveEntries (hdir : Cleaned packageDir) {firstError : Option ImportError}
    (hfirst : ∀ error, firstError = some error → error.isNotExist = false) {error : ImportError}
    (herror : resolveEntries files packageDir importPath entries firstError = .error error)
    (hnotExist : error.isNotExist = true) : firstError = none ∧ ∀ entry ∈ entries, entry = [] := by
  induction entries generalizing firstError with
  | nil =>
      cases firstError with
      | none => exact ⟨rfl, by simp⟩
      | some first =>
          obtain rfl : first = error := Except.error.inj herror
          rw [hfirst first rfl] at hnotExist
          cases hnotExist
  | cons entry entries ih =>
      by_cases hnil : entry = []
      · rw [hnil, resolveEntries_nil] at herror
        obtain ⟨hnone, hempty⟩ := ih hfirst herror
        exact ⟨hnone, List.forall_mem_cons.mpr ⟨hnil, hempty⟩⟩
      exfalso
      by_cases hentry : ∃ normalized, Normalizes entry normalized
      · obtain ⟨normalized, hentry⟩ := hentry
        rcases resolveEntries_normalizes hdir hentry firstError with ⟨other, hother, -⟩ |
          ⟨-, missing, hmissing, hround⟩
        · rw [hother] at herror
          cases herror
        · have hlater : ∀ error, firstError.or (some missing) = some error → error.isNotExist = false := by
            intro error hsome
            cases firstError with
            | none => exact Option.some.inj hsome ▸ hmissing
            | some first => exact hfirst error hsome
          rw [hround] at herror
          obtain ⟨hnone, -⟩ := ih hlater herror
          cases firstError <;> cases hnone
      · rw [not_exists] at hentry
        obtain ⟨bad, hbad, hround⟩ := resolveEntries_bad entries hnil hentry firstError
        rw [hround] at herror
        rw [← Except.error.inj herror, hbad] at hnotExist
        cases hnotExist

end Entries

section Targets

variable {files : FileSystem} {unmarshal : List UInt8 → Except String PackageJSON}
  {packageDir subpath importPath path file : List UInt8}

theorem relative_packageFile : Relative packageFile := by
  intro part hpart
  rw [show Lines.split slash packageFile = [packageFile] by decide, List.mem_singleton] at hpart
  subst hpart
  exact ⟨by decide, by decide, by decide, by decide⟩

theorem FirstEntry.normalizes {entries : List (List UInt8)} {normalized : List UInt8}
    (hfirst : FirstEntry files packageDir entries normalized) :
    ∃ entry, Normalizes entry normalized ∧ Found files (packageDir ++ slash :: normalized) := by
  induction hfirst with
  | here hentry hfound => exact ⟨_, hentry, hfound⟩
  | empty _ ih => exact ih
  | missing _ _ _ ih => exact ih

theorem Names.relative (hsub : subpath = [] ∨ Relative subpath)
    (hnames : Names files unmarshal packageDir subpath path) : ∃ sub, Relative sub ∧ path = packageDir ++ slash :: sub ∧ Supported path := by
  rw [Names] at hnames
  split_ifs at hnames with hnil
  · obtain ⟨data, json, normalized, -, -, hfirst, rfl⟩ := hnames
    obtain ⟨entry, ⟨-, hentry, -⟩, hfound⟩ := hfirst.normalizes
    exact ⟨normalized, relative_normalized hentry, rfl, hfound.1⟩
  · exact ⟨subpath, hsub.resolve_left hnil, hnames.1, hnames.2.1⟩

theorem cleaned_ne_nil (hdir : Cleaned packageDir) : packageDir ≠ [] := by
  obtain ⟨parts, -, -, rfl⟩ := hdir
  exact List.cons_ne_nil _ _

theorem resolvePackageTarget_of_names (importPath : List UInt8) (hdir : Cleaned packageDir)
    (hsub : subpath = [] ∨ Relative subpath) (hnames : Names files unmarshal packageDir subpath path) :
    ∃ file, resolvePackageTarget files unmarshal packageDir subpath importPath = .ok file ∧
      FoundAs files path file := by
  rw [Names] at hnames
  split_ifs at hnames with hnil
  · obtain ⟨data, json, normalized, hread, hjson, hfirst, rfl⟩ := hnames
    obtain ⟨file, hfile, hfoundAs⟩ := resolveEntries_of_first importPath hdir hfirst none
    refine ⟨file, ?_, hfoundAs⟩
    have hentry : resolvePackageJSONEntry files unmarshal packageDir importPath = .ok file := by
      rw [resolvePackageJSONEntry, hdir.join_eq relative_packageFile]
      simp only [hread, hjson, hfile]
    rw [resolvePackageTarget, if_neg (not_not.mpr hnil), resolvePackageEntry, if_neg (cleaned_ne_nil hdir)]
    simp only [hentry]
  · obtain ⟨rfl, hfound⟩ := hnames
    have hrelative := hsub.resolve_left hnil
    rw [resolvePackageTarget, if_pos hnil, hdir.join_eq hrelative]
    exact resolveSourceFile_found (hdir.append hrelative) hfound

theorem found_index_iff :
    Found files (packageDir ++ slash :: indexFile) ↔ files.IsFile (packageDir ++ slash :: indexFile) := by
  have hext : ext (packageDir ++ slash :: indexFile) = jsSuffix := ext_index packageDir
  constructor
  · rintro ⟨-, hfile | ⟨hnil, -⟩⟩
    · exact hfile
    · rw [hext] at hnil
      cases hnil
  · intro hfile
    exact ⟨.inr (by rw [hext]; decide), .inl hfile⟩

theorem foundAs_index (hfound : FoundAs files (packageDir ++ slash :: indexFile) file) :
    file = packageDir ++ slash :: indexFile := by
  rcases hfound with ⟨hfile, -⟩ | ⟨hnil, -⟩
  · exact hfile
  · rw [ext_index] at hnil
    cases hnil

theorem resolvePackageTarget_of_index (hdir : Cleaned packageDir)
    (hindex : HasIndex files unmarshal packageDir subpath) :
    resolvePackageTarget files unmarshal packageDir subpath importPath =
      .ok (packageDir ++ slash :: indexFile) := by
  obtain ⟨hnil, hfile, hpackage⟩ := hindex
  have hentry : resolvePackageJSONEntry files unmarshal packageDir importPath = .error (.read .notExist) := by
    rw [resolvePackageJSONEntry, hdir.join_eq relative_packageFile]
    rcases hpackage with hread | ⟨data, json, hread, hjson, hjayess, hmodule, hmain⟩
    · simp only [hread]
    · simp only [hread, hjson, hjayess, hmodule, hmain, resolveEntries_nil]
      rfl
  obtain ⟨file, hresolved, hfoundAs⟩ :=
    resolveSourceFile_found (hdir.append relative_indexFile) (found_index_iff.mpr hfile)
  have hnotExist : (ImportError.read .notExist).isNotExist = true := rfl
  rw [resolvePackageTarget, if_neg (not_not.mpr hnil), resolvePackageEntry, if_neg (cleaned_ne_nil hdir)]
  simp only [hentry, if_pos hnotExist, hdir.join_eq relative_indexFile, hresolved, foundAs_index hfoundAs]

theorem resolvePackageJSONEntry_cases (unmarshal : List UInt8 → Except String PackageJSON)
    (importPath : List UInt8) (hdir : Cleaned packageDir) :
    (∃ path file, resolvePackageJSONEntry files unmarshal packageDir importPath = .ok file ∧
      Names files unmarshal packageDir [] path ∧ FoundAs files path file) ∨
    ∃ error : ImportError, resolvePackageJSONEntry files unmarshal packageDir importPath = .error error ∧
      (error.isNotExist = true → files.readFile (packageDir ++ slash :: packageFile) = .error .notExist ∨
        ∃ data json, files.readFile (packageDir ++ slash :: packageFile) = .ok data ∧
          unmarshal data = .ok json ∧ json.jayess = [] ∧ json.module = [] ∧ json.main = []) := by
  rw [resolvePackageJSONEntry, hdir.join_eq relative_packageFile]
  cases hread : files.readFile (packageDir ++ slash :: packageFile) with
  | error error =>
      refine .inr ⟨.read error, rfl, fun hnotExist => .inl ?_⟩
      cases error with
      | notExist => rfl
      | other text => cases hnotExist
  | ok data =>
      simp only
      cases hjson : unmarshal data with
      | error error => exact .inr ⟨.invalidJSON importPath error, rfl, nofun⟩
      | ok json =>
          cases hentries : resolveEntries files packageDir importPath
              [json.jayess, json.module, json.main] none with
          | ok file =>
              obtain ⟨normalized, hfirst, hfoundAs⟩ := first_of_resolveEntries hdir none hentries
              refine .inl ⟨_, file, hentries, ?_, hfoundAs⟩
              rw [Names, if_pos rfl]
              exact ⟨data, json, normalized, hread, hjson, hfirst, rfl⟩
          | error error =>
              refine .inr ⟨error, hentries, fun hnotExist => .inr ⟨data, json, rfl, hjson, ?_⟩⟩
              have hempty := (isNotExist_resolveEntries hdir (by simp) hentries hnotExist).2
              simpa using hempty

theorem resolvePackageTarget_ok (hdir : Cleaned packageDir) (hsub : subpath = [] ∨ Relative subpath)
    (hfile : resolvePackageTarget files unmarshal packageDir subpath importPath = .ok file) :
    (∃ path, Names files unmarshal packageDir subpath path ∧ FoundAs files path file) ∨
      (HasIndex files unmarshal packageDir subpath ∧ file = packageDir ++ slash :: indexFile) := by
  by_cases hnil : subpath = []
  · subst hnil
    rw [resolvePackageTarget, if_neg (not_not.mpr rfl), resolvePackageEntry, if_neg (cleaned_ne_nil hdir)] at hfile
    rcases @resolvePackageJSONEntry_cases files _ unmarshal importPath hdir with
      ⟨path, other, hother, hnames, hfoundAs⟩ | ⟨error, herror, hempty⟩
    · rw [hother] at hfile
      exact .inl ⟨path, hnames, Except.ok.inj hfile ▸ hfoundAs⟩
    · rw [herror] at hfile
      simp only at hfile
      split_ifs at hfile with hnotExist
      by_cases hindex : Found files (packageDir ++ slash :: indexFile)
      · obtain ⟨other, hother, hfoundAs⟩ := resolveSourceFile_found (hdir.append relative_indexFile) hindex
        simp only [hdir.join_eq relative_indexFile, hother] at hfile
        refine .inr ⟨⟨rfl, found_index_iff.mp hindex, hempty hnotExist⟩, ?_⟩
        rw [← Except.ok.inj hfile, foundAs_index hfoundAs]
      · obtain ⟨missing, hmissing, -⟩ := resolveSourceFile_missing (hdir.append relative_indexFile) hindex
        simp only [hdir.join_eq relative_indexFile, hmissing] at hfile
        cases hfile
  · have hrelative := hsub.resolve_left hnil
    rw [resolvePackageTarget, if_pos hnil, hdir.join_eq hrelative] at hfile
    by_cases hfound : Found files (packageDir ++ slash :: subpath)
    · obtain ⟨other, hother, hfoundAs⟩ := resolveSourceFile_found (hdir.append hrelative) hfound
      rw [hother] at hfile
      refine .inl ⟨_, ?_, Except.ok.inj hfile ▸ hfoundAs⟩
      rw [Names, if_neg hnil]
      exact ⟨rfl, hfound⟩
    · obtain ⟨missing, hmissing, -⟩ := resolveSourceFile_missing (hdir.append hrelative) hfound
      rw [hmissing] at hfile
      cases hfile

theorem resolvePackageTarget_below (hdir : Cleaned packageDir) (hsub : subpath = [] ∨ Relative subpath)
    (hfile : resolvePackageTarget files unmarshal packageDir subpath importPath = .ok file) :
    Below packageDir file := by
  rcases resolvePackageTarget_ok hdir hsub hfile with ⟨path, hnames, hfoundAs⟩ | ⟨-, rfl⟩
  · obtain ⟨sub, hrelative, rfl, -⟩ := hnames.relative hsub
    exact hfoundAs.below hrelative
  · exact ⟨indexFile, relative_indexFile, rfl⟩

theorem resolvePackageTarget_extension_iff (hdir : Cleaned packageDir) (hsub : subpath = [] ∨ Relative subpath) :
    (∀ file, resolvePackageTarget files unmarshal packageDir subpath importPath = .ok file →
      toLower (ext file) = jsSuffix) ↔ ¬NamesBare files unmarshal packageDir subpath := by
  constructor
  · rintro hall ⟨path, hnames, hbare⟩
    obtain ⟨file, hfile, hfoundAs⟩ := resolvePackageTarget_of_names importPath hdir hsub hnames
    obtain ⟨sub, hrelative, rfl, hsupported⟩ := hnames.relative hsub
    exact (hfoundAs.extension_iff (hdir.append hrelative) hsupported).mp (hall file hfile) hbare
  · intro hbare file hfile
    rcases resolvePackageTarget_ok hdir hsub hfile with ⟨path, hnames, hfoundAs⟩ | ⟨-, rfl⟩
    · obtain ⟨sub, hrelative, rfl, hsupported⟩ := hnames.relative hsub
      refine (hfoundAs.extension_iff (hdir.append hrelative) hsupported).mpr ?_
      exact fun hself => hbare ⟨_, hnames, hself⟩
    · rw [ext_index]
      decide

theorem resolvePackageTarget_ok_iff (hdir : Cleaned packageDir) (hsub : subpath = [] ∨ Relative subpath) :
    (∃ file, resolvePackageTarget files unmarshal packageDir subpath importPath = .ok file) ↔
      Provides files unmarshal packageDir subpath := by
  constructor
  · rintro ⟨file, hfile⟩
    rcases resolvePackageTarget_ok hdir hsub hfile with ⟨path, hnames, -⟩ | ⟨hindex, -⟩
    · exact .inl ⟨path, hnames⟩
    · exact .inr hindex
  · rintro (⟨path, hnames⟩ | hindex)
    · obtain ⟨file, hfile, -⟩ := resolvePackageTarget_of_names importPath hdir hsub hnames
      exact ⟨file, hfile⟩
    · exact ⟨_, resolvePackageTarget_of_index hdir hindex⟩

end Targets

end Jayess.Resolver
