import Jayess.Binding.BuildPlan
import Jayess.Sequences.FirstOccurrences

/-!
# What a build plan keeps
-/

namespace Jayess.Binding

open FirstOccurrences

section Spec

variable (platform : List UInt8) (separate : List UInt8 → Prop) [DecidablePred separate]

structure Listing where
  modulePath : List UInt8
  source : List UInt8

def Listing.key (listing : Listing) : List UInt8 := normalizeSourceKey listing.modulePath listing.source

def CompileUnit.listing (unit : CompileUnit) : Listing := ⟨unit.modulePath, unit.source⟩

def Module.Valid (module : Module) : Prop := validateBindingTarget module.path = .ok ()

instance (module : Module) : Decidable module.Valid :=
  match h : validateBindingTarget module.path with
  | .ok () => .isTrue h
  | .error _ => .isFalse fun hvalid => by rw [Module.Valid, h] at hvalid; cases hvalid

def Module.inputs (module : Module) : BuildInputs := module.manifest.buildInputsFor platform

/-- The sources of the valid modules, in their order. -/
def listings (modules : List Module) : List Listing :=
  modules.flatMap fun module =>
    if module.Valid then (module.inputs platform).sources.map (⟨module.path, ·⟩) else []

def first? (listings : List Listing) (key : List UInt8) : Option Listing := listings.find? (·.key = key)

/-- The report that is due for a source after others. -/
def report (earlier : List Listing) (listing : Listing) : List Diagnostic :=
  ((first? earlier listing.key).map fun first => duplicateSource listing.source first.modulePath).toList

def reports (earlier : List Listing) : List Listing → List Diagnostic
  | [] => []
  | listing :: listings => report earlier listing ++ reports (earlier ++ [listing]) listings

/-- Every listed source has one compile unit, which is that of its first listing, and every further listing is
reported. -/
structure SourcesOwned (listings : List Listing) (plan : BuildPlan) : Prop where
  compiled : ∀ listing ∈ listings, ∃ unit ∈ plan.compileUnits, unit.listing.key = listing.key
  once : (plan.compileUnits.map fun unit => unit.listing.key).Nodup
  owned : ∀ unit ∈ plan.compileUnits, first? listings unit.listing.key = some unit.listing
  reported : (reports [] listings).Sublist plan.diagnostics

def Module.flags (module : Module) : List (List UInt8) :=
  (module.inputs platform).libraryDirs.map (libraryDirFlag ∘ normalizeSourceKey module.path) ++
  (module.inputs platform).sharedLibraries.map (sharedLibraryLinkArg module.path) ++
  (module.inputs platform).ldflags

def contributed (modules : List Module) : List (List UInt8) :=
  modules.flatMap fun module => if module.Valid then module.flags platform else []

/-- The options with a separate argument in some flags, which are read from left to right. -/
def arguments : List (List UInt8) → List (List UInt8 × List UInt8)
  | option :: argument :: flags =>
      if separate option then (option, argument) :: arguments flags else arguments (argument :: flags)
  | _ => []

/-- Every option with a separate argument is followed by it. -/
def FlagsKept (modules : List Module) (plan : BuildPlan) : Prop :=
  ∀ module ∈ modules, module.Valid → ∀ pair ∈ arguments separate (module.inputs platform).ldflags,
    [pair.1, pair.2] <:+: plan.ldflags

/-- Nothing new comes between an option and its argument when they are first used. -/
def FlagsTogether (modules : List Module) : Prop :=
  ∀ module ∈ modules, module.Valid → ∀ pair ∈ arguments separate (module.inputs platform).ldflags,
    Together (contributed platform modules) pair.1 pair.2

end Spec

/-! ## Sources -/

section Sources

variable {modulePath source : List UInt8} {includeDirs cflags : List (List UInt8)} {state state' : Planning}
  {earlier listed : List Listing} {listing : Listing}

theorem reports_append (earlier listed : List Listing) (listing : Listing) :
    reports earlier (listed ++ [listing]) = reports earlier listed ++ report (earlier ++ listed) listing := by
  induction listed generalizing earlier with
  | nil => simp [reports]
  | cons first listed ih =>
      rw [List.cons_append, reports, ih, reports, List.append_assoc, List.append_assoc, List.singleton_append]

theorem first?_concat (listed : List Listing) (listing : Listing) (key : List UInt8) :
    first? (listed ++ [listing]) key =
      (first? listed key).or (if listing.key = key then some listing else none) := by
  rw [first?, List.find?_append, ← first?, List.find?_cons, List.find?_nil]
  by_cases hkey : listing.key = key
  · simp [hkey]
  · simp [hkey]

/-- The sources of a state are those of some listings, and it knows their owners. -/
structure Planned (state : Planning) (listed : List Listing) : Prop where
  sound : SourcesOwned listed state.plan
  owners : ∀ key, state.seen.sources.lookup key = (first? listed key).map Listing.modulePath

structure SameSources (state state' : Planning) : Prop where
  units : state'.plan.compileUnits = state.plan.compileUnits
  sources : state'.seen.sources = state.seen.sources
  diagnostics : state.plan.diagnostics <+: state'.plan.diagnostics

theorem Planned.of_same (hplanned : Planned state listed) (hsame : SameSources state state') :
    Planned state' listed := by
  obtain ⟨hunits, hsources, hdiagnostics⟩ := hsame
  obtain ⟨⟨hcompiled, honce, howned, hreported⟩, howners⟩ := hplanned
  refine ⟨⟨?_, ?_, ?_, hreported.trans hdiagnostics.sublist⟩, ?_⟩
  · rwa [hunits]
  · rwa [hunits]
  · rwa [hunits]
  · rwa [hsources]

theorem sameSources_rfl (state : Planning) : SameSources state state := ⟨rfl, rfl, List.prefix_rfl⟩

theorem sameSources_appendUniqueLDFlag (state : Planning) (flag : List UInt8) :
    SameSources state (appendUniqueLDFlag state flag) := by
  rw [appendUniqueLDFlag]
  split_ifs
  · exact sameSources_rfl state
  · exact ⟨rfl, rfl, List.prefix_rfl⟩

theorem SameSources.trans {state'' : Planning} (hfirst : SameSources state state')
    (hsecond : SameSources state' state'') : SameSources state state'' :=
  ⟨hsecond.units.trans hfirst.units, hsecond.sources.trans hfirst.sources,
    hfirst.diagnostics.trans hsecond.diagnostics⟩

theorem sameSources_addLibraryDir (modulePath : List UInt8) (state : Planning) (rawDir : List UInt8) :
    SameSources state (addLibraryDir modulePath state rawDir) := by
  rw [addLibraryDir]
  split_ifs
  · exact sameSources_rfl state
  · refine SameSources.trans ?_ (sameSources_appendUniqueLDFlag _ _)
    exact ⟨rfl, rfl, List.prefix_rfl⟩

theorem sameSources_addSharedLibrary (modulePath : List UInt8) (state : Planning) (library : List UInt8) :
    SameSources state (addSharedLibrary modulePath state library) := by
  by_cases hseen : sharedLibraryLinkArg modulePath library ∈ state.seen.sharedLibraries
  · rw [addSharedLibrary, if_pos hseen]
    exact sameSources_rfl state
  · rw [addSharedLibrary, if_neg hseen]
    refine SameSources.trans ?_ (sameSources_appendUniqueLDFlag _ _)
    exact ⟨rfl, rfl, List.prefix_rfl⟩

structure SameFlags (state state' : Planning) : Prop where
  flags : state'.plan.ldflags = state.plan.ldflags
  seen : state'.seen.ldflags = state.seen.ldflags
  dirs : state'.seen.libraryDirs = state.seen.libraryDirs
  libraries : state'.seen.sharedLibraries = state.seen.sharedLibraries

theorem sameFlags_rfl (state : Planning) : SameFlags state state := ⟨rfl, rfl, rfl, rfl⟩

theorem SameFlags.trans {state'' : Planning} (hfirst : SameFlags state state')
    (hsecond : SameFlags state' state'') : SameFlags state state'' :=
  ⟨hsecond.flags.trans hfirst.flags, hsecond.seen.trans hfirst.seen, hsecond.dirs.trans hfirst.dirs,
    hsecond.libraries.trans hfirst.libraries⟩

theorem sameFlags_addSource (modulePath : List UInt8) (includeDirs cflags : List (List UInt8)) (state : Planning)
    (source : List UInt8) : SameFlags state (addSource modulePath includeDirs cflags state source) := by
  rw [addSource]
  cases state.seen.sources.lookup (normalizeSourceKey modulePath source) with
  | some owner => exact ⟨rfl, rfl, rfl, rfl⟩
  | none => exact ⟨rfl, rfl, rfl, rfl⟩

def SameBoth (state state' : Planning) : Prop := SameSources state state' ∧ SameFlags state state'

theorem sameBoth_addLicenseFile (modulePath : List UInt8) (state : Planning) (rawLicense : List UInt8) :
    SameBoth state (addLicenseFile modulePath state rawLicense) := by
  rw [addLicenseFile]
  split_ifs
  · exact ⟨sameSources_rfl state, sameFlags_rfl state⟩
  · exact ⟨⟨rfl, rfl, List.prefix_rfl⟩, ⟨rfl, rfl, rfl, rfl⟩⟩

theorem sameBoth_addRuntimeAsset (modulePath : List UInt8) (state : Planning) (rawAsset : List UInt8) :
    SameBoth state (addRuntimeAsset modulePath state rawAsset) := by
  rw [addRuntimeAsset]
  split_ifs
  · exact ⟨sameSources_rfl state, sameFlags_rfl state⟩
  · exact ⟨⟨rfl, rfl, List.prefix_rfl⟩, ⟨rfl, rfl, rfl, rfl⟩⟩

theorem sameBoth_addHelperAsset (modulePath : List UInt8) (state : Planning) (rawAsset : List UInt8) :
    SameBoth state (addHelperAsset modulePath state rawAsset) := by
  rw [addHelperAsset]
  split_ifs
  · exact ⟨sameSources_rfl state, sameFlags_rfl state⟩
  · exact ⟨⟨rfl, rfl, List.prefix_rfl⟩, ⟨rfl, rfl, rfl, rfl⟩⟩

theorem addSource_of_seen (includeDirs cflags : List (List UInt8)) {owner : List UInt8}
    (howner : state.seen.sources.lookup (normalizeSourceKey modulePath source) = some owner) :
    addSource modulePath includeDirs cflags state source =
      { state with
        plan := { state.plan with diagnostics := state.plan.diagnostics ++ [duplicateSource source owner] } } := by
  simp only [addSource, howner]

theorem addSource_of_new (includeDirs cflags : List (List UInt8))
    (hnew : state.seen.sources.lookup (normalizeSourceKey modulePath source) = none) :
    addSource modulePath includeDirs cflags state source =
      { plan :=
          { state.plan with
            compileUnits := state.plan.compileUnits ++ [⟨modulePath, source, includeDirs, cflags⟩] }
        seen :=
          { state.seen with
            sources := (normalizeSourceKey modulePath source, modulePath) :: state.seen.sources } } := by
  simp only [addSource, hnew]

theorem Planned.addSource_seen (hplanned : Planned state listed) (includeDirs cflags : List (List UInt8))
    {first : Listing} (hfirst : first? listed (Listing.key ⟨modulePath, source⟩) = some first) :
    Planned (addSource modulePath includeDirs cflags state source) (listed ++ [⟨modulePath, source⟩]) := by
  obtain ⟨⟨hcompiled, honce, howned, hreported⟩, howners⟩ := hplanned
  have howner := howners (Listing.key ⟨modulePath, source⟩)
  rw [hfirst] at howner
  have hsame : ∀ key, first? (listed ++ [⟨modulePath, source⟩]) key = first? listed key := by
    intro key
    rw [first?_concat]
    split_ifs with hkey
    · rw [← hkey, hfirst]
      rfl
    · rw [Option.or_none]
  rw [addSource_of_seen includeDirs cflags howner]
  refine ⟨⟨?_, honce, fun unit hunit => (hsame _).trans (howned unit hunit), ?_⟩,
    fun key => (howners key).trans (by rw [hsame])⟩
  · intro listing hlisting
    rcases List.mem_append.mp hlisting with hlisting | hlisting
    · exact hcompiled listing hlisting
    · have hkey : first.key = Listing.key ⟨modulePath, source⟩ := by
        simpa using List.find?_some hfirst
      rw [List.mem_singleton.mp hlisting, ← hkey]
      exact hcompiled first (List.mem_of_find?_eq_some hfirst)
  · rw [reports_append, List.nil_append, report, hfirst]
    exact hreported.append (List.Sublist.refl _)

theorem Planned.addSource_new (hplanned : Planned state listed) (includeDirs cflags : List (List UInt8))
    (hfirst : first? listed (Listing.key ⟨modulePath, source⟩) = none) :
    Planned (addSource modulePath includeDirs cflags state source) (listed ++ [⟨modulePath, source⟩]) := by
  obtain ⟨⟨hcompiled, honce, howned, hreported⟩, howners⟩ := hplanned
  have howner := howners (Listing.key ⟨modulePath, source⟩)
  rw [hfirst] at howner
  have hnew : ∀ unit ∈ state.plan.compileUnits, unit.listing.key ≠ Listing.key ⟨modulePath, source⟩ := by
    intro unit hunit hkey
    have hunitFirst := howned unit hunit
    rw [hkey, hfirst] at hunitFirst
    cases hunitFirst
  rw [addSource_of_new includeDirs cflags howner]
  refine ⟨⟨?_, ?_, ?_, ?_⟩, ?_⟩
  · intro listing hlisting
    rcases List.mem_append.mp hlisting with hlisting | hlisting
    · obtain ⟨unit, hunit, hkey⟩ := hcompiled listing hlisting
      exact ⟨unit, List.mem_append_left _ hunit, hkey⟩
    · rw [List.mem_singleton.mp hlisting]
      exact ⟨_, List.mem_append_right _ (List.mem_singleton_self _), rfl⟩
  · rw [List.map_append, List.nodup_append]
    refine ⟨honce, by simp, ?_⟩
    intro key hkey other hother
    obtain ⟨unit, hunit, rfl⟩ := List.mem_map.mp hkey
    rw [List.map_singleton, List.mem_singleton] at hother
    rw [hother]
    exact hnew unit hunit
  · intro unit hunit
    rcases List.mem_append.mp hunit with hunit | hunit
    · rw [first?_concat, howned unit hunit]
      rfl
    · obtain rfl := List.mem_singleton.mp hunit
      rw [first?_concat, CompileUnit.listing, hfirst, if_pos rfl]
      rfl
  · rw [reports_append, List.nil_append, report, hfirst]
    simpa using hreported
  · intro key
    rw [first?_concat, List.lookup_cons]
    by_cases hkey : key = normalizeSourceKey modulePath source
    · have hsame : Listing.key ⟨modulePath, source⟩ = key := hkey.symm
      have hbeq : (key == normalizeSourceKey modulePath source) = true := by simpa using hkey
      rw [hbeq, ← hsame, hfirst, if_pos rfl]
      rfl
    · have hother : ¬Listing.key ⟨modulePath, source⟩ = key := fun hsame => hkey hsame.symm
      have hbeq : (key == normalizeSourceKey modulePath source) = false := by simpa using hkey
      rw [hbeq, if_neg hother, Option.or_none]
      exact howners key

theorem Planned.addSource (hplanned : Planned state listed) (modulePath : List UInt8)
    (includeDirs cflags : List (List UInt8)) (source : List UInt8) :
    Planned (addSource modulePath includeDirs cflags state source) (listed ++ [⟨modulePath, source⟩]) := by
  cases hfirst : first? listed (Listing.key ⟨modulePath, source⟩) with
  | some first => exact hplanned.addSource_seen includeDirs cflags hfirst
  | none => exact hplanned.addSource_new includeDirs cflags hfirst

end Sources

section Flags

variable {state state' : Planning} {flags : List (List UInt8)}

structure Flagged (state : Planning) (flags : List (List UInt8)) : Prop where
  kept : state.plan.ldflags = flags.eraseDups
  seen : ∀ flag, flag ∈ state.seen.ldflags ↔ flag ∈ flags

/-- With them are those of the libraries that the state knows. -/
structure Linked (state : Planning) (flags : List (List UInt8)) : Prop extends Flagged state flags where
  dirs : ∀ dir ∈ state.seen.libraryDirs, libraryDirFlag dir ∈ flags
  libraries : ∀ linkArg ∈ state.seen.sharedLibraries, linkArg ∈ flags

variable {flag : List UInt8}

theorem Flagged.repeat (hflagged : Flagged state flags) (hflag : flag ∈ flags) :
    Flagged state (flags ++ [flag]) := by
  have hsubset : ∀ value ∈ [flag], value ∈ flags := by simpa using hflag
  refine ⟨?_, fun value => (hflagged.seen value).trans ?_⟩
  · rw [hflagged.kept, eraseDups_append_of_subset hsubset]
  · rw [List.mem_append, or_iff_left_of_imp (hsubset value)]

theorem Flagged.appendUniqueLDFlag (hflagged : Flagged state flags) (flag : List UInt8) :
    Flagged (appendUniqueLDFlag state flag) (flags ++ [flag]) := by
  rw [Binding.appendUniqueLDFlag]
  split_ifs with hseen
  · exact hflagged.repeat ((hflagged.seen flag).mp hseen)
  · have hnew : flag ∉ flags := fun hflag => hseen ((hflagged.seen flag).mpr hflag)
    refine ⟨?_, fun value => ?_⟩
    · rw [eraseDups_concat hnew, ← hflagged.kept]
    · rw [List.mem_cons, hflagged.seen value, List.mem_append, List.mem_singleton, or_comm]

theorem appendUniqueLDFlag_seen (state : Planning) (flag : List UInt8) :
    (appendUniqueLDFlag state flag).seen.libraryDirs = state.seen.libraryDirs ∧
      (appendUniqueLDFlag state flag).seen.sharedLibraries = state.seen.sharedLibraries := by
  rw [appendUniqueLDFlag]
  split_ifs <;> exact ⟨rfl, rfl⟩

theorem Linked.append (hlinked : Linked state flags)
    (hflags : state'.plan.ldflags = state.plan.ldflags)
    (hseen : state'.seen.ldflags = state.seen.ldflags)
    (hdirs : ∀ dir ∈ state'.seen.libraryDirs, dir ∈ state.seen.libraryDirs ∨ libraryDirFlag dir = flag)
    (hlibraries : ∀ linkArg ∈ state'.seen.sharedLibraries,
      linkArg ∈ state.seen.sharedLibraries ∨ linkArg = flag) :
    Linked (appendUniqueLDFlag state' flag) (flags ++ [flag]) := by
  have hflagged : Flagged state' flags :=
    ⟨hflags.trans hlinked.kept, fun value => by rw [hseen, hlinked.seen value]⟩
  obtain ⟨hsameDirs, hsameLibraries⟩ := appendUniqueLDFlag_seen state' flag
  refine ⟨hflagged.appendUniqueLDFlag flag, fun dir hdir => ?_, fun linkArg hlink => ?_⟩
  · rw [hsameDirs] at hdir
    rw [List.mem_append, List.mem_singleton]
    exact (hdirs dir hdir).imp_left (hlinked.dirs dir)
  · rw [hsameLibraries] at hlink
    rw [List.mem_append, List.mem_singleton]
    exact (hlibraries linkArg hlink).imp_left (hlinked.libraries linkArg)

theorem Linked.repeat (hlinked : Linked state flags) (hflag : flag ∈ flags) :
    Linked state (flags ++ [flag]) :=
  ⟨hlinked.toFlagged.repeat hflag, fun dir hdir => List.mem_append_left _ (hlinked.dirs dir hdir),
    fun linkArg hlink => List.mem_append_left _ (hlinked.libraries linkArg hlink)⟩

theorem Linked.appendUniqueLDFlag (hlinked : Linked state flags) (flag : List UInt8) :
    Linked (appendUniqueLDFlag state flag) (flags ++ [flag]) :=
  hlinked.append rfl rfl (fun _ => .inl) fun _ => .inl

theorem Linked.addLibraryDir (hlinked : Linked state flags) (modulePath rawDir : List UInt8) :
    Linked (addLibraryDir modulePath state rawDir)
      (flags ++ [libraryDirFlag (normalizeSourceKey modulePath rawDir)]) := by
  rw [Binding.addLibraryDir]
  split_ifs with hseen
  · exact hlinked.repeat (hlinked.dirs _ hseen)
  · refine hlinked.append rfl rfl (fun dir hdir => ?_) fun _ => .inl
    exact (List.mem_cons.mp hdir).symm.imp_right (congrArg libraryDirFlag)

theorem Linked.addSharedLibrary (hlinked : Linked state flags) (modulePath library : List UInt8) :
    Linked (addSharedLibrary modulePath state library) (flags ++ [sharedLibraryLinkArg modulePath library]) := by
  by_cases hseen : sharedLibraryLinkArg modulePath library ∈ state.seen.sharedLibraries
  · rw [Binding.addSharedLibrary, if_pos hseen]
    exact hlinked.repeat (hlinked.libraries _ hseen)
  · rw [Binding.addSharedLibrary, if_neg hseen]
    exact hlinked.append rfl rfl (fun _ => .inl) fun linkArg hlink => (List.mem_cons.mp hlink).symm

theorem Linked.of_same (hlinked : Linked state flags) (hsame : SameFlags state state') : Linked state' flags := by
  obtain ⟨hflags, hseen, hdirs, hlibraries⟩ := hsame
  obtain ⟨⟨hkept, hknown⟩, hdirFlags, hlinkArgs⟩ := hlinked
  refine ⟨⟨hflags.trans hkept, ?_⟩, ?_, ?_⟩
  · rwa [hseen]
  · rwa [hdirs]
  · rwa [hlibraries]

end Flags

section Modules

variable {quote : List UInt8 → List UInt8} {platform runtimeHeaderDir : List UInt8} {state : Planning}
  {listed : List Listing} {flags : List (List UInt8)}

theorem foldl_grow {σ ι β : Type} {P : σ → List β → Prop} {step : σ → ι → σ} {adds : ι → List β}
    (hstep : ∀ state values item, P state values → P (step state item) (values ++ adds item))
    (items : List ι) {state : σ} {values : List β} (hstate : P state values) :
    P (items.foldl step state) (values ++ items.flatMap adds) := by
  induction items generalizing state values with
  | nil => rwa [List.flatMap_nil, List.append_nil]
  | cons item items ih =>
      rw [List.foldl_cons, List.flatMap_cons, ← List.append_assoc]
      exact ih (hstep state values item hstate)

variable {step : Planning → List UInt8 → Planning}

theorem sameSources_foldl (hstep : ∀ state item, SameSources state (step state item))
    (items : List (List UInt8)) (state : Planning) :
    SameSources state (items.foldl step state) :=
  List.foldlRecOn (motive := SameSources state) items step (sameSources_rfl state)
    fun _ hstate item _ => hstate.trans (hstep _ item)

theorem sameFlags_foldl (hstep : ∀ state item, SameFlags state (step state item))
    (items : List (List UInt8)) (state : Planning) :
    SameFlags state (items.foldl step state) :=
  List.foldlRecOn (motive := SameFlags state) items step (sameFlags_rfl state)
    fun _ hstate item _ => hstate.trans (hstep _ item)

theorem sameBoth_foldl (hstep : ∀ state item, SameBoth state (step state item))
    (items : List (List UInt8)) (state : Planning) :
    SameBoth state (items.foldl step state) :=
  ⟨sameSources_foldl (fun state item => (hstep state item).1) items state,
    sameFlags_foldl (fun state item => (hstep state item).2) items state⟩

theorem sameBoth_files (modulePath : List UInt8) (inputs : BuildInputs) (state : Planning) :
    SameBoth state (inputs.helperAssets.foldl (addHelperAsset modulePath)
      (inputs.runtimeAssets.foldl (addRuntimeAsset modulePath)
        (inputs.licenseFiles.foldl (addLicenseFile modulePath) state))) := by
  have hlicenses := sameBoth_foldl (sameBoth_addLicenseFile modulePath) inputs.licenseFiles state
  have hruntime := sameBoth_foldl (sameBoth_addRuntimeAsset modulePath) inputs.runtimeAssets
    (inputs.licenseFiles.foldl (addLicenseFile modulePath) state)
  have hhelpers := sameBoth_foldl (sameBoth_addHelperAsset modulePath) inputs.helperAssets
    (inputs.runtimeAssets.foldl (addRuntimeAsset modulePath)
      (inputs.licenseFiles.foldl (addLicenseFile modulePath) state))
  exact ⟨(hlicenses.1.trans hruntime.1).trans hhelpers.1, (hlicenses.2.trans hruntime.2).trans hhelpers.2⟩

theorem Planned.addInputs (hplanned : Planned state listed) (runtimeHeaderDir modulePath : List UInt8)
    (inputs : BuildInputs) :
    Planned (addInputs runtimeHeaderDir modulePath inputs state)
      (listed ++ inputs.sources.map (⟨modulePath, ·⟩)) := by
  let includeDirs := includeRuntimeHeader (resolveBindingPaths modulePath inputs.includeDirs) runtimeHeaderDir
  have hsources := foldl_grow (P := Planned)
    (fun _ _ source hstate => hstate.addSource modulePath includeDirs inputs.cflags source) inputs.sources hplanned
  rw [← List.map_eq_flatMap] at hsources
  refine hsources.of_same ?_
  rw [Binding.addInputs]
  refine SameSources.trans ?_ (sameSources_foldl sameSources_appendUniqueLDFlag _ _)
  refine SameSources.trans ?_ (sameBoth_files modulePath inputs _).1
  refine SameSources.trans ?_ (sameSources_foldl (sameSources_addSharedLibrary _) _ _)
  exact sameSources_foldl (sameSources_addLibraryDir _) _ _

theorem Linked.addInputs (hlinked : Linked state flags) (runtimeHeaderDir modulePath : List UInt8)
    (inputs : BuildInputs) :
    Linked (addInputs runtimeHeaderDir modulePath inputs state)
      (flags ++ (inputs.libraryDirs.map (libraryDirFlag ∘ normalizeSourceKey modulePath) ++
        inputs.sharedLibraries.map (sharedLibraryLinkArg modulePath) ++ inputs.ldflags)) := by
  have hsources := hlinked.of_same (sameFlags_foldl (sameFlags_addSource modulePath
    (includeRuntimeHeader (resolveBindingPaths modulePath inputs.includeDirs) runtimeHeaderDir) inputs.cflags)
    inputs.sources state)
  have hdirs := foldl_grow (P := Linked) (fun _ _ rawDir hstate => Linked.addLibraryDir hstate modulePath rawDir)
    inputs.libraryDirs hsources
  have hlibraries := foldl_grow (P := Linked)
    (fun _ _ library hstate => Linked.addSharedLibrary hstate modulePath library) inputs.sharedLibraries hdirs
  have hfiles := hlibraries.of_same (sameBoth_files modulePath inputs _).2
  have hflags := foldl_grow (P := Linked) (fun _ _ flag hstate => Linked.appendUniqueLDFlag hstate flag)
    inputs.ldflags hfiles
  rw [← List.map_eq_flatMap, ← List.map_eq_flatMap, ← List.map_eq_flatMap, List.map_id'] at hflags
  rw [← List.append_assoc, ← List.append_assoc]
  exact hflags

theorem planModule_invalid {module : Module} (hinvalid : ¬module.Valid) (state : Planning) :
    SameBoth state (planModule quote platform runtimeHeaderDir state module) := by
  rw [planModule]
  cases htarget : validateBindingTarget module.path with
  | error error => exact ⟨⟨rfl, rfl, List.prefix_append _ _⟩, ⟨rfl, rfl, rfl, rfl⟩⟩
  | ok _ => exact absurd htarget hinvalid

theorem planModule_valid {module : Module} (hvalid : module.Valid) (state : Planning) :
    planModule quote platform runtimeHeaderDir state module =
      addInputs runtimeHeaderDir module.path (module.inputs platform)
        (addManifest module.path module.manifest state) := by
  have htarget : validateBindingTarget module.path = .ok () := hvalid
  rw [planModule, htarget]
  rfl

theorem same_addManifest (modulePath : List UInt8) (manifest : Manifest) (state : Planning) :
    SameBoth state (addManifest modulePath manifest state) :=
  ⟨⟨rfl, rfl, List.prefix_append _ _⟩, ⟨rfl, rfl, rfl, rfl⟩⟩

theorem Planned.planModule (hplanned : Planned state listed) (quote : List UInt8 → List UInt8)
    (platform runtimeHeaderDir : List UInt8) (module : Module) :
    Planned (planModule quote platform runtimeHeaderDir state module) (listed ++
      if module.Valid then (module.inputs platform).sources.map (⟨module.path, ·⟩) else []) := by
  split_ifs with hvalid
  · rw [planModule_valid hvalid]
    exact (hplanned.of_same (same_addManifest module.path module.manifest state).1).addInputs _ _ _
  · rw [List.append_nil]
    exact hplanned.of_same (planModule_invalid hvalid state).1

theorem Linked.planModule (hlinked : Linked state flags) (quote : List UInt8 → List UInt8)
    (platform runtimeHeaderDir : List UInt8) (module : Module) :
    Linked (planModule quote platform runtimeHeaderDir state module) (flags ++
      if module.Valid then module.flags platform else []) := by
  split_ifs with hvalid
  · rw [planModule_valid hvalid]
    exact (hlinked.of_same (same_addManifest module.path module.manifest state).2).addInputs _ _ _
  · rw [List.append_nil]
    exact hlinked.of_same (planModule_invalid hvalid state).2

theorem sourcesOwned_planBuild (quote : List UInt8 → List UInt8) (platform runtimeHeaderDir : List UInt8)
    (modules : List Module) :
    SourcesOwned (listings platform modules) (planBuild quote platform runtimeHeaderDir modules) := by
  have hstart : Planned { plan := { runtimeHeaderDir } } [] :=
    ⟨⟨by simp, List.nodup_nil, by simp, List.nil_sublist _⟩, fun _ => rfl⟩
  have hplanned := foldl_grow (P := Planned)
    (fun _ _ module hstate => hstate.planModule quote platform runtimeHeaderDir module) modules hstart
  exact hplanned.sound

theorem planBuild_ldflags (quote : List UInt8 → List UInt8) (platform runtimeHeaderDir : List UInt8)
    (modules : List Module) :
    (planBuild quote platform runtimeHeaderDir modules).ldflags = (contributed platform modules).eraseDups := by
  have hstart : Linked { plan := { runtimeHeaderDir } } [] := ⟨⟨rfl, by simp⟩, by simp, by simp⟩
  have hlinked := foldl_grow (P := Linked)
    (fun _ _ module hstate => hstate.planModule quote platform runtimeHeaderDir module) modules hstart
  exact hlinked.kept

end Modules

section Plans

variable (quote : List UInt8 → List UInt8) (platform runtimeHeaderDir : List UInt8)
  (separate : List UInt8 → Prop) [DecidablePred separate]

/-- A plan compiles every source once, for the first module that lists it, and reports the others. It keeps the
arguments of options just when nothing new comes between an option and its argument when they are first used. -/
theorem planBuild_keeps_iff (modules : List Module) :
    (SourcesOwned (listings platform modules) (planBuild quote platform runtimeHeaderDir modules) ∧
      FlagsKept platform separate modules (planBuild quote platform runtimeHeaderDir modules)) ↔
      FlagsTogether platform separate modules := by
  rw [and_iff_right (sourcesOwned_planBuild quote platform runtimeHeaderDir modules), FlagsKept, FlagsTogether,
    planBuild_ldflags]
  simp only [infix_eraseDups_iff]

/-- The flags `-framework Cocoa -framework WebKit`. -/
def frameworkFlags : List (List UInt8) :=
  [text "-framework", text "Cocoa", text "-framework", text "WebKit"]

def frameworkModule : Module where
  path := text "a.js"
  manifest := { ldflags := frameworkFlags }

theorem valid_frameworkModule : frameworkModule.Valid := by
  have hplain : ∀ byte ∈ text "a.js", White.Plain byte := by
    simp only [White.Plain]
    decide +kernel
  have htrim : White.trimSpace (text "a.js") = text "a.js" := White.trimSpace_eq_self hplain (by decide)
  rw [Module.Valid, validateBindingTarget, frameworkModule, htrim]
  rfl

/-- The second framework is no argument any more. -/
theorem not_flagsKept_frameworkModule :
    ¬(SourcesOwned (listings [] [frameworkModule]) (planBuild id [] [] [frameworkModule]) ∧
      FlagsKept [] (· = text "-framework") [frameworkModule] (planBuild id [] [] [frameworkModule])) := by
  rintro ⟨-, hkept⟩
  have hpair := hkept frameworkModule (List.mem_singleton_self _) valid_frameworkModule
    (text "-framework", text "WebKit") (by decide)
  have hflags : contributed [] [frameworkModule] = frameworkFlags := by
    rw [contributed, List.flatMap_singleton, if_pos valid_frameworkModule]
    rfl
  rw [planBuild_ldflags, hflags] at hpair
  revert hpair
  decide

end Plans

end Jayess.Binding
