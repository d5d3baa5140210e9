import Jayess.Resolver.PackageFile

/-!
# Where package imports lead
-/

namespace Jayess.Resolver

open SlashPath

section Spec

variable (files : FileSystem) (unmarshal : List UInt8 → Except String PackageJSON)

def packageDirectory (name : List UInt8) (directory : List (List UInt8)) : List UInt8 :=
  root (directory ++ [nodeModules]) ++ slash :: name

def HasPackage (name : List UInt8) (directory : List (List UInt8)) : Prop :=
  files.stat (packageDirectory name directory) = some true

structure Nearest (name : List UInt8) (way directory : List (List UInt8)) : Prop where
  on : directory <+: way
  has : HasPackage files name directory
  longest : ∀ longer, longer <+: way → directory.length < longer.length → ¬HasPackage files name longer

/-- The file of an import is below the nearest directory of its package and has the extension of a module. -/
def ImportContained (startDir importPath : List UInt8) : Prop :=
  ∀ file, resolvePackageImport files unmarshal startDir importPath = .ok file →
    (∃ directory, Nearest files (splitPackageImport importPath).1 (elements startDir) directory ∧
      Below (packageDirectory (splitPackageImport importPath).1 directory) file) ∧
    toLower (ext file) = jsSuffix

/-- A start directory that ends in a parent element, where the directory before it has a package that the
directory itself has not: the first step up leads to the directory before it. -/
structure Strays (name startDir : List UInt8) (directory : List (List UInt8)) : Prop where
  ends : ∃ before, startDir = before ++ slash :: dotdot ∧ directory = elements (before ++ [slash])
  has : HasPackage files name directory
  lacks : ¬HasPackage files name (elements startDir)

/-- No import of a package names a file without an extension, and the directory before a parent element at the
end of the start directory gives no file, unless it is itself in the nearest directory of the package. -/
def ImportSound (startDir importPath : List UInt8) : Prop :=
  validatePackageImportPath importPath = .ok () →
    (∀ directory, Nearest files (splitPackageImport importPath).1 (elements startDir) directory →
      (∀ before, ¬Strays files (splitPackageImport importPath).1 startDir before) →
        ¬NamesBare files unmarshal (packageDirectory (splitPackageImport importPath).1 directory)
          (splitPackageImport importPath).2) ∧
    ∀ before, Strays files (splitPackageImport importPath).1 startDir before →
      Provides files unmarshal (packageDirectory (splitPackageImport importPath).1 before)
        (splitPackageImport importPath).2 →
        (∃ directory, Nearest files (splitPackageImport importPath).1 (elements startDir) directory ∧
          Below (packageDirectory (splitPackageImport importPath).1 directory)
            (packageDirectory (splitPackageImport importPath).1 before)) ∧
        ¬NamesBare files unmarshal (packageDirectory (splitPackageImport importPath).1 before)
          (splitPackageImport importPath).2

end Spec

section Names

variable {importPath name : List UInt8} {parts directory : List (List UInt8)}

theorem relative_of_valid (hvalid : validatePackageImportPath importPath = .ok ()) : Relative importPath := by
  rw [validatePackageImportPath] at hvalid
  split_ifs at hvalid with _ _ _ _ _ _ hparts
  exact relative_of_checked hparts

theorem relative_unite (hparts : ∀ part ∈ parts, Plain part) (hne : parts ≠ []) : Relative (unite parts) := by
  intro part hpart
  rw [split_unite hne, flatMap_split fun part hpart => (hparts part hpart).not_slash] at hpart
  exact hparts part hpart

theorem relative_split (hvalid : validatePackageImportPath importPath = .ok ()) :
    Relative (splitPackageImport importPath).1 ∧
      ((splitPackageImport importPath).2 = [] ∨ Relative (splitPackageImport importPath).2) := by
  have hrelative := relative_of_valid hvalid
  have hne := split_ne_nil importPath
  have htake : ∀ count, ∀ part ∈ (Lines.split slash importPath).take count, Plain part :=
    fun count part hpart => hrelative part (List.mem_of_mem_take hpart)
  have hdrop : ∀ count, ∀ part ∈ (Lines.split slash importPath).drop count, Plain part :=
    fun count part hpart => hrelative part (List.mem_of_mem_drop hpart)
  have hrest : ∀ count, unite ((Lines.split slash importPath).drop count) = [] ∨
      Relative (unite ((Lines.split slash importPath).drop count)) := by
    intro count
    by_cases hnil : (Lines.split slash importPath).drop count = []
    · exact .inl (by rw [hnil]; rfl)
    · exact .inr (relative_unite (hdrop count) hnil)
  rw [splitPackageImport]
  split_ifs with hscope hshort hsingle
  · exact ⟨hrelative, .inl rfl⟩
  · exact ⟨relative_unite (htake 2) (by simpa using hne), hrest 2⟩
  · exact ⟨hrelative, .inl rfl⟩
  · refine ⟨?_, hrest 1⟩
    obtain ⟨part, rest, hsplit⟩ := List.exists_cons_of_ne_nil hne
    have hpart : Plain part := hrelative part (hsplit ▸ List.mem_cons_self)
    rw [hsplit, List.headI_cons, Relative, Lines.split_eq_singleton hpart.not_slash]
    simpa using hpart

theorem plain_nodeModules : Plain nodeModules := ⟨by decide, by decide, by decide, by decide⟩

theorem packageDirectory_eq (name : List UInt8) (directory : List (List UInt8)) :
    packageDirectory name directory = root (directory ++ nodeModules :: Lines.split slash name) := by
  have happend := @root_append (directory ++ [nodeModules]) (Lines.split slash name) (by simp) (split_ne_nil name)
  rw [unite_split, List.append_assoc, List.singleton_append] at happend
  rw [packageDirectory, happend]

theorem plain_package (hdirectory : ∀ part ∈ directory, Plain part) (hname : Relative name) :
    ∀ part ∈ directory ++ nodeModules :: Lines.split slash name, Plain part := by
  intro part hpart
  rcases List.mem_append.mp hpart with hpart | hpart
  · exact hdirectory part hpart
  rcases List.mem_cons.mp hpart with rfl | hpart
  · exact plain_nodeModules
  · exact hname part hpart

theorem cleaned_package (hdirectory : ∀ part ∈ directory, Plain part) (hname : Relative name) :
    Cleaned (packageDirectory name directory) :=
  ⟨_, by simp, plain_package hdirectory hname, packageDirectory_eq name directory⟩

theorem join_package {path : List UInt8} (habs : isAbs path = true) (hname : Relative name) :
    join [path, nodeModules, name] = packageDirectory name (elements path) := by
  have hflat : [nodeModules, name].flatMap (Lines.split slash) = nodeModules :: Lines.split slash name := by
    rw [List.flatMap_cons, List.flatMap_singleton, Lines.split_eq_singleton plain_nodeModules.not_slash]
    rfl
  have hplain : ∀ part ∈ nodeModules :: Lines.split slash name, Plain part :=
    List.forall_mem_cons.mpr ⟨plain_nodeModules, hname⟩
  rw [join_eq habs (by simp), hflat, foldl_push hplain, packageDirectory_eq]

end Names

section Below

variable {name file outer inner : List UInt8} {near far : List (List UInt8)}

theorem Below.trans (houter : Below outer inner) (hinner : Below inner file) : Below outer file := by
  obtain ⟨sub, hsub, rfl⟩ := houter
  obtain ⟨rest, hrest, rfl⟩ := hinner
  exact ⟨sub ++ slash :: rest, hsub.append hrest, by rw [List.append_assoc, List.cons_append]⟩

theorem elements_below (hfar : ∀ part ∈ far, Plain part) {sub : List UInt8} (hsub : Relative sub) :
    elements (root far ++ slash :: sub) = far ++ Lines.split slash sub := by
  rw [elements_append rfl, elements_root hfar, foldl_push hsub]

theorem below_package (hnear : ∀ part ∈ near, Plain part) (hfar : ∀ part ∈ far, Plain part) (hname : Relative name)
    (hlength : near.length < far.length) (hboth : Below (packageDirectory name near) file)
    (hfile : Below (packageDirectory name far) file) :
    Below (packageDirectory name near) (packageDirectory name far) := by
  rw [packageDirectory_eq] at hboth hfile ⊢
  rw [packageDirectory_eq]
  obtain ⟨sub, hsub, rfl⟩ := hboth
  obtain ⟨rest, hrest, heq⟩ := hfile
  have hnearPlain := plain_package hnear hname
  have hfarPlain := plain_package hfar hname
  have hsame : (near ++ nodeModules :: Lines.split slash name) ++ Lines.split slash sub =
      (far ++ nodeModules :: Lines.split slash name) ++ Lines.split slash rest := by
    rw [← elements_below hnearPlain hsub, heq, elements_below hfarPlain hrest]
  have hprefix :
      near ++ nodeModules :: Lines.split slash name <+: far ++ nodeModules :: Lines.split slash name := by
    refine List.prefix_of_prefix_length_le ⟨_, hsame⟩ (List.prefix_append _ _) ?_
    rw [List.length_append, List.length_append]
    omega
  obtain ⟨others, hothers⟩ := hprefix
  have hne : others ≠ [] := by
    rintro rfl
    have hcount := congrArg List.length hothers
    simp only [List.length_append, List.length_nil] at hcount
    omega
  have hplain : ∀ part ∈ others, Plain part := by
    intro part hpart
    refine hfarPlain part ?_
    rw [← hothers]
    exact List.mem_append_right _ hpart
  exact ⟨unite others, relative_unite hplain hne, by rw [← hothers, root_append (by simp) hne]⟩

end Below

section Walk

variable {files : FileSystem} {unmarshal : List UInt8 → Except String PackageJSON}
  {name subpath importPath startDir path element : List UInt8} {parts directory : List (List UInt8)}

theorem nearest_self (hhas : HasPackage files name parts) : Nearest files name parts parts :=
  ⟨List.prefix_rfl, hhas, fun _ hlonger hlength => absurd hlonger.length_le (Nat.not_le.mpr hlength)⟩

theorem Nearest.unique {other : List (List UInt8)} (hnearest : Nearest files name parts directory)
    (hother : Nearest files name parts other) : directory = other := by
  have hlength : directory.length = other.length := by
    refine le_antisymm (Nat.le_of_not_lt fun hlt => ?_) (Nat.le_of_not_lt fun hlt => ?_)
    · exact hother.longest directory hnearest.on hlt hnearest.has
    · exact hnearest.longest other hother.on hlt hother.has
  exact (List.prefix_of_prefix_length_le hnearest.on hother.on hlength.le).eq_of_length hlength

theorem nearest_concat (hlacks : ¬HasPackage files name (parts ++ [element])) :
    Nearest files name (parts ++ [element]) directory ↔ Nearest files name parts directory := by
  constructor
  · rintro ⟨hon, hhas, hlongest⟩
    refine ⟨?_, hhas, fun longer hlonger => hlongest longer (hlonger.trans (List.prefix_append _ _))⟩
    refine (List.prefix_concat_iff.mp hon).resolve_left ?_
    rintro rfl
    exact hlacks hhas
  · rintro ⟨hon, hhas, hlongest⟩
    refine ⟨hon.trans (List.prefix_append _ _), hhas, fun longer hlonger hlength => ?_⟩
    rcases List.prefix_concat_iff.mp hlonger with rfl | hlonger
    · exact hlacks
    · exact hlongest longer hlonger hlength

theorem resolvePackageImportLoop_has (habs : isAbs path = true) (hname : Relative name)
    (hhas : HasPackage files name (elements path)) (rounds : Nat) :
    resolvePackageImportLoop files unmarshal name subpath importPath (rounds + 1) path =
      resolvePackageTarget files unmarshal (packageDirectory name (elements path)) subpath importPath := by
  have hstat : files.stat (packageDirectory name (elements path)) = some true := hhas
  simp only [resolvePackageImportLoop, join_package habs hname, if_pos hstat]

theorem resolvePackageImportLoop_lacks (habs : isAbs path = true) (hname : Relative name)
    (hlacks : ¬HasPackage files name (elements path)) (rounds : Nat) :
    resolvePackageImportLoop files unmarshal name subpath importPath (rounds + 1) path =
      if dir path = path then .error (.notFound importPath)
      else resolvePackageImportLoop files unmarshal name subpath importPath rounds (dir path) := by
  have hstat : files.stat (packageDirectory name (elements path)) ≠ some true := hlacks
  simp only [resolvePackageImportLoop, join_package habs hname, if_neg hstat]

theorem eq_nil_of_dir_root (hparts : ∀ part ∈ parts, Plain part) (hdir : dir (root parts) = root parts) :
    parts = [] := by
  obtain rfl | ⟨front, last, rfl⟩ := List.eq_nil_or_concat parts
  · rfl
  rw [List.concat_eq_append] at hparts hdir
  have hfront : ∀ part ∈ front, Plain part := fun part hpart => hparts part (List.mem_append_left _ hpart)
  have hlast : Plain last := hparts last (List.mem_append_right _ (List.mem_singleton_self _))
  rw [dir_root hfront hlast.not_slash] at hdir
  have hcount := congrArg (List.length ∘ elements) hdir
  simp only [Function.comp_apply, elements_root hfront, elements_root hparts, List.length_append] at hcount
  simp at hcount

theorem resolvePackageImportLoop_root (hname : Relative name) (hparts : ∀ part ∈ parts, Plain part)
    {rounds : Nat} (hrounds : parts.length < rounds) :
    (∃ directory, Nearest files name parts directory ∧
      resolvePackageImportLoop files unmarshal name subpath importPath rounds (root parts) =
        resolvePackageTarget files unmarshal (packageDirectory name directory) subpath importPath) ∨
    ((∀ directory, ¬Nearest files name parts directory) ∧
      resolvePackageImportLoop files unmarshal name subpath importPath rounds (root parts) =
        .error (.notFound importPath)) := by
  induction parts using List.reverseRecOn generalizing rounds with
  | nil =>
      obtain ⟨rounds, rfl⟩ := Nat.exists_eq_succ_of_ne_zero (Nat.ne_zero_of_lt hrounds)
      by_cases hhas : HasPackage files name []
      · exact .inl ⟨[], nearest_self hhas, resolvePackageImportLoop_has rfl hname hhas rounds⟩
      · refine .inr ⟨?_, ?_⟩
        · rintro directory ⟨hon, hfound, -⟩
          rw [List.prefix_nil] at hon
          exact hhas (hon ▸ hfound)
        · exact (resolvePackageImportLoop_lacks rfl hname hhas rounds).trans (if_pos dir_root_nil)
  | append_singleton parts element ih =>
      obtain ⟨rounds, rfl⟩ := Nat.exists_eq_succ_of_ne_zero (Nat.ne_zero_of_lt hrounds)
      have helements := elements_root hparts
      have hfront : ∀ part ∈ parts, Plain part := fun part hpart => hparts part (List.mem_append_left _ hpart)
      have hlast : Plain element := hparts element (List.mem_append_right _ (List.mem_singleton_self _))
      have hdir := dir_root hfront hlast.not_slash
      by_cases hhas : HasPackage files name (parts ++ [element])
      · refine .inl ⟨_, nearest_self hhas, ?_⟩
        rw [Nat.succ_eq_add_one, resolvePackageImportLoop_has rfl hname (helements.symm ▸ hhas), helements]
      · have hup : root parts ≠ root (parts ++ [element]) := by
          intro hsame
          have hnil := eq_nil_of_dir_root hparts (hdir.trans hsame)
          simp at hnil
        have hwalk := @resolvePackageImportLoop_lacks files unmarshal name subpath importPath
          (root (parts ++ [element])) rfl hname (helements.symm ▸ hhas) rounds
        rw [hdir, if_neg hup] at hwalk
        simp only [Nat.succ_eq_add_one, hwalk, nearest_concat hhas]
        refine ih hfront ?_
        rw [List.length_append, List.length_singleton] at hrounds
        omega

theorem elements_cases {before : List UInt8} (habs : isAbs (before ++ slash :: element) = true)
    (helement : slash ∉ element) :
    elements (before ++ slash :: element) = elements (before ++ [slash]) ∨
      (element = dotdot ∧ ∃ last,
        elements (before ++ [slash]) = elements (before ++ slash :: element) ++ [last]) ∨
      (element ≠ dotdot ∧
        elements (before ++ slash :: element) = elements (before ++ [slash]) ++ [element]) := by
  obtain ⟨-, hplain, hpush⟩ := dir_eq habs helement
  rw [hpush, push]
  split_ifs with hskip hparent hroot htrue
  · exact .inl rfl
  · exact .inl rfl
  · exact absurd rfl htrue
  · have hne := (not_or.mp hroot).1
    refine .inr (.inl ⟨hparent, (elements (before ++ [slash])).getLast hne, ?_⟩)
    rw [List.dropLast_append_getLast]
  · exact .inr (.inr ⟨hparent, rfl⟩)

theorem strays_iff {before : List UInt8} (habs : isAbs (before ++ slash :: element) = true)
    (helement : slash ∉ element) :
    Strays files name (before ++ slash :: element) directory ↔
      element = dotdot ∧ directory = elements (before ++ [slash]) ∧ HasPackage files name directory ∧
        ¬HasPackage files name (elements (before ++ slash :: element)) := by
  constructor
  · rintro ⟨⟨other, hsame, hdirectory⟩, hhas, hlacks⟩
    have hreverse := congrArg List.reverse hsame
    simp only [List.reverse_append, List.reverse_cons, List.append_assoc, List.singleton_append] at hreverse
    have hfirst := @Lines.cut_eq slash element.reverse before.reverse (by simpa using helement)
    have hsecond := @Lines.cut_eq slash dotdot.reverse other.reverse (by decide)
    have hlast : element = dotdot := by
      rw [← List.reverse_inj, ← hfirst.1, hreverse, hsecond.1]
    have hbefore : before = other := by
      rw [hlast] at hsame
      exact List.append_cancel_right hsame
    exact ⟨hlast, by rw [hdirectory, hbefore], hhas, hlacks⟩
  · rintro ⟨rfl, hdirectory, hhas, hlacks⟩
    exact ⟨⟨before, rfl, hdirectory⟩, hhas, hlacks⟩

theorem Strays.unique {other : List (List UInt8)} (habs : isAbs startDir = true)
    (hstrays : Strays files name startDir directory) (hother : Strays files name startDir other) :
    directory = other := by
  obtain ⟨before, element, rfl, helement⟩ := exists_last habs
  rw [strays_iff habs helement] at hstrays hother
  rw [hstrays.2.1, hother.2.1]

theorem Strays.longer (habs : isAbs startDir = true) (hstrays : Strays files name startDir directory) :
    (∀ part ∈ directory, Plain part) ∧ (elements startDir).length < directory.length := by
  obtain ⟨before, element, rfl, helement⟩ := exists_last habs
  obtain ⟨hlast, rfl, hhas, hlacks⟩ := (strays_iff habs helement).mp hstrays
  refine ⟨(dir_eq habs helement).2.1, ?_⟩
  rcases elements_cases habs helement with hsame | ⟨-, last, hbefore⟩ | ⟨hparent, -⟩
  · exact absurd (hsame ▸ hhas) hlacks
  · rw [hbefore, List.length_append]
    exact Nat.lt_succ_self _
  · exact absurd hlast hparent

theorem resolvePackageImportLoop_cases (habs : isAbs startDir = true) (hname : Relative name) :
    (∃ directory, Nearest files name (elements startDir) directory ∧
      (∀ before, ¬Strays files name startDir before) ∧
      resolvePackageImportLoop files unmarshal name subpath importPath (startDir.length + 1) startDir =
        resolvePackageTarget files unmarshal (packageDirectory name directory) subpath importPath) ∨
    (∃ before, Strays files name startDir before ∧
      resolvePackageImportLoop files unmarshal name subpath importPath (startDir.length + 1) startDir =
        resolvePackageTarget files unmarshal (packageDirectory name before) subpath importPath) ∨
    ((∀ directory, ¬Nearest files name (elements startDir) directory) ∧
      (∀ before, ¬Strays files name startDir before) ∧
      resolvePackageImportLoop files unmarshal name subpath importPath (startDir.length + 1) startDir =
        .error (.notFound importPath)) := by
  obtain ⟨before, element, rfl, helement⟩ := exists_last habs
  by_cases hhas : HasPackage files name (elements (before ++ slash :: element))
  · refine .inl ⟨_, nearest_self hhas, fun other hstrays => hstrays.lacks hhas, ?_⟩
    exact resolvePackageImportLoop_has habs hname hhas _
  obtain ⟨hdir, hplain, -⟩ := dir_eq habs helement
  have hwalk := @resolvePackageImportLoop_lacks files unmarshal name subpath importPath _ habs hname hhas
    (before ++ slash :: element).length
  rw [hdir] at hwalk
  by_cases hstop : root (elements (before ++ [slash])) = before ++ slash :: element
  · have hsame : elements (before ++ slash :: element) = elements (before ++ [slash]) := by
      rw [← hstop, elements_root hplain]
    have hnil : elements (before ++ [slash]) = [] := eq_nil_of_dir_root hplain (by rw [hstop, hdir, hstop])
    rw [if_pos hstop] at hwalk
    refine .inr (.inr ⟨?_, fun other hstrays => ?_, hwalk⟩)
    · rintro directory ⟨hon, hfound, -⟩
      rw [hsame, hnil, List.prefix_nil] at hon
      rw [hsame, hnil, ← hon] at hhas
      exact hhas hfound
    · rw [strays_iff habs helement] at hstrays
      exact hhas (hsame ▸ hstrays.2.1 ▸ hstrays.2.2.1)
  have hnext := @resolvePackageImportLoop_root files unmarshal name subpath importPath _ hname hplain _
    (length_elements_parent habs)
  rw [if_neg hstop] at hwalk
  rw [hwalk]
  -- Unless the next directory strays, the walk goes on among the directories above the path.
  by_cases hstrays : ∃ other, Strays files name (before ++ slash :: element) other
  · obtain ⟨other, hother⟩ := hstrays
    have hfound := (strays_iff habs helement).mp hother
    rw [hfound.2.1] at hother hfound
    refine .inr (.inl ⟨_, hother, ?_⟩)
    rcases hnext with ⟨directory, hnearest, hresult⟩ | ⟨hnone, -⟩
    · rw [hresult, hnearest.unique (nearest_self hother.has)]
    · exact absurd (nearest_self hother.has) (hnone _)
  have hsame : ∀ directory, Nearest files name (elements (before ++ slash :: element)) directory ↔
      Nearest files name (elements (before ++ [slash])) directory := by
    intro directory
    rcases elements_cases habs helement with hsame | ⟨hparent, last, hbefore⟩ | ⟨-, hlonger⟩
    · rw [hsame]
    · have hlacks : ¬HasPackage files name (elements (before ++ [slash])) :=
        fun hlast => hstrays ⟨_, (strays_iff habs helement).mpr ⟨hparent, rfl, hlast, hhas⟩⟩
      rw [hbefore] at hlacks ⊢
      exact (nearest_concat hlacks).symm
    · rw [hlonger] at hhas ⊢
      exact nearest_concat hhas
  rw [not_exists] at hstrays
  simp only [hsame]
  exact hnext.imp (fun ⟨directory, hnearest, hresult⟩ => ⟨directory, hnearest, hstrays, hresult⟩)
    fun ⟨hnone, hresult⟩ => .inr ⟨hnone, hstrays, hresult⟩

theorem resolvePackageImport_of_valid (habs : isAbs startDir = true)
    (hvalid : validatePackageImportPath importPath = .ok ()) :
    resolvePackageImport files unmarshal startDir importPath =
      resolvePackageImportLoop files unmarshal (splitPackageImport importPath).1 (splitPackageImport importPath).2
        importPath (startDir.length + 1) startDir := by
  have hne : startDir ≠ [] := by
    rintro rfl
    cases habs
  rw [resolvePackageImport, if_neg hne, hvalid]
  rfl

theorem resolvePackageImport_valid {file : List UInt8}
    (hfile : resolvePackageImport files unmarshal startDir importPath = .ok file) :
    validatePackageImportPath importPath = .ok () := by
  rw [resolvePackageImport] at hfile
  split_ifs at hfile
  cases hvalid : validatePackageImportPath importPath with
  | ok _ => rfl
  | error error =>
      rw [hvalid] at hfile
      cases hfile

end Walk

section Containment

variable {files : FileSystem} {unmarshal : List UInt8 → Except String PackageJSON}
  {startDir importPath : List UInt8}

/-- The file of a package import is in the nearest directory of its package and has the extension of a module
just when the import names no file without one and no parent element at the end of the start directory leads
elsewhere. -/
theorem importContained_iff (habs : isAbs startDir = true) :
    ImportContained files unmarshal startDir importPath ↔ ImportSound files unmarshal startDir importPath := by
  by_cases hvalid : validatePackageImportPath importPath = .ok ()
  swap
  · exact iff_of_true (fun file hfile => absurd (resolvePackageImport_valid hfile) hvalid)
      fun hok => absurd hok hvalid
  obtain ⟨hname, hsub⟩ := relative_split hvalid
  rw [ImportContained, resolvePackageImport_of_valid habs hvalid, ImportSound, imp_iff_right hvalid]
  have hplain := plain_elements habs
  rcases @resolvePackageImportLoop_cases files unmarshal _ (splitPackageImport importPath).2 importPath _ habs
    hname with ⟨directory, hnearest, hstrays, hresult⟩ | ⟨before, hstrays, hresult⟩ | ⟨hnone, hstrays, hresult⟩
  · have hdirectory : ∀ part ∈ directory, Plain part := fun part hpart => hplain part (hnearest.on.subset hpart)
    have hpackage := cleaned_package hdirectory hname
    have hextension := @resolvePackageTarget_extension_iff files unmarshal _ _ importPath hpackage hsub
    rw [hresult]
    constructor
    · intro hall
      refine ⟨fun other hother _ => ?_, fun before hbefore => absurd hbefore (hstrays before)⟩
      rw [hother.unique hnearest]
      exact hextension.mp fun file hfile => (hall file hfile).2
    · rintro ⟨hbare, -⟩ file hfile
      exact ⟨⟨directory, hnearest, resolvePackageTarget_below hpackage hsub hfile⟩,
        hextension.mpr (hbare directory hnearest hstrays) file hfile⟩
  · obtain ⟨hbefore, hlonger⟩ := hstrays.longer habs
    have hpackage := cleaned_package hbefore hname
    have hextension := @resolvePackageTarget_extension_iff files unmarshal _ _ importPath hpackage hsub
    rw [hresult]
    constructor
    · intro hall
      refine ⟨fun _ _ hnone => absurd hstrays (hnone before), fun other hother hprovides => ?_⟩
      rw [hother.unique habs hstrays] at hprovides ⊢
      obtain ⟨file, hfile⟩ := (resolvePackageTarget_ok_iff hpackage hsub).mpr hprovides
      obtain ⟨directory, hnearest, hbelow⟩ := (hall file hfile).1
      have hdirectory : ∀ part ∈ directory, Plain part := fun part hpart => hplain part (hnearest.on.subset hpart)
      have hshorter : directory.length < before.length := hnearest.on.length_le.trans_lt hlonger
      refine ⟨⟨directory, hnearest, ?_⟩, hextension.mp fun file hfile => (hall file hfile).2⟩
      exact below_package hdirectory hbefore hname hshorter hbelow (resolvePackageTarget_below hpackage hsub hfile)
    · rintro ⟨-, hsound⟩ file hfile
      obtain ⟨⟨directory, hnearest, hbelow⟩, hbare⟩ :=
        hsound before hstrays ((resolvePackageTarget_ok_iff hpackage hsub).mp ⟨file, hfile⟩)
      exact ⟨⟨directory, hnearest, hbelow.trans (resolvePackageTarget_below hpackage hsub hfile)⟩,
        hextension.mpr hbare file hfile⟩
  · rw [hresult]
    exact iff_of_true (fun file hfile => by cases hfile)
      ⟨fun directory hnearest => absurd hnearest (hnone directory),
        fun before hbefore => absurd hbefore (hstrays before)⟩

/-- A package `p` in the root with a file `a`. -/
def bareFiles : FileSystem where
  stat path :=
    if path = packageDirectory [0x70] [] then some true
    else if path = packageDirectory [0x70] [] ++ [slash, 0x61] then some false
    else none
  readFile _ := .error .notExist
  getwd := none

theorem importContained_iff_bareFiles :
    ImportContained bareFiles (fun _ => .error "") [slash] [0x70, 0x2F, 0x61] ↔
      ImportSound bareFiles (fun _ => .error "") [slash] [0x70, 0x2F, 0x61] :=
  importContained_iff rfl

theorem valid_bareImport : validatePackageImportPath [0x70, 0x2F, 0x61] = .ok () := by
  have hplain : ∀ byte ∈ ([0x70, 0x2F, 0x61] : List UInt8), White.Plain byte := by
    simp only [White.Plain]
    decide +kernel
  have htrim : White.trimSpace [0x70, 0x2F, 0x61] = [0x70, 0x2F, 0x61] := White.trimSpace_eq_self hplain (by simp)
  rw [validatePackageImportPath, htrim]
  rfl

/-- The import `p/a` leads to a file without an extension. -/
theorem not_importContained_bareImport :
    isAbs [slash] = true ∧ ¬ImportContained bareFiles (fun _ => .error "") [slash] [0x70, 0x2F, 0x61] := by
  refine ⟨rfl, fun hcontained => ?_⟩
  have hfile : resolvePackageImport bareFiles (fun _ => .error "") [slash] [0x70, 0x2F, 0x61] =
      .ok (packageDirectory [0x70] [] ++ [slash, 0x61]) := by
    rw [resolvePackageImport_of_valid rfl valid_bareImport]
    rfl
  have hextension := (hcontained _ hfile).2
  revert hextension
  decide

end Containment

end Jayess.Resolver
