import Mathlib.Data.Option.Basic
import Jayess.Runtime.Linkage

/-!
# The pointers follow the linkage
-/

namespace Jayess.Runtime

variable {Module α : Type} [DecidableEq Module]

def Collection.Points (collection : Collection Module α) (pointer : Nat) : Origin Module → Prop
  | .variableOf module name => collection.pointer (.definition module name) = some pointer
  | .namespaceOf _ => ∀ module name, collection.pointer (.definition module name) ≠ some pointer

def Collection.Reads (collection : Collection Module α) (linkage : Linkage Module α) (pointer : Nat)
    (origin : Origin Module) : Prop :=
  ∀ path, ((collection.valueAt pointer).getD .undefined).observe path = linkage.reads origin path

structure Linked (collection : Collection Module α) (linkage : Linkage Module α) : Prop where
  points : ∀ reference, Option.Rel collection.Points (collection.pointer reference)
    (linkage.origin reference)
  value : ∀ module name pointer, collection.pointer (.definition module name) = some pointer →
    collection.valueAt pointer = linkage.value module name
  distinct : ∀ module name other used pointer,
    collection.pointer (.definition module name) = some pointer →
    collection.pointer (.definition other used) = some pointer → module = other ∧ name = used
  allocated : ∀ reference pointer, collection.pointer reference = some pointer →
    pointer < collection.bindings.length
  order : ∀ module, (collection.modules module).exports.order = linkage.exportNames module

namespace Linked

variable {collection : Collection Module α} {linkage : Linkage Module α}

omit [DecidableEq Module] in
theorem new : Linked (Collection.new : Collection Module α) Linkage.new where
  points reference := by cases reference <;> exact .none
  value _ _ _ hpointer := by cases hpointer
  distinct _ _ _ _ _ hpointer := by cases hpointer
  allocated reference _ hpointer := by cases reference <;> cases hpointer
  order _ := rfl

omit [DecidableEq Module] in
theorem reads_variableOf (hlinked : Linked collection linkage) {pointer : Nat} {module : Module}
    {name : String} (hpoints : collection.Points pointer (.variableOf module name)) :
    collection.Reads linkage pointer (.variableOf module name) := by
  intro path
  rw [hlinked.value module name pointer hpoints, Linkage.reads]

variable {reference : Reference Module}

omit [DecidableEq Module] in
theorem origin_of_pointer (hlinked : Linked collection linkage) {pointer : Nat}
    (hpointer : collection.pointer reference = some pointer) :
    ∃ origin, linkage.origin reference = some origin ∧ collection.Points pointer origin := by
  have hrel := hlinked.points reference
  rw [hpointer] at hrel
  cases horigin : linkage.origin reference with
  | none =>
    rw [horigin] at hrel
    cases hrel
  | some origin =>
    rw [horigin] at hrel
    cases hrel with
    | some hpoints => exact ⟨origin, rfl, hpoints⟩

omit [DecidableEq Module] in
theorem pointer_of_origin (hlinked : Linked collection linkage) {origin : Origin Module}
    (horigin : linkage.origin reference = some origin) :
    ∃ pointer, collection.pointer reference = some pointer ∧ collection.Points pointer origin := by
  have hrel := hlinked.points reference
  rw [horigin] at hrel
  cases hpointer : collection.pointer reference with
  | none =>
    rw [hpointer] at hrel
    cases hrel
  | some pointer =>
    rw [hpointer] at hrel
    cases hrel with
    | some hpoints => exact ⟨pointer, rfl, hpoints⟩

omit [DecidableEq Module] in
theorem pointer_eq_none (hlinked : Linked collection linkage) :
    collection.pointer reference = none ↔ linkage.origin reference = none := by
  constructor
  · intro hpointer
    by_contra hsome
    obtain ⟨origin, horigin⟩ := Option.ne_none_iff_exists'.mp hsome
    obtain ⟨pointer, hpoints, -⟩ := hlinked.pointer_of_origin horigin
    rw [hpointer] at hpoints
    cases hpoints
  · intro horigin
    by_contra hsome
    obtain ⟨pointer, hpointer⟩ := Option.ne_none_iff_exists'.mp hsome
    obtain ⟨origin, hstands, -⟩ := hlinked.origin_of_pointer hpointer
    rw [horigin] at hstands
    cases hstands

omit [DecidableEq Module] in
theorem live_iff (hlinked : Linked collection linkage) :
    Live collection linkage ↔ ∀ reference pointer origin,
      collection.pointer reference = some pointer → linkage.origin reference = some origin →
        collection.Reads linkage pointer origin := by
  constructor
  · intro hlive reference pointer origin hpointer horigin path
    have hreads := hlive reference path
    rwa [Collection.observe, Linkage.observe, hpointer, horigin] at hreads
  · intro hreads reference path
    rw [Collection.observe, Linkage.observe]
    cases hpointer : collection.pointer reference with
    | none => rw [hlinked.pointer_eq_none.mp hpointer]
    | some pointer =>
      obtain ⟨origin, horigin, -⟩ := hlinked.origin_of_pointer hpointer
      rw [horigin]
      exact hreads reference pointer origin hpointer horigin path

omit [DecidableEq Module] in
theorem live_iff_namespaceOf (hlinked : Linked collection linkage) :
    Live collection linkage ↔ ∀ reference pointer module,
      collection.pointer reference = some pointer →
      linkage.origin reference = some (.namespaceOf module) →
        collection.Reads linkage pointer (.namespaceOf module) := by
  rw [hlinked.live_iff]
  constructor
  · intro hreads reference pointer module
    exact hreads reference pointer (.namespaceOf module)
  · intro hreads reference pointer origin hpointer horigin
    cases origin with
    | namespaceOf module => exact hreads reference pointer module hpointer horigin
    | variableOf module name =>
      obtain ⟨origin, hsame, hpoints⟩ := hlinked.origin_of_pointer hpointer
      rw [horigin, Option.some.injEq] at hsame
      exact hlinked.reads_variableOf (hsame ▸ hpoints)

omit [DecidableEq Module] in
theorem reads_namespaceObject (hlinked : Linked collection linkage)
    (hlive : Live collection linkage) (module : Module) (path : List String) :
    (Value.object (collection.namespaceObject module)).observe path =
      linkage.reads (.namespaceOf module) path := by
  cases path with
  | nil =>
    rw [Value.observe, Linkage.reads, collection.keys_namespaceObject, hlinked.order]
  | cons key path =>
    rw [Value.observe, Linkage.reads, collection.getNamedProperty_namespaceObject]
    have hreads := hlive (.exported module key) path
    rw [Collection.observe, Linkage.observe, Linkage.origin] at hreads
    rw [← hreads]
    cases collection.pointer (.exported module key) <;> rfl

/-- What a call leaves: the pointers still follow, and where all was live before, a namespace reads
what its module gave before the call. -/
structure Advances (collection collection' : Collection Module α)
    (linkage linkage' : Linkage Module α) : Prop where
  linked : Linked collection' linkage'
  reads : Live collection linkage → ∀ reference pointer module,
    collection'.pointer reference = some pointer →
    linkage'.origin reference = some (.namespaceOf module) →
      collection'.Reads linkage pointer (.namespaceOf module)

omit [DecidableEq Module] in
theorem advances_refl (hlinked : Linked collection linkage) :
    Advances collection collection linkage linkage where
  linked := hlinked
  reads hlive reference pointer module := hlinked.live_iff_namespaceOf.mp hlive reference pointer module

omit [DecidableEq Module] in
theorem allocate (hlinked : Linked collection linkage) (binding : ModuleBinding α) :
    Linked (collection.allocate binding).1 linkage where
  points := hlinked.points
  value module name pointer hpointer := by
    have hinside := hlinked.allocated (.definition module name) pointer hpointer
    rw [collection.valueAt_allocate binding pointer hinside]
    exact hlinked.value module name pointer hpointer
  distinct := hlinked.distinct
  allocated reference pointer hpointer := by
    have hinside := hlinked.allocated reference pointer hpointer
    simp only [Collection.allocate, List.length_append]
    omega
  order := hlinked.order

omit [DecidableEq Module] in
theorem live_allocate (hlinked : Linked collection linkage) (hlive : Live collection linkage)
    (binding : ModuleBinding α) : Live (collection.allocate binding).1 linkage := by
  rw [(hlinked.allocate binding).live_iff]
  intro reference pointer origin hpointer horigin path
  have hinside := hlinked.allocated reference pointer hpointer
  rw [collection.valueAt_allocate binding pointer hinside]
  exact hlinked.live_iff.mp hlive reference pointer origin hpointer horigin path

omit [DecidableEq Module] in
theorem pointer_ne_length (hlinked : Linked collection linkage) (reference : Reference Module) :
    collection.pointer reference ≠ some collection.bindings.length := by
  intro hpointer
  exact absurd (hlinked.allocated reference _ hpointer) (Nat.lt_irrefl _)

/-- The target of an import or an export changes, and nothing else does. -/
structure Rebinds (target : Reference Module) (pointer : Nat) (origin : Origin Module)
    (collection collection' : Collection Module α) (linkage linkage' : Linkage Module α) :
    Prop where
  bindings : collection'.bindings = collection.bindings
  pointers : ∀ reference, collection'.pointer reference =
    if reference = target then some pointer else collection.pointer reference
  value : linkage'.value = linkage.value
  origins : ∀ reference, linkage'.origin reference =
    if reference = target then some origin else linkage.origin reference
  target : ∀ module name, target ≠ .definition module name
  order : ∀ module, (collection'.modules module).exports.order = linkage'.exportNames module

namespace Rebinds

variable {target : Reference Module} {pointer : Nat} {origin : Origin Module}
  {collection' : Collection Module α} {linkage' : Linkage Module α}

theorem definition (hrebinds : Rebinds target pointer origin collection collection' linkage linkage')
    (module : Module) (name : String) :
    collection'.pointer (.definition module name) = collection.pointer (.definition module name) := by
  rw [hrebinds.pointers, if_neg (Ne.symm (hrebinds.target module name))]

theorem points (hrebinds : Rebinds target pointer origin collection collection' linkage linkage')
    (place : Nat) (other : Origin Module) (hpoints : collection.Points place other) :
    collection'.Points place other := by
  cases other with
  | variableOf module name =>
    rw [Collection.Points, hrebinds.definition]
    exact hpoints
  | namespaceOf module =>
    intro used name
    rw [hrebinds.definition]
    exact hpoints used name

theorem valueAt (hrebinds : Rebinds target pointer origin collection collection' linkage linkage')
    (place : Nat) : collection'.valueAt place = collection.valueAt place := by
  rw [Collection.valueAt, Collection.valueAt, hrebinds.bindings]

theorem linked (hrebinds : Rebinds target pointer origin collection collection' linkage linkage')
    (hlinked : Linked collection linkage) (hpoints : collection.Points pointer origin)
    (hinside : pointer < collection.bindings.length) : Linked collection' linkage' where
  points reference := by
    rw [hrebinds.pointers, hrebinds.origins]
    by_cases heq : reference = target
    · rw [if_pos heq, if_pos heq]
      exact .some (hrebinds.points pointer origin hpoints)
    · rw [if_neg heq, if_neg heq]
      cases hpointer : collection.pointer reference with
      | none =>
        rw [hlinked.pointer_eq_none.mp hpointer]
        exact .none
      | some place =>
        obtain ⟨other, hother, hplace⟩ := hlinked.origin_of_pointer hpointer
        rw [hother]
        exact .some (hrebinds.points place other hplace)
  value module name place hplace := by
    rw [hrebinds.definition] at hplace
    rw [hrebinds.valueAt, hrebinds.value]
    exact hlinked.value module name place hplace
  distinct module name other used place hplace hsame := by
    rw [hrebinds.definition] at hplace hsame
    exact hlinked.distinct module name other used place hplace hsame
  allocated reference place hplace := by
    rw [hrebinds.bindings]
    rw [hrebinds.pointers] at hplace
    by_cases heq : reference = target
    · rw [if_pos heq, Option.some.injEq] at hplace
      exact hplace ▸ hinside
    · rw [if_neg heq] at hplace
      exact hlinked.allocated reference place hplace
  order := hrebinds.order

theorem advances (hrebinds : Rebinds target pointer origin collection collection' linkage linkage')
    (hlinked : Linked collection linkage) (hpoints : collection.Points pointer origin)
    (hinside : pointer < collection.bindings.length)
    (hreads : Live collection linkage → collection.Reads linkage pointer origin) :
    Advances collection collection' linkage linkage' where
  linked := hrebinds.linked hlinked hpoints hinside
  reads hlive reference place module hplace horigin path := by
    rw [hrebinds.valueAt]
    rw [hrebinds.pointers] at hplace
    rw [hrebinds.origins] at horigin
    by_cases heq : reference = target
    · rw [if_pos heq, Option.some.injEq] at hplace horigin
      subst hplace
      rw [← horigin]
      exact hreads hlive path
    · rw [if_neg heq] at hplace horigin
      exact hlinked.live_iff_namespaceOf.mp hlive reference place module hplace horigin path

end Rebinds

theorem rebinds_import (hlinked : Linked collection linkage) {name : String} (hname : name ≠ "")
    (module : Module) (pointer : Nat) (origin : Origin Module) :
    Rebinds (.imported module name) pointer origin collection
      (collection.bindImport module name (some pointer)) linkage
      (linkage.importAs module name (some origin)) where
  bindings := by rw [Collection.bindImport, if_neg hname, Collection.update]
  pointers := collection.pointer_bindImport hname module pointer
  value := by rw [Linkage.importAs, if_neg hname]
  origins := linkage.origin_importAs hname module origin
  target _ _ := nofun
  order other := by
    rw [Linkage.importAs, if_neg hname, ← hlinked.order, Collection.bindImport, if_neg hname,
      Collection.update]
    by_cases heq : other = module
    · subst heq
      simp
    · simp [heq]

theorem rebinds_export (hlinked : Linked collection linkage) {name : String} (hname : name ≠ "")
    (module : Module) (pointer : Nat) (origin : Origin Module) :
    Rebinds (.exported module name) pointer origin collection
      (collection.bindExport module name (some pointer)) linkage
      (linkage.exportAs module name (some origin)) where
  bindings := by rw [Collection.bindExport, if_neg hname, Collection.update]
  pointers := collection.pointer_bindExport hname module pointer
  value := by rw [Linkage.exportAs, if_neg hname]
  origins := linkage.origin_exportAs hname module origin
  target _ _ := nofun
  order other := by
    have hsame : collection.pointer (.exported module name) = none ↔
        linkage.origin (.exported module name) = none := hlinked.pointer_eq_none
    rw [Collection.pointer, Linkage.origin] at hsame
    rw [Linkage.exportAs, if_neg hname, Collection.bindExport, if_neg hname, Collection.update]
    by_cases heq : other = module
    · subst heq
      have horder := hlinked.order other
      cases hpointer : (collection.modules other).exports.pointer name with
      | none => simp [NameTable.bind, hpointer, hsame.mp hpointer, horder]
      | some place =>
        have hsome : linkage.exports other name ≠ none := by
          rw [Ne, ← hsame, hpointer]
          exact Option.some_ne_none place
        simp [NameTable.bind, hpointer, Option.isSome_iff_ne_none.mpr hsome, horder]
    · have horder := hlinked.order other
      cases linkage.exports module name <;> simp [heq, horder]

/-- The local has its own pointer, with the value under it, and nothing else changes. -/
structure Defines (module : Module) (name : String) (value : Value α) (pointer : Nat)
    (collection collection' : Collection Module α) (linkage linkage' : Linkage Module α) :
    Prop where
  pointers : ∀ reference, collection'.pointer reference =
    if reference = .definition module name then some pointer else collection.pointer reference
  valueAt : ∀ place, collection'.valueAt place =
    if place = pointer then some value else collection.valueAt place
  value : ∀ other used, linkage'.value other used =
    if other = module ∧ used = name then some value else linkage.value other used
  origins : ∀ reference, linkage'.origin reference =
    if reference = .definition module name then some (.variableOf module name)
    else linkage.origin reference
  /-- Whatever has the pointer already stands for this local. -/
  owner : ∀ reference, collection.pointer reference = some pointer →
    linkage.origin reference = some (.variableOf module name)
  kept : ∀ place, collection.pointer (.definition module name) = some place → place = pointer
  grows : collection.bindings.length ≤ collection'.bindings.length
  inside : pointer < collection'.bindings.length
  order : ∀ other, (collection'.modules other).exports.order = linkage'.exportNames other

namespace Defines

variable {module : Module} {name : String} {value : Value α} {pointer : Nat}
  {collection' : Collection Module α} {linkage' : Linkage Module α}

theorem eq_of_pointer
    (hdefines : Defines module name value pointer collection collection' linkage linkage')
    {other : Module} {used : String}
    (hpointer : collection.pointer (.definition other used) = some pointer) :
    other = module ∧ used = name := by
  have howner := hdefines.owner _ hpointer
  rw [Linkage.origin] at howner
  split at howner
  · rw [Option.some.injEq, Origin.variableOf.injEq] at howner
    exact howner
  · cases howner

theorem points
    (hdefines : Defines module name value pointer collection collection' linkage linkage')
    {reference : Reference Module} {place : Nat} {origin : Origin Module}
    (hplace : collection.pointer reference = some place)
    (horigin : linkage.origin reference = some origin) (hpoints : collection.Points place origin) :
    collection'.Points place origin := by
  cases origin with
  | variableOf other used =>
    rw [Collection.Points, hdefines.pointers]
    by_cases heq : Reference.definition other used = .definition module name
    · rw [if_pos heq]
      rw [Collection.Points, heq] at hpoints
      rw [hdefines.kept place hpoints]
    · rw [if_neg heq]
      exact hpoints
  | namespaceOf source =>
    intro other used
    rw [hdefines.pointers]
    by_cases heq : Reference.definition other used = .definition module name
    · rw [if_pos heq]
      rintro ⟨⟩
      have howner := hdefines.owner reference hplace
      rw [horigin] at howner
      cases howner
    · rw [if_neg heq]
      exact hpoints other used

theorem linked
    (hdefines : Defines module name value pointer collection collection' linkage linkage')
    (hlinked : Linked collection linkage) : Linked collection' linkage' where
  points reference := by
    rw [hdefines.pointers, hdefines.origins]
    by_cases heq : reference = .definition module name
    · rw [if_pos heq, if_pos heq]
      refine .some ?_
      rw [Collection.Points, hdefines.pointers, if_pos rfl]
    · rw [if_neg heq, if_neg heq]
      cases hpointer : collection.pointer reference with
      | none =>
        rw [hlinked.pointer_eq_none.mp hpointer]
        exact .none
      | some place =>
        obtain ⟨origin, horigin, hpoints⟩ := hlinked.origin_of_pointer hpointer
        rw [horigin]
        exact .some (hdefines.points hpointer horigin hpoints)
  value other used place hplace := by
    rw [hdefines.pointers] at hplace
    rw [hdefines.valueAt, hdefines.value]
    by_cases heq : other = module ∧ used = name
    · rw [if_pos (by rw [heq.1, heq.2]), Option.some.injEq] at hplace
      rw [if_pos hplace.symm, if_pos heq]
    · have hne : Reference.definition other used ≠ .definition module name := by simpa using heq
      rw [if_neg hne] at hplace
      have hfree : place ≠ pointer := by
        rintro rfl
        exact heq (hdefines.eq_of_pointer hplace)
      rw [if_neg hfree, if_neg heq]
      exact hlinked.value other used place hplace
  distinct first used second other place hfirst hsecond := by
    rw [hdefines.pointers] at hfirst hsecond
    by_cases hone : Reference.definition first used = .definition module name
    · rw [if_pos hone, Option.some.injEq] at hfirst
      subst hfirst
      by_cases htwo : Reference.definition second other = .definition module name
      · rw [Reference.definition.injEq] at hone htwo
        exact ⟨hone.1.trans htwo.1.symm, hone.2.trans htwo.2.symm⟩
      · rw [if_neg htwo] at hsecond
        obtain ⟨rfl, rfl⟩ := hdefines.eq_of_pointer hsecond
        exact absurd rfl htwo
    · rw [if_neg hone] at hfirst
      by_cases htwo : Reference.definition second other = .definition module name
      · rw [if_pos htwo, Option.some.injEq] at hsecond
        subst hsecond
        obtain ⟨rfl, rfl⟩ := hdefines.eq_of_pointer hfirst
        exact absurd rfl hone
      · rw [if_neg htwo] at hsecond
        exact hlinked.distinct first used second other place hfirst hsecond
  allocated reference place hplace := by
    rw [hdefines.pointers] at hplace
    by_cases heq : reference = .definition module name
    · rw [if_pos heq, Option.some.injEq] at hplace
      exact hplace ▸ hdefines.inside
    · rw [if_neg heq] at hplace
      exact Nat.lt_of_lt_of_le (hlinked.allocated reference place hplace) hdefines.grows
  order := hdefines.order

theorem advances
    (hdefines : Defines module name value pointer collection collection' linkage linkage')
    (hlinked : Linked collection linkage) :
    Advances collection collection' linkage linkage' where
  linked := hdefines.linked hlinked
  reads hlive reference place source hplace horigin path := by
    rw [hdefines.pointers] at hplace
    rw [hdefines.origins] at horigin
    by_cases heq : reference = .definition module name
    · rw [if_pos heq] at horigin
      cases horigin
    · rw [if_neg heq] at hplace horigin
      have hfree : place ≠ pointer := by
        rintro rfl
        have howner := hdefines.owner reference hplace
        rw [horigin] at howner
        cases howner
      rw [hdefines.valueAt, if_neg hfree]
      exact hlinked.live_iff_namespaceOf.mp hlive reference place source hplace horigin path

end Defines

theorem defines_bound (hlinked : Linked collection linkage) {name : String} (hname : name ≠ "")
    {module : Module} {pointer : Nat}
    (hpointer : collection.pointer (.definition module name) = some pointer) (value : Value α) :
    Defines module name value pointer collection (collection.defineLocal module name value) linkage
      (linkage.define module name value) := by
  have hinside := hlinked.allocated _ _ hpointer
  have hdefine : collection.defineLocal module name value =
      { collection with
        bindings := collection.bindings.modify pointer fun binding => binding.set value } := by
    rw [Collection.pointer] at hpointer
    rw [Collection.defineLocal, if_neg hname, hpointer]
  refine
    { pointers := ?_, valueAt := ?_, value := linkage.value_define hname module value,
      origins := linkage.origin_define hname module value, owner := ?_, kept := ?_, grows := ?_,
      inside := ?_, order := ?_ }
  · intro reference
    rw [hdefine]
    by_cases heq : reference = .definition module name
    · subst heq
      rw [if_pos rfl]
      exact hpointer
    · rw [if_neg heq]
      rfl
  · intro place
    rw [hdefine, Collection.valueAt, Collection.valueAt, List.getElem?_modify]
    by_cases heq : place = pointer
    · subst heq
      simp [List.getElem?_eq_getElem hinside]
    · simp [heq, Ne.symm heq]
  · intro reference hreference
    obtain ⟨origin, horigin, hpoints⟩ := hlinked.origin_of_pointer hreference
    cases origin with
    | namespaceOf source => exact absurd hpointer (hpoints module name)
    | variableOf other used =>
      obtain ⟨rfl, rfl⟩ := hlinked.distinct _ _ _ _ _ hpoints hpointer
      exact horigin
  · intro place hplace
    rw [hpointer, Option.some.injEq] at hplace
    exact hplace.symm
  · simp only [hdefine, List.length_modify, Nat.le_refl]
  · rw [hdefine, List.length_modify]
    exact hinside
  · intro other
    rw [hdefine, Linkage.define, if_neg hname]
    exact hlinked.order other

theorem defines_new (hlinked : Linked collection linkage) {name : String} (hname : name ≠ "")
    {module : Module} (hpointer : collection.pointer (.definition module name) = none)
    (value : Value α) :
    Defines module name value collection.bindings.length collection
      (collection.defineLocal module name value) linkage (linkage.define module name value) := by
  have hdefine : collection.defineLocal module name value =
      (collection.allocate ((ModuleBinding.new name).set value)).1.update module fun bindings =>
        { bindings with locals := bindings.locals.bind name collection.bindings.length } := by
    rw [Collection.pointer] at hpointer
    rw [Collection.defineLocal, if_neg hname, hpointer]
    rfl
  refine
    { pointers := ?_, valueAt := ?_, value := linkage.value_define hname module value,
      origins := linkage.origin_define hname module value, owner := ?_, kept := ?_, grows := ?_,
      inside := ?_, order := ?_ }
  · intro reference
    rw [hdefine]
    cases reference with
    | definition other used =>
      by_cases hmodule : other = module
      · subst hmodule
        by_cases hused : used = name
        · subst hused
          simp [Collection.pointer, Collection.update, NameTable.bind]
        · simp [Collection.pointer, Collection.update, Collection.allocate, NameTable.bind, hused]
      · simp [Collection.pointer, Collection.update, Collection.allocate, hmodule]
    | imported other used =>
      by_cases hmodule : other = module
      · subst hmodule
        simp [Collection.pointer, Collection.update, Collection.allocate]
      · simp [Collection.pointer, Collection.update, Collection.allocate, hmodule]
    | exported other used =>
      by_cases hmodule : other = module
      · subst hmodule
        simp [Collection.pointer, Collection.update, Collection.allocate]
      · simp [Collection.pointer, Collection.update, Collection.allocate, hmodule]
  · intro place
    rw [hdefine]
    change (collection.allocate ((ModuleBinding.new name).set value)).1.valueAt place = _
    by_cases heq : place = collection.bindings.length
    · rw [if_pos heq, heq]
      exact collection.valueAt_allocate_self ((ModuleBinding.new name).set value)
    · rw [if_neg heq]
      by_cases hinside : place < collection.bindings.length
      · exact collection.valueAt_allocate _ place hinside
      · have hbeyond : collection.bindings.length < place := by omega
        have hnew : (collection.bindings ++ [(ModuleBinding.new name).set value]).length ≤ place := by
          simp only [List.length_append, List.length_singleton]
          omega
        simp only [Collection.allocate, Collection.valueAt]
        rw [List.getElem?_eq_none hnew, List.getElem?_eq_none (Nat.le_of_lt hbeyond)]
  · intro reference hreference
    exact absurd hreference (hlinked.pointer_ne_length reference)
  · intro place hplace
    rw [hpointer] at hplace
    cases hplace
  · rw [hdefine]
    simp [Collection.update, Collection.allocate]
  · rw [hdefine]
    simp [Collection.update, Collection.allocate]
  · intro other
    rw [hdefine, Linkage.define, if_neg hname]
    by_cases heq : other = module
    · subst heq
      simpa [Collection.update, Collection.allocate] using hlinked.order other
    · simpa [Collection.update, Collection.allocate, heq] using hlinked.order other

end Linked

end Jayess.Runtime
