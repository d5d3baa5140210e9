import Mathlib.Data.List.Induction
import Jayess.Runtime.Linked

/-!
# Live bindings

Along a run of calls imports and re-exports stay live; a namespace is the object of the moment it was
bound, so it stays live exactly as long as nothing in it changes.
-/

namespace Jayess.Runtime

variable {Module α : Type} [DecidableEq Module]

/-- Live reads at every moment of a run. -/
def LiveRun (calls : List (Call Module α)) : Prop :=
  ∀ done rest, calls = done ++ rest → Live (Collection.run done) (Linkage.run done)

/-- A call changes nothing that can be read through a namespace which is bound once it is done. -/
def Linkage.Keeps (linkage : Linkage Module α) (call : Call Module α) : Prop :=
  ∀ reference module, (linkage.step call).origin reference = some (.namespaceOf module) →
    ∀ path, (linkage.step call).reads (.namespaceOf module) path =
      linkage.reads (.namespaceOf module) path

namespace Linked

variable {collection : Collection Module α} {linkage : Linkage Module α}

theorem advances_import (hlinked : Linked collection linkage) (module : Module) (name : String)
    (reference : Reference Module) :
    Advances collection (collection.bindImport module name (collection.pointer reference)) linkage
      (linkage.importAs module name (linkage.origin reference)) := by
  cases hpointer : collection.pointer reference with
  | none =>
    rw [hlinked.pointer_eq_none.mp hpointer]
    exact hlinked.advances_refl
  | some pointer =>
    obtain ⟨origin, horigin, hpoints⟩ := hlinked.origin_of_pointer hpointer
    rw [horigin]
    by_cases hname : name = ""
    · rw [Collection.bindImport, Linkage.importAs, if_pos hname, if_pos hname]
      exact hlinked.advances_refl
    · exact (hlinked.rebinds_import hname module pointer origin).advances hlinked hpoints
        (hlinked.allocated reference pointer hpointer)
        fun hlive => hlinked.live_iff.mp hlive reference pointer origin hpointer horigin

theorem advances_export (hlinked : Linked collection linkage) (module : Module) (name : String)
    (reference : Reference Module) :
    Advances collection (collection.bindExport module name (collection.pointer reference)) linkage
      (linkage.exportAs module name (linkage.origin reference)) := by
  cases hpointer : collection.pointer reference with
  | none =>
    rw [hlinked.pointer_eq_none.mp hpointer]
    exact hlinked.advances_refl
  | some pointer =>
    obtain ⟨origin, horigin, hpoints⟩ := hlinked.origin_of_pointer hpointer
    rw [horigin]
    by_cases hname : name = ""
    · rw [Collection.bindExport, Linkage.exportAs, if_pos hname, if_pos hname]
      exact hlinked.advances_refl
    · exact (hlinked.rebinds_export hname module pointer origin).advances hlinked hpoints
        (hlinked.allocated reference pointer hpointer)
        fun hlive => hlinked.live_iff.mp hlive reference pointer origin hpointer horigin

omit [DecidableEq Module] in
theorem reads_namespaceBinding (hlinked : Linked collection linkage)
    (hlive : Live collection linkage) (name : String) (source : Module) :
    (collection.allocate (collection.namespaceBinding name source)).1.Reads linkage
      collection.bindings.length (.namespaceOf source) := by
  intro path
  have hvalue : (collection.allocate (collection.namespaceBinding name source)).1.valueAt
      collection.bindings.length = some (.object (collection.namespaceObject source)) :=
    collection.valueAt_allocate_self (collection.namespaceBinding name source)
  rw [hvalue]
  exact hlinked.reads_namespaceObject hlive source path

theorem advances_namespaceImport (hlinked : Linked collection linkage) (module : Module)
    (name : String) (source : Module) :
    Advances collection (collection.bindNamespaceImport module name source) linkage
      (linkage.importAs module name (some (.namespaceOf source))) := by
  by_cases hname : name = ""
  · rw [Collection.bindNamespaceImport, Linkage.importAs, if_pos hname, if_pos hname]
    exact hlinked.advances_refl
  · rw [Collection.bindNamespaceImport, if_neg hname]
    have hallocated := hlinked.allocate (collection.namespaceBinding name source)
    have hrebinds := hallocated.rebinds_import hname module collection.bindings.length
      (.namespaceOf source)
    have hinside : collection.bindings.length <
        (collection.allocate (collection.namespaceBinding name source)).1.bindings.length := by
      simp [Collection.allocate]
    have hpoints : (collection.allocate (collection.namespaceBinding name source)).1.Points
        collection.bindings.length (.namespaceOf source) :=
      fun other used => hlinked.pointer_ne_length (.definition other used)
    refine ⟨hrebinds.linked hallocated hpoints hinside, fun hlive => ?_⟩
    have hreads := hlinked.reads_namespaceBinding hlive name source
    exact (hrebinds.advances hallocated hpoints hinside fun _ => hreads).reads
      (hlinked.live_allocate hlive _)

theorem advances_namespaceExport (hlinked : Linked collection linkage) (module : Module)
    (exported : String) (source : Module) :
    Advances collection (collection.bindNamespaceExport module exported source) linkage
      (linkage.exportAs module exported (some (.namespaceOf source))) := by
  by_cases hname : exported = ""
  · rw [Collection.bindNamespaceExport, Linkage.exportAs, if_pos hname, if_pos hname]
    exact hlinked.advances_refl
  · rw [Collection.bindNamespaceExport, if_neg hname]
    have hallocated := hlinked.allocate (collection.namespaceBinding exported source)
    have hrebinds := hallocated.rebinds_export hname module collection.bindings.length
      (.namespaceOf source)
    have hinside : collection.bindings.length <
        (collection.allocate (collection.namespaceBinding exported source)).1.bindings.length := by
      simp [Collection.allocate]
    have hpoints : (collection.allocate (collection.namespaceBinding exported source)).1.Points
        collection.bindings.length (.namespaceOf source) :=
      fun other used => hlinked.pointer_ne_length (.definition other used)
    refine ⟨hrebinds.linked hallocated hpoints hinside, fun hlive => ?_⟩
    have hreads := hlinked.reads_namespaceBinding hlive exported source
    exact (hrebinds.advances hallocated hpoints hinside fun _ => hreads).reads
      (hlinked.live_allocate hlive _)

theorem advances_define (hlinked : Linked collection linkage) (module : Module) (name : String)
    (value : Value α) :
    Advances collection (collection.defineLocal module name value) linkage
      (linkage.define module name value) := by
  by_cases hname : name = ""
  · rw [Collection.defineLocal, Linkage.define, if_pos hname, if_pos hname]
    exact hlinked.advances_refl
  · cases hpointer : collection.pointer (.definition module name) with
    | none => exact (hlinked.defines_new hname hpointer value).advances hlinked
    | some pointer => exact (hlinked.defines_bound hname hpointer value).advances hlinked

theorem advances_step (hlinked : Linked collection linkage) (call : Call Module α) :
    Advances collection (collection.step call) linkage (linkage.step call) := by
  cases call with
  | defineLocal module name value => exact hlinked.advances_define module name value
  | bindExport module exported binding => exact hlinked.advances_export module exported binding
  | bindImportFrom module name source imported =>
    exact hlinked.advances_import module name (.exported source imported)
  | bindReExportFrom module exported source imported =>
    exact hlinked.advances_export module exported (.exported source imported)
  | bindNamespaceImport module name source =>
    exact hlinked.advances_namespaceImport module name source
  | bindNamespaceExport module exported source =>
    exact hlinked.advances_namespaceExport module exported source

/-- Where all was live, it still is after a call that changes nothing in a bound namespace, and only
then. -/
theorem live_step_iff (hlinked : Linked collection linkage) (hlive : Live collection linkage)
    (call : Call Module α) :
    Live (collection.step call) (linkage.step call) ↔ linkage.Keeps call := by
  have hadvances := hlinked.advances_step call
  rw [hadvances.linked.live_iff_namespaceOf]
  constructor
  · intro hreads reference module horigin path
    obtain ⟨pointer, hpointer, -⟩ := hadvances.linked.pointer_of_origin horigin
    calc
      (linkage.step call).reads (.namespaceOf module) path =
          (((collection.step call).valueAt pointer).getD .undefined).observe path :=
        (hreads reference pointer module hpointer horigin path).symm
      _ = linkage.reads (.namespaceOf module) path :=
        hadvances.reads hlive reference pointer module hpointer horigin path
  · intro hkeeps reference pointer module hpointer horigin path
    rw [hadvances.reads hlive reference pointer module hpointer horigin path]
    exact (hkeeps reference module horigin path).symm

end Linked

theorem Collection.run_append_singleton (calls : List (Call Module α)) (call : Call Module α) :
    Collection.run (calls ++ [call]) = (Collection.run calls).step call := by
  rw [Collection.run, List.foldl_append]
  rfl

theorem Linkage.run_append_singleton (calls : List (Call Module α)) (call : Call Module α) :
    Linkage.run (calls ++ [call]) = (Linkage.run calls).step call := by
  rw [Linkage.run, List.foldl_append]
  rfl

theorem Linked.run (calls : List (Call Module α)) :
    Linked (Collection.run calls) (Linkage.run calls) := by
  induction calls using List.reverseRecOn with
  | nil => exact Linked.new
  | append_singleton calls call ih =>
    rw [Collection.run_append_singleton, Linkage.run_append_singleton]
    exact (ih.advances_step call).linked

omit [DecidableEq Module] in
theorem live_new : Live (Collection.new : Collection Module α) Linkage.new := by
  rw [Linked.new.live_iff]
  intro reference pointer origin hpointer
  cases reference <;> cases hpointer

theorem liveRun_iff (calls : List (Call Module α)) :
    LiveRun calls ↔
      ∀ done call rest, calls = done ++ call :: rest → (Linkage.run done).Keeps call := by
  constructor
  · intro hlive done call rest hsplit
    have hnow := hlive done (call :: rest) hsplit
    have hnext := hlive (done ++ [call]) rest (by simp [hsplit])
    rw [Collection.run_append_singleton, Linkage.run_append_singleton] at hnext
    exact ((Linked.run done).live_step_iff hnow call).mp hnext
  · intro hkeeps done
    induction done using List.reverseRecOn with
    | nil => exact fun _ _ => live_new
    | append_singleton done call ih =>
      intro rest hsplit
      have hcons : calls = done ++ call :: rest := by simp [hsplit]
      rw [Collection.run_append_singleton, Linkage.run_append_singleton]
      exact ((Linked.run done).live_step_iff (ih _ hcons) call).mpr (hkeeps done call rest hcons)

/-- A module exports `x`, another one binds its namespace, and then `x` gets a new value. -/
def namespaceThenUpdate : List (Call Nat Nat) :=
  [.defineLocal 0 "x" (.plain 1), .bindExport 0 "x" (.definition 0 "x"),
    .bindNamespaceImport 1 "ns" 0, .defineLocal 0 "x" (.plain 2)]

theorem namespaceThenUpdate_stale : ¬LiveRun namespaceThenUpdate := by
  intro hlive
  have hread := hlive namespaceThenUpdate [] (List.append_nil _).symm (.imported 1 "ns") ["x"]
  have hstale : (Collection.run namespaceThenUpdate).observe (.imported 1 "ns") ["x"] = .plain 1 := rfl
  have hfresh : (Linkage.run namespaceThenUpdate).observe (.imported 1 "ns") ["x"] = .plain 2 := rfl
  rw [hstale, hfresh] at hread
  cases hread

end Jayess.Runtime
