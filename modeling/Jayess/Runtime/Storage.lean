import Mathlib.Data.String.Basic
import Mathlib.Data.List.Sort
import Jayess.Runtime.DynamicObject

/-!
# The key-value storage
-/

namespace Jayess.Runtime

/-- `runtime.StorageStore`; the values are a nil map where the file held a JSON null. -/
structure StorageStore where
  path : String
  values : Option (PropertyMap String)
  closed : Bool

/-- What the disk does to one attempt to write, and whether the values can be encoded. -/
structure Disk where
  mkdirAll : Option String
  marshalIndent : Option String
  writeFile : Option String

inductive StorageError where
  | storageClosed
  | disk (message : String)
deriving DecidableEq

inductive StorageOutcome where
  | done
  | failed (error : StorageError)
  | panicked
deriving DecidableEq

def ensureStorageOpen (store : StorageStore) : Option StorageError :=
  if store.closed then some .storageClosed else none

def persistLocked (store : StorageStore) (disk : Disk) : Option StorageError :=
  if store.path = "" then none
  else
    match disk.mkdirAll with
    | some error => some (.disk error)
    | none =>
        match disk.marshalIndent with
        | some error => some (.disk error)
        | none => disk.writeFile.map .disk

def StorageOutcome.ofError : Option StorageError → StorageOutcome
  | none => .done
  | some error => .failed error

def storageClose (store : StorageStore) (disk : Disk) : StorageStore × StorageOutcome :=
  if store.closed then (store, .failed .storageClosed)
  else
    match persistLocked store disk with
    | some error => (store, .failed error)
    | none => ({ store with closed := true }, .done)

def storageGet (store : StorageStore) (key : String) : Except StorageError (Option String) :=
  match ensureStorageOpen store with
  | some error => .error error
  | none => .ok ((store.values.getD ∅).lookup key)

def storagePut (store : StorageStore) (key value : String) (disk : Disk) :
    StorageStore × StorageOutcome :=
  match ensureStorageOpen store with
  | some error => (store, .failed error)
  | none =>
      match store.values with
      | none => (store, .panicked)
      | some values =>
          let store := { store with values := some (values.insert key value) }
          (store, .ofError (persistLocked store disk))

def storageDelete (store : StorageStore) (key : String) (disk : Disk) :
    StorageStore × StorageOutcome :=
  match ensureStorageOpen store with
  | some error => (store, .failed error)
  | none =>
      let store := { store with values := store.values.map (AList.erase key) }
      (store, .ofError (persistLocked store disk))

def storedValue (values : PropertyMap String) (key : String) : String := (values.lookup key).getD ""

/-- `StorageScan`, for the order in which Go ranges over the map. -/
def storageScan (mapOrder : MapOrder) (store : StorageStore) (start : String) :
    Except StorageError (List (String × String)) :=
  match ensureStorageOpen store with
  | some error => .error error
  | none =>
      let values := store.values.getD ∅
      let keys := (mapOrder.range values.keys).filter fun key => start.toList.isPrefixOf key.toList
      .ok ((keys.mergeSort fun first second => decide (first ≤ second)).map fun key =>
        (key, storedValue values key))

namespace StorageStore

/-- What is stored, whether or not the store is open. -/
def contents (store : StorageStore) (key : String) : Option String :=
  (store.values.getD ∅).lookup key

def SameContents (store next : StorageStore) : Prop :=
  (∀ key, storageGet next key = storageGet store key) ∧
    ∀ mapOrder start, storageScan mapOrder next start = storageScan mapOrder store start

section Contents

variable {store next : StorageStore} {key other value : String} {disk : Disk}

theorem storageScan_congr (hclosed : next.closed = store.closed)
    (hcontents : next.contents = store.contents) (mapOrder mapOrder' : MapOrder) (start : String) :
    storageScan mapOrder' next start = storageScan mapOrder store start := by
  unfold storageScan ensureStorageOpen
  rw [hclosed]
  split
  · rfl
  have hlookup : ∀ key, (next.values.getD ∅).lookup key = (store.values.getD ∅).lookup key :=
    congrFun hcontents
  have hmem : ∀ key, key ∈ (next.values.getD ∅).keys ↔ key ∈ (store.values.getD ∅).keys := by
    intro key
    rw [← AList.mem_keys, ← AList.mem_keys, ← AList.lookup_isSome, ← AList.lookup_isSome, hlookup]
  have hperm : (mapOrder'.range (next.values.getD ∅).keys).Perm
      (mapOrder.range (store.values.getD ∅).keys) :=
    (mapOrder'.perm _).trans
      (((List.perm_ext_iff_of_nodup (AList.keys_nodup _) (AList.keys_nodup _)).mpr hmem).trans
        (mapOrder.perm _).symm)
  have hkeys := hperm.filter fun key => start.toList.isPrefixOf key.toList
  have hsorted : ∀ keys : List String,
      (keys.mergeSort fun first second => decide (first ≤ second)).Pairwise (· ≤ ·) :=
    fun keys => List.pairwise_mergeSort' _ keys
  have hsame := List.Perm.eq_of_pairwise' (hsorted _) (hsorted _)
    ((List.mergeSort_perm _ _).trans (hkeys.trans (List.mergeSort_perm _ _).symm))
  dsimp only
  rw [hsame]
  have hvalue : storedValue (next.values.getD ∅) = storedValue (store.values.getD ∅) := by
    funext key
    rw [storedValue, storedValue, hlookup]
  rw [hvalue]

theorem sameContents_of_eq (hclosed : next.closed = store.closed)
    (hcontents : next.contents = store.contents) : SameContents store next := by
  refine ⟨fun key => ?_, fun mapOrder start => storageScan_congr hclosed hcontents _ _ start⟩
  have hkey : (next.values.getD ∅).lookup key = (store.values.getD ∅).lookup key :=
    congrFun hcontents key
  rw [storageGet, storageGet, ensureStorageOpen, ensureStorageOpen, hclosed, hkey]

theorem SameContents.refl (store : StorageStore) : SameContents store store :=
  sameContents_of_eq rfl rfl

theorem contents_eq_of_same (hopen : store.closed = false) (hopen' : next.closed = false)
    (hsame : SameContents store next) : next.contents = store.contents := by
  funext key
  have hget := hsame.1 key
  simp only [storageGet, ensureStorageOpen, hopen, hopen', Bool.false_eq_true, if_false] at hget
  exact Except.ok.inj hget

end Contents

/-! ## Calls -/

/-- A call on a store. -/
inductive Call where
  | put (key value : String)
  | delete (key : String)
  | get (key : String)
  | scan (start : String)
  | close

def readOutcome {Result : Type} : Except StorageError Result → StorageOutcome
  | .error error => .failed error
  | .ok _ => .done

def Call.apply (store : StorageStore) (disk : Disk) : Call → StorageStore × StorageOutcome
  | .put key value => storagePut store key value disk
  | .delete key => storageDelete store key disk
  | .get key => (store, readOutcome (storageGet store key))
  | .scan start => (store, readOutcome (storageScan .insertion store start))
  | .close => storageClose store disk

/-- What a call makes of the contents when it is reported as done. -/
def Call.effect (contents : String → Option String) : Call → String → Option String
  | .put key value => Function.update contents key (some value)
  | .delete key => Function.update contents key none
  | _ => contents

def Kept (store : StorageStore) (disk : Disk) (call : Call) : Prop :=
  ∀ error, (call.apply store disk).2 = .failed error → SameContents store (call.apply store disk).1

def Harmless (store : StorageStore) (disk : Disk) : Call → Prop
  | .put key value => store.closed = true ∨ store.values = none ∨ persistLocked store disk = none ∨
      store.contents key = some value
  | .delete key => store.closed = true ∨ persistLocked store disk = none ∨
      store.contents key = none
  | _ => True

/-- Every call of a history that returns an error leaves the contents as they were. -/
def AllKept (store : StorageStore) : List (Call × Disk) → Prop
  | [] => True
  | (call, disk) :: rest => store.Kept disk call ∧ (call.apply store disk).1.AllKept rest

/-- Every call of a history is harmless in the state in which it is made. -/
def AllHarmless (store : StorageStore) : List (Call × Disk) → Prop
  | [] => True
  | (call, disk) :: rest => store.Harmless disk call ∧ (call.apply store disk).1.AllHarmless rest

def run (store : StorageStore) (history : List (Call × Disk)) : StorageStore :=
  history.foldl (fun store step => (step.1.apply store step.2).1) store

/-- The calls of a history that were reported as done. -/
def succeeded (store : StorageStore) : List (Call × Disk) → List Call
  | [] => []
  | (call, disk) :: rest =>
      if (call.apply store disk).2 = .done then call :: (call.apply store disk).1.succeeded rest
      else (call.apply store disk).1.succeeded rest

section Calls

variable {store : StorageStore} {key value : String} {disk : Disk} {call : Call}

theorem ofError_eq_failed_iff {result : Option StorageError} :
    (∃ error, StorageOutcome.ofError result = .failed error) ↔ result ≠ none := by
  cases result with
  | none => simp [StorageOutcome.ofError]
  | some error => simp [StorageOutcome.ofError]

theorem ofError_eq_done_iff {result : Option StorageError} :
    StorageOutcome.ofError result = .done ↔ result = none := by
  cases result with
  | none => simp [StorageOutcome.ofError]
  | some error => simp [StorageOutcome.ofError]

theorem contents_put {values : PropertyMap String} (hvalues : store.values = some values) :
    { store with values := some (values.insert key value) }.contents =
      Function.update store.contents key (some value) := by
  funext other
  have hold : store.contents other = values.lookup other := by
    rw [contents, hvalues, Option.getD_some]
  change (values.insert key value).lookup other = _
  by_cases heq : other = key
  · subst heq
    rw [AList.lookup_insert, Function.update_self]
  · rw [AList.lookup_insert_ne heq, Function.update_of_ne heq, hold]

theorem contents_delete :
    { store with values := store.values.map (AList.erase key) }.contents =
      Function.update store.contents key none := by
  funext other
  unfold contents
  cases store.values with
  | none => simp [Function.update_apply]
  | some values =>
      by_cases heq : other = key
      · subst heq
        simp
      · simp [heq, AList.lookup_erase_ne]

theorem storagePut_open (hopen : store.closed = false) {values : PropertyMap String}
    (hvalues : store.values = some values) :
    storagePut store key value disk =
      ({ store with values := some (values.insert key value) },
        .ofError (persistLocked store disk)) := by
  simp [storagePut, ensureStorageOpen, hopen, hvalues, persistLocked]

theorem storageDelete_open (hopen : store.closed = false) :
    storageDelete store key disk =
      ({ store with values := store.values.map (AList.erase key) },
        .ofError (persistLocked store disk)) := by
  simp [storageDelete, ensureStorageOpen, hopen, persistLocked]

theorem sameContents_iff (hopen : store.closed = false) (values : Option (PropertyMap String)) :
    SameContents store { store with values := values } ↔
      { store with values := values }.contents = store.contents :=
  ⟨contents_eq_of_same hopen hopen, sameContents_of_eq rfl⟩

theorem kept_put_iff : store.Kept disk (.put key value) ↔ store.Harmless disk (.put key value) := by
  unfold Kept Harmless Call.apply
  cases hopen : store.closed with
  | true => simp [storagePut, ensureStorageOpen, hopen, SameContents.refl]
  | false =>
      cases hvalues : store.values with
      | none => simp [storagePut, ensureStorageOpen, hopen, hvalues]
      | some values =>
          simp only [storagePut_open hopen hvalues, sameContents_iff hopen, contents_put hvalues,
            Function.update_eq_self_iff, ← exists_imp, ofError_eq_failed_iff]
          constructor
          · intro hkept
            by_cases hwritten : persistLocked store disk = none
            · exact .inr (.inr (.inl hwritten))
            · exact .inr (.inr (.inr (hkept hwritten).symm))
          · rintro (hclosed | hnil | hwritten | hsame) hfailed
            · cases hclosed
            · cases hnil
            · exact absurd hwritten hfailed
            · exact hsame.symm

theorem kept_delete_iff : store.Kept disk (.delete key) ↔ store.Harmless disk (.delete key) := by
  unfold Kept Harmless Call.apply
  cases hopen : store.closed with
  | true => simp [storageDelete, ensureStorageOpen, hopen, SameContents.refl]
  | false =>
      simp only [storageDelete_open hopen, sameContents_iff hopen, contents_delete,
        Function.update_eq_self_iff, ← exists_imp, ofError_eq_failed_iff]
      constructor
      · intro hkept
        by_cases hwritten : persistLocked store disk = none
        · exact .inr (.inl hwritten)
        · exact .inr (.inr (hkept hwritten).symm)
      · rintro (hclosed | hwritten | hsame) hfailed
        · cases hclosed
        · exact absurd hwritten hfailed
        · exact hsame.symm

theorem kept_close : store.Kept disk .close := by
  intro error
  rw [Call.apply, storageClose]
  by_cases hclosed : store.closed = true
  · rw [if_pos hclosed]
    exact fun _ => .refl store
  · rw [if_neg hclosed]
    cases persistLocked store disk with
    | some error => exact fun _ => .refl store
    | none => exact nofun

theorem kept_iff : store.Kept disk call ↔ store.Harmless disk call := by
  cases call with
  | put key value => exact kept_put_iff
  | delete key => exact kept_delete_iff
  | get key => exact iff_of_true (fun _ _ => .refl store) trivial
  | scan start => exact iff_of_true (fun _ _ => .refl store) trivial
  | close => exact iff_of_true kept_close trivial

theorem contents_done (hdone : (call.apply store disk).2 = .done) :
    (call.apply store disk).1.contents = call.effect store.contents := by
  cases call with
  | put key value =>
      cases hopen : store.closed with
      | true => simp [Call.apply, storagePut, ensureStorageOpen, hopen] at hdone
      | false =>
          cases hvalues : store.values with
          | none => simp [Call.apply, storagePut, ensureStorageOpen, hopen, hvalues] at hdone
          | some values =>
              rw [Call.apply, storagePut_open hopen hvalues]
              exact contents_put hvalues
  | delete key =>
      cases hopen : store.closed with
      | true => simp [Call.apply, storageDelete, ensureStorageOpen, hopen] at hdone
      | false =>
          rw [Call.apply, storageDelete_open hopen]
          exact contents_delete
  | get key => rfl
  | scan start => rfl
  | close =>
      rw [Call.apply, storageClose]
      split
      · rfl
      · split
        · rfl
        · rfl

theorem contents_not_done (hkept : store.Kept disk call)
    (hdone : (call.apply store disk).2 ≠ .done) :
    (call.apply store disk).1.contents = store.contents := by
  cases call with
  | put key value =>
      cases hopen : store.closed with
      | true => simp [Call.apply, storagePut, ensureStorageOpen, hopen]
      | false =>
          cases hvalues : store.values with
          | none => simp [Call.apply, storagePut, ensureStorageOpen, hopen, hvalues]
          | some values =>
              unfold Kept at hkept
              rw [Call.apply, storagePut_open hopen hvalues] at hkept hdone ⊢
              obtain ⟨error, hfailed⟩ :=
                ofError_eq_failed_iff.mpr (mt ofError_eq_done_iff.mpr hdone)
              exact (sameContents_iff hopen _).mp (hkept error hfailed)
  | delete key =>
      cases hopen : store.closed with
      | true => simp [Call.apply, storageDelete, ensureStorageOpen, hopen]
      | false =>
          unfold Kept at hkept
          rw [Call.apply, storageDelete_open hopen] at hkept hdone ⊢
          obtain ⟨error, hfailed⟩ := ofError_eq_failed_iff.mpr (mt ofError_eq_done_iff.mpr hdone)
          exact (sameContents_iff hopen _).mp (hkept error hfailed)
  | get key => rfl
  | scan start => rfl
  | close =>
      rw [Call.apply, storageClose]
      split
      · rfl
      · split
        · rfl
        · rfl

end Calls

/-- Over every history of calls and disks, the calls that return an error leave the contents as they were
exactly where each call is harmless; the map is then the result of the calls reported as done. -/
theorem allKept_iff (store : StorageStore) (history : List (Call × Disk)) :
    (store.AllKept history ↔ store.AllHarmless history) ∧
      (store.AllHarmless history → (store.run history).contents =
        (store.succeeded history).foldl Call.effect store.contents) := by
  induction history generalizing store with
  | nil => exact ⟨Iff.rfl, fun _ => rfl⟩
  | cons step rest ih =>
      obtain ⟨call, disk⟩ := step
      obtain ⟨hiff, hcontents⟩ := ih (call.apply store disk).1
      refine ⟨and_congr kept_iff hiff, ?_⟩
      rintro ⟨hharmless, hrest⟩
      change ((call.apply store disk).1.run rest).contents = _
      rw [hcontents hrest, succeeded]
      by_cases hdone : (call.apply store disk).2 = .done
      · rw [if_pos hdone, List.foldl_cons, contents_done hdone]
      · rw [if_neg hdone, contents_not_done (kept_iff.mpr hharmless) hdone]

/-- A put whose write fails can be read. -/
theorem failed_put_is_read :
    ¬∀ (store : StorageStore) (history : List (Call × Disk)), store.AllKept history := by
  intro hclaim
  have hkept := (hclaim ⟨"data/store.json", some ∅, false⟩
    [(.put "a" "1", ⟨none, none, some "no space left on device"⟩)]).1
  have hget := (hkept (.disk "no space left on device") (by decide)).1 "a"
  revert hget
  decide

end StorageStore

end Jayess.Runtime
