import Mathlib.Data.List.AList
import Jayess.Bindings

/-!
# Dynamic objects

A runtime object is a map of properties and beside it the list of its keys in the order in which
they were inserted.
-/

namespace Jayess.Runtime

variable {Value Class : Type*}

abbrev PropertyMap (Value : Type*) := AList fun _ : String => Value

/-- `runtime.Object`; `none` is a nil map. -/
structure DynamicObject (Value Class : Type*) where
  properties : Option (PropertyMap Value)
  order : List String
  ofClass : Option Class
  privateFields : Option (PropertyMap Value)

namespace DynamicObject

/-- The zero value. -/
def zero : DynamicObject Value Class := ⟨none, [], none, none⟩

def newObject : DynamicObject Value Class := ⟨some ∅, [], none, none⟩

/-- `GetNamedProperty`; nothing where the source returns the undefined value and false. -/
def getNamedProperty (object : DynamicObject Value Class) (key : String) : Option Value :=
  match object.properties with
  | none => none
  | some properties => properties.lookup key

def hasNamedProperty (object : DynamicObject Value Class) (key : String) : Bool :=
  match object.properties with
  | none => false
  | some properties => decide (key ∈ properties)

def setNamedProperty (object : DynamicObject Value Class) (key : String) (value : Value) :
    DynamicObject Value Class :=
  let properties := object.properties.getD ∅
  { object with
    order := if key ∈ properties then object.order else object.order ++ [key]
    properties := some (properties.insert key value) }

/-- `removeKey`: the first place that holds the key is closed up. -/
def removeKey (key : String) : List String → List String
  | [] => []
  | candidate :: rest => if candidate ≠ key then candidate :: removeKey key rest else rest

/-- `DeleteNamedProperty`, with what it returns. -/
def deleteNamedProperty (object : DynamicObject Value Class) (key : String) :
    DynamicObject Value Class × Bool :=
  match object.properties with
  | none => (object, false)
  | some properties =>
      if key ∈ properties then
        ({ object with properties := some (properties.erase key)
                       order := removeKey key object.order }, true)
      else (object, false)

def keys (object : DynamicObject Value Class) : List String :=
  object.order.filter object.hasNamedProperty

def setPrivateField (object : DynamicObject Value Class) (key : String) (value : Value) :
    DynamicObject Value Class :=
  { object with privateFields := some ((object.privateFields.getD ∅).insert key value) }

def getPrivateField (object : DynamicObject Value Class) (key : String) : Option Value :=
  match object.privateFields with
  | none => none
  | some fields => fields.lookup key

/-- `PrivateKeys`, in the order in which Go ranges over the map. -/
def privateKeys (mapOrder : MapOrder) (object : DynamicObject Value Class) : List String :=
  mapOrder.range ((object.privateFields.getD ∅).keys)

def copyTo (get : String → Option Value)
    (set : DynamicObject Value Class → String → Value → DynamicObject Value Class)
    (clone : DynamicObject Value Class) (key : String) : DynamicObject Value Class :=
  match get key with
  | some value => set clone key value
  | none => clone

def clone (mapOrder : MapOrder) (object : DynamicObject Value Class) : DynamicObject Value Class :=
  (object.privateKeys mapOrder).foldl (copyTo object.getPrivateField setPrivateField)
    (object.keys.foldl (copyTo object.getNamedProperty setNamedProperty)
      { (newObject : DynamicObject Value Class) with ofClass := object.ofClass })

/-- The order list holds the keys of the map, each once. -/
structure Ordered (object : DynamicObject Value Class) : Prop where
  nodup : object.order.Nodup
  mem : ∀ key, key ∈ object.order ↔ (object.getNamedProperty key).isSome

section Ordered

variable {object : DynamicObject Value Class} {key other : String} {value : Value}

theorem removeKey_eq_erase (key : String) (order : List String) :
    removeKey key order = order.erase key := by
  induction order with
  | nil => rfl
  | cons candidate rest ih =>
      by_cases heq : candidate = key
      · simp [removeKey, heq]
      · simp [removeKey, heq, ih]

theorem hasNamedProperty_iff :
    object.hasNamedProperty key = true ↔ (object.getNamedProperty key).isSome := by
  unfold hasNamedProperty getNamedProperty
  cases object.properties with
  | none => simp
  | some properties => simp [AList.lookup_isSome]

theorem mem_getD_properties :
    key ∈ object.properties.getD ∅ ↔ (object.getNamedProperty key).isSome := by
  unfold getNamedProperty
  cases object.properties with
  | none => simp
  | some properties => simp [AList.lookup_isSome]

@[simp]
theorem getNamedProperty_set_self :
    (object.setNamedProperty key value).getNamedProperty key = some value :=
  AList.lookup_insert _

theorem getNamedProperty_set_of_ne (hne : other ≠ key) :
    (object.setNamedProperty key value).getNamedProperty other = object.getNamedProperty other := by
  change ((object.properties.getD ∅).insert key value).lookup other = _
  rw [AList.lookup_insert_ne hne, getNamedProperty]
  cases object.properties with
  | none => rfl
  | some properties => rfl

theorem order_set : (object.setNamedProperty key value).order =
    if (object.getNamedProperty key).isSome then object.order else object.order ++ [key] := by
  rw [setNamedProperty]
  simp only [mem_getD_properties]

@[simp]
theorem getNamedProperty_delete_self :
    (object.deleteNamedProperty key).1.getNamedProperty key = none := by
  cases hmap : object.properties with
  | none => simp [deleteNamedProperty, getNamedProperty, hmap]
  | some properties =>
      by_cases hmem : key ∈ properties
      · simp [deleteNamedProperty, getNamedProperty, hmap, hmem]
      · simp [deleteNamedProperty, getNamedProperty, hmap, hmem, AList.lookup_eq_none.mpr hmem]

theorem getNamedProperty_delete_of_ne (hne : other ≠ key) :
    (object.deleteNamedProperty key).1.getNamedProperty other = object.getNamedProperty other := by
  cases hmap : object.properties with
  | none => simp [deleteNamedProperty, getNamedProperty, hmap]
  | some properties =>
      by_cases hmem : key ∈ properties
      · simp [deleteNamedProperty, getNamedProperty, hmap, hmem, AList.lookup_erase_ne hne]
      · simp [deleteNamedProperty, getNamedProperty, hmap, hmem]

theorem Ordered.order_delete (hordered : object.Ordered) :
    (object.deleteNamedProperty key).1.order = object.order.erase key := by
  have hmem : key ∈ object.order ↔ key ∈ object.properties.getD ∅ := by
    rw [hordered.mem, mem_getD_properties]
  cases hmap : object.properties with
  | none =>
      have hnot : key ∉ object.order := by simp [hmem, hmap]
      simp [deleteNamedProperty, hmap, List.erase_of_not_mem hnot]
  | some properties =>
      rw [hmap, Option.getD_some] at hmem
      by_cases hthere : key ∈ properties
      · simp [deleteNamedProperty, hmap, hthere, removeKey_eq_erase]
      · simp [deleteNamedProperty, hmap, hthere, List.erase_of_not_mem (mt hmem.mp hthere)]

theorem Ordered.set (hordered : object.Ordered) (key : String) (value : Value) :
    (object.setNamedProperty key value).Ordered where
  nodup := by
    rw [order_set]
    split
    · exact hordered.nodup
    · rename_i hnew
      refine List.nodup_append.mpr ⟨hordered.nodup, List.nodup_singleton key, ?_⟩
      rintro other hother _ hkey rfl
      rw [List.mem_singleton.mp hkey, hordered.mem] at hother
      exact hnew hother
  mem other := by
    rw [order_set]
    by_cases heq : other = key
    · subst heq
      rw [getNamedProperty_set_self]
      split
      · rename_i hthere
        simpa using (hordered.mem other).mpr hthere
      · simp
    · rw [getNamedProperty_set_of_ne heq, ← hordered.mem other]
      split
      · rfl
      · simp [heq]

theorem Ordered.delete (hordered : object.Ordered) (key : String) :
    (object.deleteNamedProperty key).1.Ordered where
  nodup := by
    rw [hordered.order_delete]
    exact hordered.nodup.erase key
  mem other := by
    rw [hordered.order_delete, hordered.nodup.mem_erase_iff]
    by_cases heq : other = key
    · simp [heq]
    · rw [getNamedProperty_delete_of_ne heq, hordered.mem]
      simp [heq]

theorem Ordered.keys_eq (hordered : object.Ordered) : object.keys = object.order :=
  List.filter_eq_self.mpr fun key hkey =>
    hasNamedProperty_iff.mpr ((hordered.mem key).mp hkey)

theorem Ordered.of_blank (horder : object.order = [])
    (hproperties : object.properties.getD ∅ = ∅) : object.Ordered where
  nodup := by
    rw [horder]
    exact List.nodup_nil
  mem key := by
    rw [horder, ← mem_getD_properties, hproperties]
    simp

end Ordered

section Clone

variable {object : DynamicObject Value Class} {mapOrder : MapOrder} {key other : String}
  {value : Value}

@[simp]
theorem getPrivateField_setPrivate_self :
    (object.setPrivateField key value).getPrivateField key = some value :=
  AList.lookup_insert _

theorem getPrivateField_setPrivate_of_ne (hne : other ≠ key) :
    (object.setPrivateField key value).getPrivateField other = object.getPrivateField other := by
  change ((object.privateFields.getD ∅).insert key value).lookup other = _
  rw [AList.lookup_insert_ne hne, getPrivateField]
  cases object.privateFields with
  | none => rfl
  | some fields => rfl

theorem mem_privateKeys :
    key ∈ object.privateKeys mapOrder ↔ (object.getPrivateField key).isSome := by
  rw [privateKeys, (mapOrder.perm _).mem_iff, ← AList.mem_keys, getPrivateField]
  cases object.privateFields with
  | none => simp
  | some fields => simp [AList.lookup_isSome]

variable {get : String → Option Value}

theorem foldl_copyTo {set : DynamicObject Value Class → String → Value → DynamicObject Value Class}
    {read : DynamicObject Value Class → String → Option Value}
    (hself : ∀ object key value, read (set object key value) key = some value)
    (hother : ∀ object key value other, other ≠ key →
      read (set object key value) other = read object other) (keys : List String)
    (object : DynamicObject Value Class) (key : String) :
    read (keys.foldl (copyTo get set) object) key =
      if key ∈ keys ∧ (get key).isSome then get key else read object key := by
  induction keys generalizing object with
  | nil => simp
  | cons first rest ih =>
      rw [List.foldl_cons, ih]
      by_cases hrest : key ∈ rest ∧ (get key).isSome
      · simp [hrest]
      · rw [if_neg hrest, copyTo]
        by_cases heq : key = first
        · subst heq
          cases hget : get key with
          | none => simp
          | some value => simp [hself]
        · have hnot : ¬(key ∈ first :: rest ∧ (get key).isSome) := by
            simpa [heq] using hrest
          rw [if_neg hnot]
          cases get first with
          | none => rfl
          | some value => exact hother _ _ _ _ heq

theorem foldl_copyTo_all
    {set : DynamicObject Value Class → String → Value → DynamicObject Value Class}
    {read : DynamicObject Value Class → String → Option Value}
    (hself : ∀ object key value, read (set object key value) key = some value)
    (hother : ∀ object key value other, other ≠ key →
      read (set object key value) other = read object other) {keys : List String}
    (hkeys : ∀ key, key ∈ keys ↔ (get key).isSome) {object : DynamicObject Value Class}
    (hblank : ∀ key, read object key = none) (key : String) :
    read (keys.foldl (copyTo get set) object) key = get key := by
  rw [foldl_copyTo hself hother, hblank]
  by_cases hkey : key ∈ keys
  · rw [if_pos ⟨hkey, (hkeys key).mp hkey⟩]
  · rw [if_neg fun hboth => hkey hboth.1]
    exact (Option.not_isSome_iff_eq_none.mp (mt (hkeys key).mpr hkey)).symm

theorem order_foldl_copyTo {keys : List String} {object : DynamicObject Value Class}
    (hnodup : keys.Nodup) (hget : ∀ key ∈ keys, (get key).isSome)
    (hnew : ∀ key ∈ keys, object.getNamedProperty key = none) :
    (keys.foldl (copyTo get setNamedProperty) object).order = object.order ++ keys := by
  induction keys generalizing object with
  | nil => simp
  | cons key rest ih =>
      obtain ⟨hkey, hrest⟩ := List.nodup_cons.mp hnodup
      obtain ⟨value, hvalue⟩ := Option.isSome_iff_exists.mp (hget key List.mem_cons_self)
      have hfirst : copyTo get setNamedProperty object key = object.setNamedProperty key value := by
        rw [copyTo, hvalue]
      rw [List.foldl_cons, hfirst, ih hrest fun other hother => hget other (.tail _ hother)]
      · rw [order_set, if_neg (by simp [hnew key List.mem_cons_self]), List.append_assoc]
        rfl
      · intro other hother
        have hne : other ≠ key := by
          rintro rfl
          exact hkey hother
        rw [getNamedProperty_set_of_ne hne]
        exact hnew other (.tail _ hother)

theorem foldl_copyPrivate (get : String → Option Value) (keys : List String)
    (object : DynamicObject Value Class) :
    (keys.foldl (copyTo get setPrivateField) object).properties = object.properties ∧
      (keys.foldl (copyTo get setPrivateField) object).order = object.order ∧
      (keys.foldl (copyTo get setPrivateField) object).ofClass = object.ofClass := by
  induction keys generalizing object with
  | nil => exact ⟨rfl, rfl, rfl⟩
  | cons key rest ih =>
      rw [List.foldl_cons]
      have hfirst : (copyTo get setPrivateField object key).properties = object.properties ∧
          (copyTo get setPrivateField object key).order = object.order ∧
          (copyTo get setPrivateField object key).ofClass = object.ofClass := by
        unfold copyTo
        cases get key with
        | none => exact ⟨rfl, rfl, rfl⟩
        | some value => exact ⟨rfl, rfl, rfl⟩
      obtain ⟨hproperties, horder, hclass⟩ := ih (copyTo get setPrivateField object key)
      exact ⟨hproperties.trans hfirst.1, horder.trans hfirst.2.1, hclass.trans hfirst.2.2⟩

theorem foldl_copyNamed (get : String → Option Value) (keys : List String)
    (object : DynamicObject Value Class) :
    (keys.foldl (copyTo get setNamedProperty) object).privateFields = object.privateFields ∧
      (keys.foldl (copyTo get setNamedProperty) object).ofClass = object.ofClass := by
  induction keys generalizing object with
  | nil => exact ⟨rfl, rfl⟩
  | cons key rest ih =>
      rw [List.foldl_cons]
      have hfirst : (copyTo get setNamedProperty object key).privateFields = object.privateFields ∧
          (copyTo get setNamedProperty object key).ofClass = object.ofClass := by
        unfold copyTo
        cases get key with
        | none => exact ⟨rfl, rfl⟩
        | some value => exact ⟨rfl, rfl⟩
      obtain ⟨hfields, hclass⟩ := ih (copyTo get setNamedProperty object key)
      exact ⟨hfields.trans hfirst.1, hclass.trans hfirst.2⟩

theorem getNamedProperty_congr {first second : DynamicObject Value Class}
    (hproperties : first.properties = second.properties) :
    first.getNamedProperty = second.getNamedProperty := by
  funext key
  rw [getNamedProperty, getNamedProperty, hproperties]

theorem getPrivateField_congr {first second : DynamicObject Value Class}
    (hfields : first.privateFields = second.privateFields) :
    first.getPrivateField = second.getPrivateField := by
  funext key
  rw [getPrivateField, getPrivateField, hfields]

theorem getNamedProperty_blank :
    { (newObject : DynamicObject Value Class) with ofClass := object.ofClass }.getNamedProperty key =
      none := rfl

theorem Ordered.getNamedProperty_clone (hordered : object.Ordered) :
    (object.clone mapOrder).getNamedProperty key = object.getNamedProperty key := by
  have hcopied := (foldl_copyPrivate object.getPrivateField (object.privateKeys mapOrder)
    (object.keys.foldl (copyTo object.getNamedProperty setNamedProperty)
      { (newObject : DynamicObject Value Class) with ofClass := object.ofClass })).1
  rw [clone, getNamedProperty_congr hcopied]
  refine foldl_copyTo_all (fun _ _ _ => getNamedProperty_set_self)
    (fun _ _ _ _ hne => getNamedProperty_set_of_ne hne) (fun key => ?_)
    (fun _ => getNamedProperty_blank) key
  rw [hordered.keys_eq]
  exact hordered.mem key

theorem Ordered.keys_clone (hordered : object.Ordered) :
    (object.clone mapOrder).keys = object.keys := by
  have horder : (object.clone mapOrder).order = object.order := by
    rw [clone, (foldl_copyPrivate _ _ _).2.1, hordered.keys_eq]
    refine (order_foldl_copyTo hordered.nodup (fun key => (hordered.mem key).mp)
      fun key _ => rfl).trans ?_
    rfl
  rw [hordered.keys_eq, keys, horder]
  refine List.filter_eq_self.mpr fun key hkey => ?_
  rw [hasNamedProperty_iff, hordered.getNamedProperty_clone]
  exact (hordered.mem key).mp hkey

theorem getPrivateField_clone :
    (object.clone mapOrder).getPrivateField key = object.getPrivateField key := by
  rw [clone]
  refine foldl_copyTo_all (fun _ _ _ => getPrivateField_setPrivate_self)
    (fun _ _ _ _ hne => getPrivateField_setPrivate_of_ne hne) (fun key => mem_privateKeys)
    (fun key => ?_) key
  rw [getPrivateField_congr (foldl_copyNamed _ _ _).1]
  rfl

theorem ofClass_clone : (object.clone mapOrder).ofClass = object.ofClass := by
  rw [clone, (foldl_copyPrivate _ _ _).2.2, (foldl_copyNamed _ _ _).2]

end Clone

/-- A call that changes an object. -/
inductive Call (Value : Type*) where
  | set (key : String) (value : Value)
  | delete (key : String)
  | setPrivate (key : String) (value : Value)

def Call.apply (object : DynamicObject Value Class) : Call Value → DynamicObject Value Class
  | .set key value => object.setNamedProperty key value
  | .delete key => (object.deleteNamedProperty key).1
  | .setPrivate key value => object.setPrivateField key value

def run (object : DynamicObject Value Class) (calls : List (Call Value)) :
    DynamicObject Value Class :=
  calls.foldl Call.apply object

/-- The last call about the key that counts set it. -/
def Present (calls : List (Call Value)) (key : String) : Prop :=
  ∃ (index : Nat) (value : Value), calls[index]? = some (Call.set key value) ∧
    ∀ later, index < later → calls[later]? ≠ some (Call.delete key)

/-- The key was inserted by the call at an index, and was not deleted since. -/
def InsertedAt (calls : List (Call Value)) (key : String) (index : Nat) : Prop :=
  (∃ value, calls[index]? = some (Call.set key value)) ∧ ¬Present (calls.take index) key ∧
    ∀ later, index < later → calls[later]? ≠ some (Call.delete key)

section History

variable {calls : List (Call Value)} {call : Call Value} {key other : String} {index : Nat}

theorem getElem?_snoc_eq_some {α : Type*} {list : List α} {last item : α} {index : Nat} :
    (list ++ [last])[index]? = some item ↔
      list[index]? = some item ∨ index = list.length ∧ last = item := by
  rcases Nat.lt_trichotomy index list.length with hlt | rfl | hgt
  · rw [List.getElem?_append_left hlt]
    simp [Nat.ne_of_lt hlt]
  · simp
  · rw [List.getElem?_eq_none (by simp; omega), List.getElem?_eq_none (by omega)]
    simp [Nat.ne_of_gt hgt]

theorem lt_of_getElem?_eq_some {α : Type*} {list : List α} {item : α} {index : Nat}
    (hitem : list[index]? = some item) : index < list.length :=
  (List.getElem?_eq_some_iff.mp hitem).1

theorem not_deleted_snoc (hindex : index < calls.length) :
    (∀ later, index < later → (calls ++ [call])[later]? ≠ some (Call.delete key)) ↔
      (∀ later, index < later → calls[later]? ≠ some (Call.delete key)) ∧ call ≠ .delete key := by
  simp only [ne_eq, getElem?_snoc_eq_some, not_or]
  constructor
  · intro hlater
    exact ⟨fun later hlt => (hlater later hlt).1, fun heq => (hlater _ hindex).2 ⟨rfl, heq⟩⟩
  · rintro ⟨hlater, hlast⟩ later hlt
    exact ⟨hlater later hlt, fun heq => hlast heq.2⟩

theorem present_snoc : Present (calls ++ [call]) key ↔
    (∃ value, call = .set key value) ∨ Present calls key ∧ call ≠ .delete key := by
  constructor
  · rintro ⟨index, value, hset, hlater⟩
    rcases getElem?_snoc_eq_some.mp hset with hold | ⟨_, heq⟩
    · obtain ⟨hlater, hlast⟩ := (not_deleted_snoc (lt_of_getElem?_eq_some hold)).mp hlater
      exact .inr ⟨⟨index, value, hold, hlater⟩, hlast⟩
    · exact .inl ⟨value, heq⟩
  · rintro (⟨value, heq⟩ | ⟨⟨index, value, hold, hlater⟩, hlast⟩)
    · refine ⟨calls.length, value, getElem?_snoc_eq_some.mpr (.inr ⟨rfl, heq⟩), ?_⟩
      intro later hlt hdelete
      have hbound := lt_of_getElem?_eq_some hdelete
      rw [List.length_append, List.length_singleton] at hbound
      omega
    · exact ⟨index, value, getElem?_snoc_eq_some.mpr (.inl hold),
        (not_deleted_snoc (lt_of_getElem?_eq_some hold)).mpr ⟨hlater, hlast⟩⟩

theorem insertedAt_snoc : InsertedAt (calls ++ [call]) key index ↔
    InsertedAt calls key index ∧ call ≠ .delete key ∨
      index = calls.length ∧ (∃ value, call = .set key value) ∧ ¬Present calls key := by
  rcases Nat.lt_or_ge index calls.length with hlt | hge
  · rw [InsertedAt, InsertedAt, not_deleted_snoc hlt, List.take_append_of_le_length (Nat.le_of_lt hlt),
      List.getElem?_append_left hlt]
    have hne := Nat.ne_of_lt hlt
    tauto
  · have hnot : ¬InsertedAt calls key index := by
      rintro ⟨⟨value, hset⟩, _⟩
      exact absurd (lt_of_getElem?_eq_some hset) (Nat.not_lt.mpr hge)
    constructor
    · rintro ⟨⟨value, hset⟩, hnew, _⟩
      rcases getElem?_snoc_eq_some.mp hset with hold | ⟨rfl, heq⟩
      · exact absurd (lt_of_getElem?_eq_some hold) (Nat.not_lt.mpr hge)
      · rw [List.take_left] at hnew
        exact .inr ⟨rfl, ⟨value, heq⟩, hnew⟩
    · rintro (⟨hold, _⟩ | ⟨rfl, ⟨value, heq⟩, hnew⟩)
      · exact absurd hold hnot
      · refine ⟨⟨value, getElem?_snoc_eq_some.mpr (.inr ⟨rfl, heq⟩)⟩, by rwa [List.take_left], ?_⟩
        intro later hlt hdelete
        have hbound := lt_of_getElem?_eq_some hdelete
        rw [List.length_append, List.length_singleton] at hbound
        omega

theorem present_nil : ¬Present ([] : List (Call Value)) key := by
  rintro ⟨index, value, hset, _⟩
  simp at hset

theorem insertedAt_lt (hinserted : InsertedAt calls key index) : index < calls.length := by
  obtain ⟨⟨value, hset⟩, _⟩ := hinserted
  exact lt_of_getElem?_eq_some hset

end History

structure Follows (calls : List (Call Value)) (object : DynamicObject Value Class) : Prop where
  ordered : object.Ordered
  present : ∀ key, key ∈ object.order ↔ Present calls key
  sorted : object.order.Pairwise fun first second =>
    ∀ early late, InsertedAt calls first early → InsertedAt calls second late → early < late

section Follows

variable {calls : List (Call Value)} {object : DynamicObject Value Class}

theorem Follows.of_blank (horder : object.order = [])
    (hproperties : object.properties.getD ∅ = ∅) : Follows [] object where
  ordered := .of_blank horder hproperties
  present key := by
    rw [horder]
    exact iff_of_false List.not_mem_nil present_nil
  sorted := by
    rw [horder]
    exact .nil

theorem Follows.apply (hfollows : Follows calls object) (call : Call Value) :
    Follows (calls ++ [call]) (call.apply object) := by
  cases call with
  | set key value =>
      have hthere : (object.getNamedProperty key).isSome ↔ Present calls key := by
        rw [← hfollows.ordered.mem, hfollows.present]
      have hkept : object.order.Pairwise fun first second => ∀ early late,
          InsertedAt (calls ++ [.set key value]) first early →
            InsertedAt (calls ++ [.set key value]) second late → early < late := by
        refine hfollows.sorted.imp_of_mem fun {first second} hfirst hsecond hsorted => ?_
        intro early late hearly hlate
        rw [hfollows.present] at hfirst hsecond
        rcases insertedAt_snoc.mp hearly with ⟨hearly, _⟩ | ⟨_, ⟨_, heq⟩, hnew⟩
        · rcases insertedAt_snoc.mp hlate with ⟨hlate, _⟩ | ⟨_, ⟨_, heq⟩, hnew⟩
          · exact hsorted early late hearly hlate
          · cases heq
            exact absurd hsecond hnew
        · cases heq
          exact absurd hfirst hnew
      refine ⟨hfollows.ordered.set key value, fun other => ?_, ?_⟩
      · rw [Call.apply, order_set, present_snoc, ← hfollows.present]
        by_cases heq : other = key
        · subst heq
          have hset : ∃ value', Call.set other value = .set other value' := ⟨value, rfl⟩
          refine iff_of_true ?_ (.inl hset)
          split
          · rename_i hold
            exact (hfollows.ordered.mem other).mpr hold
          · exact List.mem_append_right _ (List.mem_singleton_self _)
        · have hnot : ¬∃ value', Call.set key value = .set other value' := by
            rintro ⟨value', hset⟩
            cases hset
            exact heq rfl
          have hne : Call.set key value ≠ .delete other := nofun
          rw [or_iff_right hnot, and_iff_left hne]
          split
          · rfl
          · simp [heq]
      · rw [Call.apply, order_set]
        split
        · exact hkept
        · rename_i hnew
          refine List.pairwise_append.mpr ⟨hkept, List.pairwise_singleton _ _, ?_⟩
          intro first hfirst second hsecond early late hearly hlate
          obtain rfl : second = key := List.mem_singleton.mp hsecond
          rcases insertedAt_snoc.mp hearly with ⟨hearly, _⟩ | ⟨_, ⟨_, heq⟩, hnot⟩
          · rcases insertedAt_snoc.mp hlate with ⟨hlate, _⟩ | ⟨rfl, _⟩
            · obtain ⟨⟨value', hset⟩, _, hlater⟩ := hlate
              exact absurd (hthere.mpr ⟨late, value', hset, hlater⟩) hnew
            · exact insertedAt_lt hearly
          · cases heq
            exact absurd ((hfollows.present _).mp hfirst) hnot
  | delete key =>
      refine ⟨hfollows.ordered.delete key, fun other => ?_, ?_⟩
      · rw [Call.apply, hfollows.ordered.order_delete, hfollows.ordered.nodup.mem_erase_iff,
          present_snoc, hfollows.present]
        simp [eq_comm, and_comm]
      · rw [Call.apply, hfollows.ordered.order_delete]
        refine (hfollows.sorted.sublist (List.erase_sublist)).imp ?_
        intro first second hsorted early late hearly hlate
        rcases insertedAt_snoc.mp hearly with ⟨hearly, _⟩ | ⟨_, ⟨_, heq⟩, _⟩
        · rcases insertedAt_snoc.mp hlate with ⟨hlate, _⟩ | ⟨_, ⟨_, heq⟩, _⟩
          · exact hsorted early late hearly hlate
          · cases heq
        · cases heq
  | setPrivate key value =>
      refine ⟨⟨hfollows.ordered.nodup, hfollows.ordered.mem⟩, fun other => ?_, ?_⟩
      · have hset : ¬∃ value', Call.setPrivate key value = .set other value' := by simp
        rw [present_snoc, or_iff_right hset, and_iff_left (by simp)]
        exact hfollows.present other
      · refine hfollows.sorted.imp ?_
        intro first second hsorted early late hearly hlate
        rcases insertedAt_snoc.mp hearly with ⟨hearly, _⟩ | ⟨_, ⟨_, heq⟩, _⟩
        · rcases insertedAt_snoc.mp hlate with ⟨hlate, _⟩ | ⟨_, ⟨_, heq⟩, _⟩
          · exact hsorted early late hearly hlate
          · cases heq
        · cases heq

theorem Follows.run (hfollows : Follows calls object) (more : List (Call Value)) :
    Follows (calls ++ more) (object.run more) := by
  induction more generalizing calls object with
  | nil => rwa [List.append_nil]
  | cons call more ih =>
      have hrest := ih (hfollows.apply call)
      rwa [List.append_assoc, List.singleton_append] at hrest

end Follows

/-- After any calls, the order list holds the keys of the map, each once; the keys are those present,
in the order of their latest insertion; and a clone has the same keys in the same order, with the same
values, private fields and class. -/
theorem run_follows (mapOrder : MapOrder) (made : Bool) (calls : List (Call Value)) :
    let object : DynamicObject Value Class := (if made then newObject else zero).run calls
    (object.order.Nodup ∧ ∀ key, key ∈ object.order ↔ key ∈ object.properties.getD ∅) ∧
      ((∀ key, key ∈ object.keys ↔ Present calls key) ∧
        object.keys.Pairwise fun first second => ∀ early late,
          InsertedAt calls first early → InsertedAt calls second late → early < late) ∧
      (object.clone mapOrder).keys = object.keys ∧
      (object.clone mapOrder).getNamedProperty = object.getNamedProperty ∧
      (object.clone mapOrder).getPrivateField = object.getPrivateField ∧
      (object.clone mapOrder).ofClass = object.ofClass := by
  intro object
  have hblank : Follows [] (if made then newObject else zero : DynamicObject Value Class) := by
    cases made with
    | true => exact .of_blank rfl rfl
    | false => exact .of_blank rfl rfl
  have hfollows : Follows calls object := hblank.run calls
  have hordered := hfollows.ordered
  refine ⟨⟨hordered.nodup, fun key => ?_⟩, ?_, hordered.keys_clone, ?_, ?_, ofClass_clone⟩
  · rw [hordered.mem, mem_getD_properties]
  · rw [hordered.keys_eq]
    exact ⟨hfollows.present, hfollows.sorted⟩
  · funext key
    exact hordered.getNamedProperty_clone
  · funext key
    exact getPrivateField_clone

end DynamicObject

end Jayess.Runtime
