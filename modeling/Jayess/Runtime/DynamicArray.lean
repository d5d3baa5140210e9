import Jayess.Number.Decimal
import Jayess.Runtime.DynamicObject

/-!
# Dynamic arrays
-/

namespace Jayess.Runtime

variable {Value Class : Type*}

/-- `runtime.Array`; a slot that is not present is a hole, and the properties may be a nil pointer. -/
structure DynamicArray (Value Class : Type*) where
  slots : List (Option Value)
  properties : Option (DynamicObject Value Class)
  fits : slots.length < 2 ^ 63

def arrayIndexKey (index : Int64) : String := Decimal.itoa index

def arrayIndexFromKey (key : String) : Option Int64 :=
  if key = "" then none
  else if key ≠ "0" ∧ key.toList.head? = some '0' then none
  else
    match Decimal.atoi key with
    | none => none
    | some index =>
        if index < 0 then none
        else if Decimal.itoa index ≠ key then none
        else some index

/-- The conversions between numbers and values that the key `length` needs: `NewNumber` of a length and
the int of `Number`. -/
structure LengthValues (Value : Type*) where
  number : Nat → Value
  int : Value → Int64

namespace DynamicArray

def zero : DynamicArray Value Class := ⟨[], none, Nat.two_pow_pos 63⟩

/-- `NewArray`, of no values. -/
def newArray : DynamicArray Value Class := ⟨[], some DynamicObject.newObject, Nat.two_pow_pos 63⟩

def length (array : DynamicArray Value Class) : Nat := array.slots.length

/-- `ensureLength`: holes up to a length. -/
def ensureLength (array : DynamicArray Value Class) (length : Int64) : DynamicArray Value Class :=
  { array with
    slots := array.slots ++ List.replicate (length.toInt.toNat - array.slots.length) none
    fits := by
      have hfits := array.fits
      have hlength := Word.toInt_bounds length
      rw [List.length_append, List.length_replicate]
      omega }

/-- The properties, made where there are none: `ensureProperties`. -/
def named (array : DynamicArray Value Class) : DynamicObject Value Class :=
  array.properties.getD DynamicObject.newObject

/-- `Push`, with the length that it returns; nothing where the grown slice cannot be made. -/
def push (array : DynamicArray Value Class) (value : Value) :
    Option (DynamicArray Value Class × Nat) :=
  if fits : (array.slots ++ [some value]).length < 2 ^ 63 then
    some ({ array with slots := array.slots ++ [some value], fits := fits }, array.slots.length + 1)
  else none

/-- `SetIndex`; nothing where the slot is out of range. -/
def setIndex (array : DynamicArray Value Class) (index : Int64) (value : Value) :
    Option (DynamicArray Value Class) :=
  if index < 0 then some array
  else
    let array := array.ensureLength (index + 1)
    if index.toInt.toNat < array.slots.length then
      some { array with
        slots := array.slots.set index.toInt.toNat (some value)
        fits := by
          rw [List.length_set]
          exact array.fits }
    else none

def getIndex (array : DynamicArray Value Class) (index : Int64) : Option Value :=
  if index < 0 ∨ array.slots.length ≤ index.toInt.toNat then none
  else (array.slots[index.toInt.toNat]?).join

/-- `DeleteIndex`, with what it returns. -/
def deleteIndex (array : DynamicArray Value Class) (index : Int64) :
    DynamicArray Value Class × Bool :=
  if (array.getIndex index).isNone then (array, false)
  else
    ({ array with
      slots := array.slots.set index.toInt.toNat none
      fits := by
        rw [List.length_set]
        exact array.fits }, true)

def setLength (array : DynamicArray Value Class) (length : Int64) : DynamicArray Value Class :=
  let length := if length < 0 then 0 else length
  let array := array.ensureLength length
  { array with
    slots := array.slots.take length.toInt.toNat
    fits := Nat.lt_of_le_of_lt (List.length_take_le' _ _) array.fits }

def slotKeys : Nat → List (Option Value) → List String
  | _, [] => []
  | index, some _ :: rest => arrayIndexKey (Int64.ofNat index) :: slotKeys (index + 1) rest
  | index, none :: rest => slotKeys (index + 1) rest

def keys (array : DynamicArray Value Class) : List String :=
  slotKeys 0 array.slots ++ array.named.keys

def setNamedProperty (values : LengthValues Value) (array : DynamicArray Value Class) (key : String)
    (value : Value) : Option (DynamicArray Value Class) :=
  if key = "length" then some (array.setLength (values.int value))
  else
    match arrayIndexFromKey key with
    | some index => array.setIndex index value
    | none => some { array with properties := some (array.named.setNamedProperty key value) }

def getNamedProperty (values : LengthValues Value) (array : DynamicArray Value Class)
    (key : String) : Option Value :=
  if key = "length" then some (values.number array.length)
  else
    match arrayIndexFromKey key with
    | some index => array.getIndex index
    | none => array.named.getNamedProperty key

def hasNamedProperty (array : DynamicArray Value Class) (key : String) : Bool :=
  if key = "length" then true
  else
    match arrayIndexFromKey key with
    | some index => (array.getIndex index).isSome
    | none => array.named.hasNamedProperty key

end DynamicArray

structure ArrayReference (Value : Type*) where
  length : Nat
  indices : Nat → Option Value
  names : List (String × Value)

namespace ArrayReference

def empty : ArrayReference Value := ⟨0, fun _ => none, []⟩

def setIndex (reference : ArrayReference Value) (index : Nat) (value : Value) :
    ArrayReference Value :=
  { reference with
    length := max reference.length (index + 1)
    indices := Function.update reference.indices index (some value) }

def deleteIndex (reference : ArrayReference Value) (index : Nat) : ArrayReference Value :=
  { reference with indices := Function.update reference.indices index none }

def setLength (reference : ArrayReference Value) (length : Nat) : ArrayReference Value :=
  { reference with
    length := length
    indices := fun index => if index < length then reference.indices index else none }

def getName (reference : ArrayReference Value) (key : String) : Option Value :=
  (reference.names.find? fun pair => pair.1 = key).map Prod.snd

/-- A name that is there keeps its place. -/
def setName (reference : ArrayReference Value) (key : String) (value : Value) :
    ArrayReference Value :=
  { reference with
    names :=
      if key ∈ reference.names.map Prod.fst then
        reference.names.map fun pair => if pair.1 = key then (key, value) else pair
      else reference.names ++ [(key, value)] }

/-- A key denotes an index where it is its decimal form, and is a name otherwise. -/
def setNamedProperty (values : LengthValues Value) (reference : ArrayReference Value)
    (key : String) (value : Value) : ArrayReference Value :=
  if key = "length" then reference.setLength (values.int value).toInt.toNat
  else
    match Decimal.denoted key with
    | some index => reference.setIndex index value
    | none => reference.setName key value

def getNamedProperty (values : LengthValues Value) (reference : ArrayReference Value)
    (key : String) : Option Value :=
  if key = "length" then some (values.number reference.length)
  else
    match Decimal.denoted key with
    | some index => reference.indices index
    | none => reference.getName key

/-- The present indices in increasing order, then the names. -/
def keys (reference : ArrayReference Value) : List String :=
  ((List.range reference.length).filter fun index => (reference.indices index).isSome).map Nat.repr ++
    reference.names.map Prod.fst

end ArrayReference

/-- A call that changes an array. -/
inductive ArrayCall (Value : Type*) where
  | setNamedProperty (key : String) (value : Value)
  | setIndex (index : Int64) (value : Value)
  | push (value : Value)
  | deleteIndex (index : Int64)
  | setLength (length : Int64)

inductive ArrayAnswer where
  | done
  | length (length : Nat)
  | deleted (deleted : Bool)
deriving DecidableEq

namespace ArrayCall

/-- A call on an array; nothing where it panics. -/
def apply (values : LengthValues Value) (array : DynamicArray Value Class) :
    ArrayCall Value → Option (DynamicArray Value Class × ArrayAnswer)
  | .setNamedProperty key value => (array.setNamedProperty values key value).map (·, .done)
  | .setIndex index value => (array.setIndex index value).map (·, .done)
  | .push value => (array.push value).map fun result => (result.1, .length result.2)
  | .deleteIndex index => some ((array.deleteIndex index).1, .deleted (array.deleteIndex index).2)
  | .setLength length => some (array.setLength length, .done)

/-- A call on the reference model; a negative index is none and a negative length is zero. -/
def effect (values : LengthValues Value) (reference : ArrayReference Value) :
    ArrayCall Value → ArrayReference Value × ArrayAnswer
  | .setNamedProperty key value => (reference.setNamedProperty values key value, .done)
  | .setIndex index value =>
      (if index < 0 then reference else reference.setIndex index.toInt.toNat value, .done)
  | .push value => (reference.setIndex reference.length value, .length (reference.length + 1))
  | .deleteIndex index =>
      if index < 0 ∨ (reference.indices index.toInt.toNat).isNone then (reference, .deleted false)
      else (reference.deleteIndex index.toInt.toNat, .deleted true)
  | .setLength length => (reference.setLength length.toInt.toNat, .done)

/-- No index beyond the last but one that an int can hold is written. -/
def Exact (array : DynamicArray Value Class) : ArrayCall Value → Prop
  | .setNamedProperty key _ => key ≠ "length" → ∀ index, Decimal.denoted key = some index →
      index + 1 < 2 ^ 63
  | .setIndex index _ => index.toInt + 1 < 2 ^ 63
  | .push _ => array.length + 1 < 2 ^ 63
  | .deleteIndex _ => True
  | .setLength _ => True

end ArrayCall

namespace DynamicArray

/-- Whatever is read of the array and of the reference model is the same. -/
def Agrees (values : LengthValues Value) (array : DynamicArray Value Class)
    (reference : ArrayReference Value) : Prop :=
  array.length = reference.length ∧
    (∀ index : Int64, array.getIndex index =
      if index < 0 then none else reference.indices index.toInt.toNat) ∧
    (∀ key, array.getNamedProperty values key = reference.getNamedProperty values key) ∧
    (∀ key, array.hasNamedProperty key = (reference.getNamedProperty values key).isSome) ∧
    array.keys = reference.keys

/-- Over a sequence of calls, none panics, all return the same and all reads agree. -/
def AllAgree (values : LengthValues Value) (array : DynamicArray Value Class)
    (reference : ArrayReference Value) : List (ArrayCall Value) → Prop
  | [] => array.Agrees values reference
  | call :: rest => array.Agrees values reference ∧
      ∃ next, call.apply values array = some (next, (call.effect values reference).2) ∧
        AllAgree values next (call.effect values reference).1 rest

/-- Each call of a sequence is exact, in the state in which it is made. -/
def AllExact (values : LengthValues Value) (array : DynamicArray Value Class) :
    List (ArrayCall Value) → Prop
  | [] => True
  | call :: rest => call.Exact array ∧
      ∀ next answer, call.apply values array = some (next, answer) → next.AllExact values rest

/-- The array holds what the reference model says. -/
structure Represents (array : DynamicArray Value Class) (reference : ArrayReference Value) :
    Prop where
  length : array.slots.length = reference.length
  slots : ∀ index, (array.slots[index]?).join = reference.indices index
  ordered : array.named.Ordered
  order : array.named.order = reference.names.map Prod.fst
  values : ∀ key, array.named.getNamedProperty key = reference.getName key
  plain : ∀ key ∈ reference.names.map Prod.fst, key ≠ "length" ∧ Decimal.denoted key = none

section Keys

variable {key : String} {index : Int64} {values : LengthValues Value}

theorem arrayIndexFromKey_eq_some_iff : arrayIndexFromKey key = some index ↔
    ∃ denoted < 2 ^ 63, Decimal.denoted key = some denoted ∧ index = Int64.ofNat denoted := by
  constructor
  · intro hsome
    unfold arrayIndexFromKey at hsome
    split at hsome
    · cases hsome
    split at hsome
    · cases hsome
    cases hatoi : Decimal.atoi key with
    | none => simp [hatoi] at hsome
    | some word =>
        simp only [hatoi] at hsome
        split at hsome
        · cases hsome
        rename_i hnonneg
        split at hsome
        · cases hsome
        rename_i hitoa
        obtain rfl := Option.some.inj hsome
        rw [not_not] at hitoa
        have hzero : 0 ≤ word.toInt := by
          rw [Int64.lt_iff_toInt_lt] at hnonneg
          exact Int.not_lt.mp hnonneg
        have hbounds := Word.toInt_bounds word
        refine ⟨word.toInt.toNat, by omega, ?_, ?_⟩
        · rw [Decimal.denoted_eq_some_iff, ← hitoa, Decimal.itoa_of_nonneg hzero]
        · apply Int64.toInt_inj.mp
          rw [Int64.toInt_ofNat_of_lt (by omega)]
          omega
  · rintro ⟨denoted, hfits, hdenoted, rfl⟩
    obtain rfl := Decimal.denoted_eq_some_iff.mp hdenoted
    have htoInt : (Int64.ofNat denoted).toInt = denoted := Int64.toInt_ofNat_of_lt hfits
    have hnonneg : ¬Int64.ofNat denoted < 0 := by
      rw [Int64.lt_iff_toInt_lt, htoInt]
      exact Int.not_lt.mpr (Int.natCast_nonneg denoted)
    have hzeros : ¬(Nat.repr denoted ≠ "0" ∧ (Nat.repr denoted).toList.head? = some '0') := by
      rintro ⟨hne, hhead⟩
      rw [Nat.toList_repr] at hhead
      refine Decimal.head_toDigits_ne_zero denoted ?_ hhead
      rintro rfl
      exact hne rfl
    rw [arrayIndexFromKey, if_neg Nat.repr_ne_empty, if_neg hzeros, Decimal.atoi_repr hfits]
    simp only [hnonneg, if_false, Decimal.itoa_ofNat hfits, ne_eq, not_true_eq_false]

theorem arrayIndexFromKey_eq_none_iff : arrayIndexFromKey key = none ↔
    ∀ denoted, Decimal.denoted key = some denoted → 2 ^ 63 ≤ denoted := by
  rw [Option.eq_none_iff_forall_ne_some]
  constructor
  · intro hnone denoted hdenoted
    by_contra hlt
    exact hnone _ (arrayIndexFromKey_eq_some_iff.mpr
      ⟨denoted, Nat.lt_of_not_le hlt, hdenoted, rfl⟩)
  · intro hlarge index hsome
    obtain ⟨denoted, hfits, hdenoted, _⟩ := arrayIndexFromKey_eq_some_iff.mp hsome
    exact Nat.not_lt.mpr (hlarge denoted hdenoted) hfits

theorem slotKeys_eq (slots : List (Option Value)) (start : Nat)
    (hfits : start + slots.length ≤ 2 ^ 63) (present : Nat → Bool)
    (hpresent : ∀ index, ((slots[index]?).join).isSome = present (start + index) ∨
      slots.length ≤ index) :
    slotKeys start slots =
      ((List.range' start slots.length).filter present).map Nat.repr := by
  induction slots generalizing start with
  | nil => rfl
  | cons slot rest ih =>
      rw [List.length_cons] at hfits
      have hrest := ih (start + 1) (by omega) fun index => by
        rcases hpresent (index + 1) with hindex | hindex
        · rw [List.getElem?_cons_succ] at hindex
          rw [hindex]
          exact .inl (congrArg present (by omega))
        · rw [List.length_cons] at hindex
          exact .inr (by omega)
      have hfirst : slot.isSome = present start := by
        rcases hpresent 0 with hindex | hindex
        · simpa using hindex
        · simp at hindex
      rw [List.length_cons, List.range'_succ, List.filter_cons, ← hfirst]
      cases slot with
      | none => exact hrest
      | some value =>
          have hkey : arrayIndexKey (Int64.ofNat start) = Nat.repr start :=
            Decimal.itoa_ofNat (by omega)
          rw [slotKeys, hkey, hrest]
          rfl

end Keys

section Reads

variable {array : DynamicArray Value Class} {reference : ArrayReference Value}
  {values : LengthValues Value}

theorem toNat_lt_of_not_neg {index : Int64} (hnonneg : ¬index < 0) : 0 ≤ index.toInt := by
  rw [Int64.lt_iff_toInt_lt] at hnonneg
  exact Int.not_lt.mp hnonneg

theorem getIndex_eq (array : DynamicArray Value Class) (index : Int64) : array.getIndex index =
    if index < 0 then none else (array.slots[index.toInt.toNat]?).join := by
  unfold getIndex
  by_cases hnegative : index < 0
  · rw [if_pos (.inl hnegative), if_pos hnegative]
  rw [if_neg hnegative]
  by_cases hlength : array.slots.length ≤ index.toInt.toNat
  · rw [if_pos (.inr hlength), List.getElem?_eq_none hlength]
    rfl
  · rw [if_neg (not_or.mpr ⟨hnegative, hlength⟩)]

theorem Represents.getIndex (hrep : array.Represents reference) (index : Int64) :
    array.getIndex index = if index < 0 then none else reference.indices index.toInt.toNat := by
  rw [getIndex_eq, hrep.slots]

theorem Represents.indices_large (hrep : array.Represents reference) {index : Nat}
    (hlarge : 2 ^ 63 ≤ index) : reference.indices index = none := by
  rw [← hrep.slots, List.getElem?_eq_none (by have := array.fits; omega)]
  rfl

theorem Represents.getName_none (hrep : array.Represents reference) {key : String}
    (hkey : key = "length" ∨ Decimal.denoted key ≠ none) : reference.getName key = none := by
  rw [ArrayReference.getName, List.find?_eq_none.mpr]
  · rfl
  · intro pair hpair
    simp only [decide_eq_true_eq]
    rintro rfl
    obtain ⟨hlength, hdenoted⟩ := hrep.plain pair.1 (List.mem_map_of_mem hpair)
    exact hkey.elim hlength fun hne => hne hdenoted

theorem Represents.getNamedProperty (hrep : array.Represents reference) (key : String) :
    array.getNamedProperty values key = reference.getNamedProperty values key := by
  unfold DynamicArray.getNamedProperty ArrayReference.getNamedProperty
  by_cases hlength : key = "length"
  · rw [if_pos hlength, if_pos hlength, DynamicArray.length, hrep.length]
  rw [if_neg hlength, if_neg hlength]
  cases hindex : arrayIndexFromKey key with
  | some index =>
      obtain ⟨denoted, hfits, hdenoted, rfl⟩ := arrayIndexFromKey_eq_some_iff.mp hindex
      have htoInt : (Int64.ofNat denoted).toInt = denoted := Int64.toInt_ofNat_of_lt hfits
      have hnonneg : ¬Int64.ofNat denoted < 0 := by
        rw [Int64.lt_iff_toInt_lt, htoInt]
        exact Int.not_lt.mpr (Int.natCast_nonneg denoted)
      simp only [hdenoted, hrep.getIndex, if_neg hnonneg, htoInt, Int.toNat_natCast]
  | none =>
      have hlarge := arrayIndexFromKey_eq_none_iff.mp hindex
      dsimp only
      rw [hrep.values]
      cases hdenoted : Decimal.denoted key with
      | none => rfl
      | some denoted =>
          dsimp only
          rw [hrep.indices_large (hlarge denoted hdenoted)]
          exact hrep.getName_none (.inr (by simp [hdenoted]))

theorem hasNamedProperty_eq (values : LengthValues Value) (key : String) :
    array.hasNamedProperty key = (array.getNamedProperty values key).isSome := by
  unfold DynamicArray.hasNamedProperty DynamicArray.getNamedProperty
  by_cases hlength : key = "length"
  · rw [if_pos hlength, if_pos hlength]
    rfl
  rw [if_neg hlength, if_neg hlength]
  cases arrayIndexFromKey key with
  | some index => rfl
  | none => exact Bool.eq_iff_iff.mpr DynamicObject.hasNamedProperty_iff

theorem Represents.keys (hrep : array.Represents reference) : array.keys = reference.keys := by
  have hslots := slotKeys_eq array.slots 0 (by have := array.fits; omega)
    (fun index => (reference.indices index).isSome) fun index => .inl (by
      rw [hrep.slots, Nat.zero_add])
  rw [DynamicArray.keys, ArrayReference.keys, hrep.ordered.keys_eq, hrep.order, hslots, hrep.length,
    List.range_eq_range']

theorem Represents.agrees (hrep : array.Represents reference) : array.Agrees values reference := by
  refine ⟨hrep.length, hrep.getIndex, hrep.getNamedProperty, fun key => ?_, hrep.keys⟩
  rw [hasNamedProperty_eq values, hrep.getNamedProperty]

end Reads

section Step

variable {array next : DynamicArray Value Class} {reference : ArrayReference Value}
  {values : LengthValues Value} {call : ArrayCall Value}

theorem represents_empty (made : Bool) :
    Represents (if made then newArray else zero : DynamicArray Value Class) .empty := by
  have hnamed : (if made then newArray else zero : DynamicArray Value Class).named =
      DynamicObject.newObject := by
    cases made with
    | true => rfl
    | false => rfl
  have hslots : (if made then newArray else zero : DynamicArray Value Class).slots = [] := by
    cases made with
    | true => rfl
    | false => rfl
  constructor
  · rw [hslots]
    rfl
  · intro index
    rw [hslots]
    rfl
  · rw [hnamed]
    exact .of_blank rfl rfl
  · rw [hnamed]
    rfl
  · intro key
    rw [hnamed]
    rfl
  · exact nofun

theorem Represents.of_slots (hrep : array.Represents reference)
    (hproperties : next.properties = array.properties) {reference' : ArrayReference Value}
    (hnames : reference'.names = reference.names) (hlength : next.slots.length = reference'.length)
    (hslots : ∀ index, (next.slots[index]?).join = reference'.indices index) :
    next.Represents reference' := by
  have hnamed : next.named = array.named := by rw [named, named, hproperties]
  refine ⟨hlength, hslots, ?_, ?_, fun key => ?_, ?_⟩
  · rw [hnamed]
    exact hrep.ordered
  · rw [hnamed, hnames]
    exact hrep.order
  · rw [hnamed, hrep.values, ArrayReference.getName, ArrayReference.getName, hnames]
  · rw [hnames]
    exact hrep.plain

theorem join_getElem?_append_holes (slots : List (Option Value)) (count index : Nat) :
    ((slots ++ List.replicate count none)[index]?).join = (slots[index]?).join := by
  by_cases hlt : index < slots.length
  · rw [List.getElem?_append_left hlt]
  · have hle := Nat.le_of_not_lt hlt
    rw [List.getElem?_append_right hle, List.getElem?_replicate, List.getElem?_eq_none hle]
    split
    · rfl
    · rfl

theorem length_ensureLength (array : DynamicArray Value Class) (length : Int64) :
    (array.ensureLength length).slots.length = max array.slots.length length.toInt.toNat := by
  rw [ensureLength, List.length_append, List.length_replicate]
  omega

theorem setIndex_negative {index : Int64} {value : Value} (hnegative : index < 0) :
    array.setIndex index value = some array := if_pos hnegative

theorem setIndex_last {index : Int64} {value : Value} (hlast : ¬index.toInt + 1 < 2 ^ 63) :
    array.setIndex index value = none := by
  have hbounds := Word.toInt_bounds index
  have hnonneg : ¬index < 0 := by
    rw [Int64.lt_iff_toInt_lt]
    change ¬index.toInt < 0
    omega
  have hnext : (index + 1).toInt ≤ 0 := by
    have hindex : index.toInt = 2 ^ 63 - 1 := by omega
    rw [Int64.toInt_add, hindex]
    decide
  have hfits := array.fits
  have hlength := array.length_ensureLength (index + 1)
  rw [setIndex, if_neg hnonneg]
  exact if_neg (by omega)

theorem Represents.setIndex (hrep : array.Represents reference) {index : Int64} (value : Value)
    (hnonneg : ¬index < 0) (hexact : index.toInt + 1 < 2 ^ 63) :
    ∃ next, array.setIndex index value = some next ∧
      next.Represents (reference.setIndex index.toInt.toNat value) := by
  have hzero := toNat_lt_of_not_neg hnonneg
  have hnext : (index + 1).toInt = index.toInt + 1 := by
    rw [Int64.toInt_add]
    exact Word.bmod_eq_self (by change _ ≤ index.toInt + 1; omega) hexact
  have hlength := array.length_ensureLength (index + 1)
  rw [DynamicArray.setIndex, if_neg hnonneg]
  dsimp only
  rw [if_pos (by omega)]
  refine ⟨_, rfl, hrep.of_slots ?_ ?_ ?_ fun other => ?_⟩
  · rfl
  · rfl
  · change (List.set _ _ _).length = max reference.length (index.toInt.toNat + 1)
    rw [List.length_set, hlength, ← hrep.length]
    omega
  · change (List.set _ _ _)[other]?.join = Function.update reference.indices _ _ other
    by_cases heq : other = index.toInt.toNat
    · rw [heq, Function.update_self, List.getElem?_set_self (by omega)]
      rfl
    · rw [Function.update_of_ne heq, List.getElem?_set_ne (Ne.symm heq), ensureLength,
        join_getElem?_append_holes, hrep.slots]

theorem Represents.push (hrep : array.Represents reference) (value : Value)
    (hexact : array.length + 1 < 2 ^ 63) :
    ∃ next, array.push value = some (next, reference.length + 1) ∧
      next.Represents (reference.setIndex reference.length value) := by
  have hfits : (array.slots ++ [some value]).length < 2 ^ 63 := by
    rw [List.length_append, List.length_singleton]
    exact hexact
  rw [DynamicArray.push, dif_pos hfits, hrep.length]
  refine ⟨_, rfl, hrep.of_slots ?_ ?_ ?_ fun other => ?_⟩
  · rfl
  · rfl
  · change (array.slots ++ [some value]).length = max reference.length (reference.length + 1)
    rw [List.length_append, List.length_singleton, hrep.length]
    omega
  · change ((array.slots ++ [some value])[other]?).join =
      Function.update reference.indices _ _ other
    rcases Nat.lt_trichotomy other reference.length with hlt | heq | hgt
    · rw [Function.update_of_ne (Nat.ne_of_lt hlt),
        List.getElem?_append_left (by rwa [hrep.length]), hrep.slots]
    · rw [heq, Function.update_self, ← hrep.length, List.getElem?_concat_length]
      rfl
    · have hnone : reference.indices other = none := by
        rw [← hrep.slots, List.getElem?_eq_none (by rw [hrep.length]; omega)]
        rfl
      rw [Function.update_of_ne (Nat.ne_of_gt hgt), hnone, List.getElem?_eq_none]
      · rfl
      · rw [List.length_append, List.length_singleton, hrep.length]
        omega

theorem Represents.setLength (hrep : array.Represents reference) (length : Int64) :
    (array.setLength length).Represents (reference.setLength length.toInt.toNat) := by
  have hclamp : (if length < 0 then 0 else length).toInt.toNat = length.toInt.toNat := by
    split
    · rename_i hnegative
      rw [Int64.lt_iff_toInt_lt] at hnegative
      have hzero : length.toInt < 0 := hnegative
      have hnone : (0 : Int64).toInt.toNat = 0 := rfl
      omega
    · rfl
  have hlength := array.length_ensureLength (if length < 0 then 0 else length)
  refine hrep.of_slots ?_ ?_ ?_ fun other => ?_
  · rfl
  · rfl
  · change (List.take _ _).length = length.toInt.toNat
    rw [List.length_take, hlength, hclamp]
    omega
  · change ((List.take _ _)[other]?).join = if other < length.toInt.toNat then _ else none
    rw [List.getElem?_take, hclamp]
    split
    · rw [ensureLength, join_getElem?_append_holes, hrep.slots]
    · rfl

theorem Represents.deleteIndex (hrep : array.Represents reference) {index : Int64}
    (hthere : ¬(array.getIndex index).isNone) :
    (array.deleteIndex index).1.Represents (reference.deleteIndex index.toInt.toNat) := by
  rw [DynamicArray.deleteIndex, if_neg hthere]
  have hlt : index.toInt.toNat < array.slots.length := by
    by_contra hge
    refine hthere ?_
    rw [DynamicArray.getIndex, if_pos (.inr (Nat.le_of_not_lt hge))]
    rfl
  refine hrep.of_slots ?_ ?_ ?_ fun other => ?_
  · rfl
  · rfl
  · change (List.set _ _ _).length = reference.length
    rw [List.length_set, hrep.length]
  · change (List.set _ _ _)[other]?.join = Function.update reference.indices _ _ other
    by_cases heq : other = index.toInt.toNat
    · rw [heq, Function.update_self, List.getElem?_set_self hlt]
      rfl
    · rw [Function.update_of_ne heq, List.getElem?_set_ne (Ne.symm heq), hrep.slots]

theorem find_map_name (names : List (String × Value)) (key other : String) (value : Value) :
    ((names.map fun pair => if pair.1 = key then (key, value) else pair).find?
        fun pair => pair.1 = other).map Prod.snd =
      if other = key ∧ key ∈ names.map Prod.fst then some value
      else (names.find? fun pair => pair.1 = other).map Prod.snd := by
  induction names with
  | nil => simp
  | cons pair rest ih =>
      obtain ⟨name, old⟩ := pair
      by_cases hname : name = key
      · subst hname
        by_cases heq : other = name
        · subst heq
          simp
        · have hne : ¬name = other := Ne.symm heq
          rw [if_neg fun hboth => heq hboth.1] at ih ⊢
          rw [List.map_cons, if_pos rfl, List.find?_cons_of_neg (by simpa using hne),
            List.find?_cons_of_neg (by simpa using hne)]
          exact ih
      · by_cases heq : name = other
        · subst heq
          simp [hname]
        · rw [List.map_cons, if_neg hname, List.find?_cons_of_neg (by simpa using heq),
            List.find?_cons_of_neg (by simpa using heq), ih]
          have hmem : key ∈ ((name, old) :: rest).map Prod.fst ↔ key ∈ rest.map Prod.fst := by
            rw [List.map_cons, List.mem_cons, or_iff_right (Ne.symm hname)]
          simp only [hmem]

theorem getName_setName (reference : ArrayReference Value) (key other : String) (value : Value) :
    (reference.setName key value).getName other =
      if other = key then some value else reference.getName other := by
  unfold ArrayReference.getName ArrayReference.setName
  dsimp only
  by_cases hthere : key ∈ reference.names.map Prod.fst
  · rw [if_pos hthere, find_map_name]
    simp [hthere]
  · rw [if_neg hthere, List.find?_append]
    by_cases heq : other = key
    · subst heq
      have hnone : reference.names.find? (fun pair => pair.1 = other) = none := by
        refine List.find?_eq_none.mpr fun pair hpair => ?_
        simp only [decide_eq_true_eq]
        rintro rfl
        exact hthere (List.mem_map_of_mem hpair)
      simp [hnone]
    · simp [heq, Ne.symm heq]

theorem map_fst_setName (reference : ArrayReference Value) (key : String) (value : Value) :
    (reference.setName key value).names.map Prod.fst =
      if key ∈ reference.names.map Prod.fst then reference.names.map Prod.fst
      else reference.names.map Prod.fst ++ [key] := by
  rw [ArrayReference.setName]
  dsimp only
  split
  · rw [List.map_map]
    refine List.map_congr_left fun pair _ => ?_
    by_cases heq : pair.1 = key
    · simp [heq]
    · simp [heq]
  · rw [List.map_append]
    rfl

theorem Represents.setName (hrep : array.Represents reference) {key : String} (value : Value)
    (hlength : key ≠ "length") (hplain : Decimal.denoted key = none)
    (hproperties : next.properties = some (array.named.setNamedProperty key value))
    (hslots : next.slots = array.slots) : next.Represents (reference.setName key value) := by
  have hnamed : next.named = array.named.setNamedProperty key value := by
    rw [named, hproperties, Option.getD_some]
  have hthere : (array.named.getNamedProperty key).isSome ↔
      key ∈ reference.names.map Prod.fst := by
    rw [← hrep.order, hrep.ordered.mem]
  constructor
  · rw [hslots]
    exact hrep.length
  · intro index
    rw [hslots]
    exact hrep.slots index
  · rw [hnamed]
    exact hrep.ordered.set key value
  · rw [hnamed, DynamicObject.order_set, map_fst_setName, hrep.order]
    simp only [hthere]
  · intro other
    rw [hnamed, getName_setName]
    split
    · rename_i heq
      rw [heq, DynamicObject.getNamedProperty_set_self]
    · rename_i hne
      rw [DynamicObject.getNamedProperty_set_of_ne hne, hrep.values]
  · rw [map_fst_setName]
    split
    · exact hrep.plain
    · intro other hother
      rcases List.mem_append.mp hother with hother | hother
      · exact hrep.plain other hother
      · rw [List.mem_singleton.mp hother]
        exact ⟨hlength, hplain⟩

theorem Represents.apply (values : LengthValues Value) (hrep : array.Represents reference)
    (hexact : call.Exact array) :
    ∃ next, call.apply values array = some (next, (call.effect values reference).2) ∧
      next.Represents (call.effect values reference).1 := by
  cases call with
  | setNamedProperty key value =>
      rw [ArrayCall.apply, ArrayCall.effect, DynamicArray.setNamedProperty,
        ArrayReference.setNamedProperty]
      by_cases hlength : key = "length"
      · rw [if_pos hlength, if_pos hlength]
        exact ⟨_, rfl, hrep.setLength _⟩
      rw [if_neg hlength, if_neg hlength]
      cases hdenoted : Decimal.denoted key with
      | none =>
          have hindex : arrayIndexFromKey key = none := by
            rw [arrayIndexFromKey_eq_none_iff]
            intro denoted hsome
            simp [hdenoted] at hsome
          rw [hindex]
          exact ⟨_, rfl, hrep.setName value hlength hdenoted rfl rfl⟩
      | some denoted =>
          have hfits := hexact hlength denoted hdenoted
          have hindex : arrayIndexFromKey key = some (Int64.ofNat denoted) :=
            arrayIndexFromKey_eq_some_iff.mpr ⟨denoted, by omega, hdenoted, rfl⟩
          have htoInt : (Int64.ofNat denoted).toInt = denoted :=
            Int64.toInt_ofNat_of_lt (by omega)
          have hnonneg : ¬Int64.ofNat denoted < 0 := by
            rw [Int64.lt_iff_toInt_lt, htoInt]
            exact Int.not_lt.mpr (Int.natCast_nonneg denoted)
          obtain ⟨next, hset, hnext⟩ := hrep.setIndex value hnonneg (by omega)
          rw [htoInt, Int.toNat_natCast] at hnext
          rw [hindex]
          dsimp only
          rw [hset]
          exact ⟨next, rfl, hnext⟩
  | setIndex index value =>
      rw [ArrayCall.apply, ArrayCall.effect]
      by_cases hnegative : index < 0
      · rw [setIndex_negative hnegative, if_pos hnegative]
        exact ⟨array, rfl, hrep⟩
      · obtain ⟨next, hset, hnext⟩ := hrep.setIndex value hnegative hexact
        rw [hset, if_neg hnegative]
        exact ⟨next, rfl, hnext⟩
  | push value =>
      obtain ⟨next, hpush, hnext⟩ := hrep.push value hexact
      rw [ArrayCall.apply, hpush]
      exact ⟨next, rfl, hnext⟩
  | deleteIndex index =>
      rw [ArrayCall.apply, ArrayCall.effect]
      have hthere : (array.getIndex index).isNone ↔
          index < 0 ∨ (reference.indices index.toInt.toNat).isNone := by
        rw [hrep.getIndex]
        split
        · rename_i hnegative
          simp [hnegative]
        · rename_i hnonneg
          rw [or_iff_right hnonneg]
      by_cases hnone : (array.getIndex index).isNone
      · rw [DynamicArray.deleteIndex, if_pos hnone, if_pos (hthere.mp hnone)]
        exact ⟨array, rfl, hrep⟩
      · have hnext := hrep.deleteIndex hnone
        rw [if_neg (mt hthere.mpr hnone)]
        rw [DynamicArray.deleteIndex, if_neg hnone] at hnext ⊢
        exact ⟨_, rfl, hnext⟩
  | setLength length => exact ⟨_, rfl, hrep.setLength length⟩

theorem length_ne_of_not_exact (hexact : ¬call.Exact array)
    (happly : call.apply values array = some (next, (call.effect values reference).2)) :
    next.length ≠ (call.effect values reference).1.length := by
  cases call with
  | setNamedProperty key value =>
      simp only [ArrayCall.Exact, Classical.not_imp, not_forall] at hexact
      obtain ⟨hlength, denoted, hdenoted, hlarge⟩ := hexact
      rw [ArrayCall.apply, DynamicArray.setNamedProperty, if_neg hlength] at happly
      rw [ArrayCall.effect, ArrayReference.setNamedProperty, if_neg hlength, hdenoted]
      cases hindex : arrayIndexFromKey key with
      | none =>
          rw [hindex] at happly
          obtain rfl := (Prod.mk.inj (Option.some.inj happly)).1
          change array.slots.length ≠ max reference.length (denoted + 1)
          have hfits := array.fits
          omega
      | some index =>
          obtain ⟨denoted', hfits, hdenoted', rfl⟩ := arrayIndexFromKey_eq_some_iff.mp hindex
          obtain rfl : denoted = denoted' := Option.some.inj (hdenoted.symm.trans hdenoted')
          have htoInt : (Int64.ofNat denoted).toInt = denoted := Int64.toInt_ofNat_of_lt hfits
          rw [hindex] at happly
          dsimp only at happly
          rw [setIndex_last (by omega)] at happly
          cases happly
  | setIndex index value =>
      rw [ArrayCall.apply, setIndex_last hexact] at happly
      cases happly
  | push value =>
      have hlong : ¬(array.slots ++ [some value]).length < 2 ^ 63 := by
        rw [List.length_append, List.length_singleton]
        exact hexact
      rw [ArrayCall.apply, DynamicArray.push, dif_neg hlong] at happly
      cases happly
  | deleteIndex index => exact absurd trivial hexact
  | setLength length => exact absurd trivial hexact

end Step

theorem Represents.allAgree_iff {values : LengthValues Value} (calls : List (ArrayCall Value))
    {array : DynamicArray Value Class} {reference : ArrayReference Value}
    (hrep : array.Represents reference) :
    array.AllAgree values reference calls ↔ array.AllExact values calls := by
  induction calls generalizing array reference with
  | nil => exact iff_of_true hrep.agrees trivial
  | cons call rest ih =>
      rw [AllAgree, AllExact, and_iff_right hrep.agrees]
      constructor
      · rintro ⟨next, happly, hrest⟩
        have hexact : call.Exact array := by
          by_contra hnot
          refine length_ne_of_not_exact hnot happly ?_
          cases rest with
          | nil => exact hrest.1
          | cons call' rest => exact hrest.1.1
        refine ⟨hexact, fun next' answer happly' => ?_⟩
        obtain ⟨next'', happly'', hnext⟩ := hrep.apply values hexact
        obtain rfl : next = next' := by
          rw [happly] at happly'
          exact (Prod.mk.inj (Option.some.inj happly')).1
        obtain rfl : next = next'' := by
          rw [happly] at happly''
          exact (Prod.mk.inj (Option.some.inj happly'')).1
        exact (ih hnext).mp hrest
      · rintro ⟨hexact, hrest⟩
        obtain ⟨next, happly, hnext⟩ := hrep.apply values hexact
        exact ⟨next, happly, (ih hnext).mpr (hrest next _ happly)⟩

/-- Over any calls on a new array, or on the zero value, nothing panics and everything that is read or
returned is that of the reference model exactly where no call writes an index that is too large. -/
theorem newArray_allAgree_iff (values : LengthValues Value) (made : Bool)
    (calls : List (ArrayCall Value)) :
    (if made then newArray else zero : DynamicArray Value Class).AllAgree values .empty calls ↔
      (if made then newArray else zero : DynamicArray Value Class).AllExact values calls :=
  (represents_empty made).allAgree_iff calls

/-- The slots for the last index that an int can hold are not made, and writing there panics. -/
theorem last_index_panics :
    ¬∀ (values : LengthValues Nat) (made : Bool) (calls : List (ArrayCall Nat)),
      (if made then newArray else zero : DynamicArray Nat Unit).AllAgree values .empty calls := by
  intro hclaim
  obtain ⟨_, next, happly, _⟩ := hclaim ⟨id, fun _ => 0⟩ true [.setIndex 9223372036854775807 7]
  rw [ArrayCall.apply, setIndex_last (by decide)] at happly
  cases happly

end DynamicArray

end Jayess.Runtime
