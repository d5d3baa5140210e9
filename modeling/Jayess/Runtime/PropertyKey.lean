import Jayess.Runtime.DynamicArray
import Jayess.Runtime.NumberText

/-!
# Property keys
-/

namespace Jayess.Runtime

/-- A primitive value, as a key. -/
inductive Primitive where
  | undefined
  | null
  | boolean (value : Bool)
  | string (text : String)
  | bigint (value : Int)
  | number (float : Number)
deriving DecidableEq

namespace Primitive

/-- `PropertyKey`: a bigint is no case of its own, so that its kind is its key. -/
def propertyKey : Primitive → String
  | .string text => text
  | .number float => float.formatFloat
  | .boolean value => if value then "true" else "false"
  | .null => "null"
  | .undefined => "undefined"
  | .bigint _ => "bigint"

/-- `ToString` of ECMAScript. -/
def toText : Primitive → String
  | .string text => text
  | .number float => float.toText
  | .boolean value => if value then "true" else "false"
  | .null => "null"
  | .undefined => "undefined"
  | .bigint value => Int.repr value

/-- Keys of which only one of the two conversions makes the same property: all bigints share one key, and
numbers that Go prints otherwise have a key of their own. -/
def Clash : Primitive → Primitive → Prop
  | .bigint first, .bigint second => first ≠ second
  | .bigint value, .string text | .string text, .bigint value => text = "bigint" ∨ text = Int.repr value
  | .bigint value, .number float | .number float, .bigint value => float.toText = Int.repr value
  | .number float, .string text | .string text, .number float =>
      ¬float.Faithful ∧ (text = float.formatFloat ∨ text = float.toText)
  | .number (.zero first), .number (.zero second) => first ≠ second
  | _, _ => False

end Primitive

variable {Value Class : Type*}

namespace DynamicObject

def setProperty (object : DynamicObject Value Class) (key : Primitive) (value : Value) :
    DynamicObject Value Class :=
  object.setNamedProperty key.propertyKey value

def getProperty (object : DynamicObject Value Class) (key : Primitive) : Option Value :=
  object.getNamedProperty key.propertyKey

end DynamicObject

namespace DynamicArray

def setProperty (values : LengthValues Value) (array : DynamicArray Value Class) (key : Primitive) (value : Value) :
    Option (DynamicArray Value Class) :=
  array.setNamedProperty values key.propertyKey value

def getProperty (values : LengthValues Value) (array : DynamicArray Value Class) (key : Primitive) : Option Value :=
  array.getNamedProperty values key.propertyKey

end DynamicArray

/-- In every state of an object, and of an array but for its length, a value that is set at one key is read back
at the other if the keys have the same text, and otherwise what was there before. -/
structure Addresses (values : LengthValues Value) (Class : Type*) (first second : Primitive) : Prop where
  object : ∀ (object : DynamicObject Value Class) (value : Value),
    (object.setProperty first value).getProperty second =
      if first.toText = second.toText then some value else object.getProperty second
  array : first.toText ≠ "length" → second.toText ≠ "length" → ∀ (array : DynamicArray Value Class) (value : Value),
    ∃ next, array.setProperty values first value = some next ∧ next.getProperty values second =
      if first.toText = second.toText then some value else array.getProperty values second

namespace Primitive

theorem repr_ne_word (value : Int) : ∀ word ∈ Number.words, Int.repr value ≠ word := by
  have hwords : ∀ word ∈ Number.words, word.toList.any (fun ch => ch.isDigit) = false := by decide
  have hdigits : ∀ value : Nat, (Nat.repr value).toList.any (fun ch => ch.isDigit) = true := by
    intro value
    have hne : (Nat.repr value).toList ≠ [] := Decimal.toList_repr_ne_nil
    obtain ⟨ch, rest, htext⟩ := List.exists_cons_of_ne_nil hne
    rw [List.any_eq_true, htext]
    exact ⟨ch, List.mem_cons_self, Decimal.isDigit_of_mem_repr (htext ▸ List.mem_cons_self)⟩
  rintro word hword rfl
  have hnone := hwords _ hword
  cases value with
  | ofNat value => exact Bool.false_ne_true (hnone.symm.trans (hdigits value))
  | negSucc value =>
      rw [Int.repr, String.toList_append, List.any_append, hdigits, Bool.or_true] at hnone
      cases hnone

/-- Both conversions tell the two keys apart, or neither does. -/
def Agree (first second : Primitive) : Prop :=
  first.propertyKey = second.propertyKey ↔ first.toText = second.toText

variable {first second : Primitive} {float other : Number} {value : Int} {text : String}

theorem agree_comm : Agree first second ↔ Agree second first := by
  rw [Agree, Agree, eq_comm, @eq_comm _ first.toText]

theorem agree_number_number : Agree (.number float) (.number other) ↔ ¬Clash (.number float) (.number other) := by
  have hclash : Clash (.number float) (.number other) ↔
      float ≠ other ∧ ∃ negative negative', float = .zero negative ∧ other = .zero negative' := by
    cases float <;> cases other <;> simp [Clash]
  have hagree : Agree (.number float) (.number other) ↔ (float = other ↔ float.toText = other.toText) :=
    ⟨fun hagree => ⟨fun heq => heq ▸ rfl, fun heq => Number.formatFloat_inj (hagree.mpr heq)⟩,
      fun hiff => ⟨fun heq => hiff.mp (Number.formatFloat_inj heq), fun heq => hiff.mpr heq ▸ rfl⟩⟩
  rw [hagree, hclash, Number.toText_eq_iff]
  constructor
  · rintro hiff ⟨hne, hzeros⟩
    exact hne (hiff.mpr (.inr hzeros))
  · intro hclear
    refine ⟨.inl, fun htexts => htexts.elim id fun hzeros => ?_⟩
    by_contra hne
    exact hclear ⟨hne, hzeros⟩

theorem agree_number_string : Agree (.number float) (.string text) ↔ ¬Clash (.number float) (.string text) := by
  change (float.formatFloat = text ↔ float.toText = text) ↔
    ¬(¬float.Faithful ∧ (text = float.formatFloat ∨ text = float.toText))
  rw [Number.faithful_iff]
  constructor
  · rintro hagree ⟨hne, rfl | rfl⟩
    · exact hne (hagree.mp rfl).symm
    · exact hne (hagree.mpr rfl)
  · intro hclash
    by_cases hsame : float.formatFloat = float.toText
    · rw [hsame]
    · exact iff_of_false (fun heq => hclash ⟨hsame, .inl heq.symm⟩) fun heq => hclash ⟨hsame, .inr heq.symm⟩

theorem agree_bigint_string : Agree (.bigint value) (.string text) ↔ ¬Clash (.bigint value) (.string text) := by
  change ("bigint" = text ↔ Int.repr value = text) ↔ ¬(text = "bigint" ∨ text = Int.repr value)
  have hne : Int.repr value ≠ "bigint" := repr_ne_word value _ (by decide)
  constructor
  · rintro hagree (rfl | rfl)
    · exact hne (hagree.mp rfl)
    · exact hne (hagree.mpr rfl).symm
  · intro hclash
    exact iff_of_false (fun heq => hclash (.inl heq.symm)) fun heq => hclash (.inr heq.symm)

theorem agree_bigint_number : Agree (.bigint value) (.number float) ↔ ¬Clash (.bigint value) (.number float) := by
  change ("bigint" = float.formatFloat ↔ Int.repr value = float.toText) ↔ ¬(float.toText = Int.repr value)
  have hne : "bigint" ≠ float.formatFloat := Ne.symm (Number.text_ne_word (by decide) float).1
  constructor
  · exact fun hagree heq => hne (hagree.mpr heq.symm)
  · exact fun hclash => iff_of_false hne (Ne.symm hclash)

theorem agree_bigint_bigint {value' : Int} :
    Agree (.bigint value) (.bigint value') ↔ ¬Clash (.bigint value) (.bigint value') := by
  change ("bigint" = "bigint" ↔ Int.repr value = Int.repr value') ↔ ¬(value ≠ value')
  rw [iff_true_left rfl, Int.repr_inj, not_not]

def Bare : Primitive → Prop
  | .undefined | .null | .boolean _ => True
  | _ => False

theorem Bare.word (hbare : first.Bare) :
    first.propertyKey ∈ Number.words ∧ first.propertyKey ≠ "bigint" ∧ first.toText = first.propertyKey := by
  cases first with
  | undefined | null => exact ⟨by decide, by decide, rfl⟩
  | boolean value => cases value <;> exact ⟨by decide, by decide, rfl⟩
  | string | bigint | number => exact hbare.elim

theorem Bare.agree (hbare : first.Bare) (second : Primitive) : Agree first second := by
  obtain ⟨hword, hbigint, htext⟩ := hbare.word
  rw [Agree, htext]
  cases second with
  | undefined | null | boolean | string => exact Iff.rfl
  | bigint value => exact iff_of_false hbigint (Ne.symm (repr_ne_word value _ hword))
  | number float =>
      obtain ⟨hformat, hnumber⟩ := Number.text_ne_word hword float
      exact iff_of_false (Ne.symm hformat) (Ne.symm hnumber)

theorem Bare.not_clash (hbare : first.Bare) (second : Primitive) : ¬first.Clash second ∧ ¬second.Clash first := by
  cases first with
  | undefined | null | boolean => cases second <;> exact ⟨not_false, not_false⟩
  | string | bigint | number => exact hbare.elim

theorem toText_eq_length : first.toText = "length" ↔ first.propertyKey = "length" := by
  cases first with
  | undefined | null | boolean | string => exact Iff.rfl
  | bigint value => exact iff_of_false (repr_ne_word value _ (by decide)) (by simp [propertyKey])
  | number float =>
      obtain ⟨hformat, htext⟩ := Number.text_ne_word (by decide : "length" ∈ Number.words) float
      exact iff_of_false htext hformat

theorem agree_iff (first second : Primitive) : Agree first second ↔ ¬first.Clash second := by
  by_cases hfirst : first.Bare
  · exact iff_of_true (hfirst.agree second) (hfirst.not_clash second).1
  by_cases hsecond : second.Bare
  · exact iff_of_true (agree_comm.mp (hsecond.agree first)) (hsecond.not_clash first).2
  cases first with
  | undefined | null | boolean => exact absurd trivial hfirst
  | string text =>
      cases second with
      | undefined | null | boolean => exact absurd trivial hsecond
      | string => exact iff_of_true Iff.rfl not_false
      | bigint => exact agree_comm.trans agree_bigint_string
      | number => exact agree_comm.trans agree_number_string
  | bigint value =>
      cases second with
      | undefined | null | boolean => exact absurd trivial hsecond
      | string => exact agree_bigint_string
      | bigint => exact agree_bigint_bigint
      | number => exact agree_bigint_number
  | number float =>
      cases second with
      | undefined | null | boolean => exact absurd trivial hsecond
      | string => exact agree_number_string
      | bigint => exact agree_comm.trans agree_bigint_number
      | number => exact agree_number_number

end Primitive

variable {first second : String} {value : Value}

theorem DynamicObject.getNamedProperty_set (object : DynamicObject Value Class) :
    (object.setNamedProperty first value).getNamedProperty second =
      if first = second then some value else object.getNamedProperty second := by
  by_cases heq : first = second
  · rw [if_pos heq, ← heq, getNamedProperty_set_self]
  · rw [if_neg heq, getNamedProperty_set_of_ne (Ne.symm heq)]

namespace DynamicArray

/-- The decimal form of the last number that an int can hold. -/
def lastIndexKey : String := "9223372036854775807"

variable {values : LengthValues Value} {array next : DynamicArray Value Class}

theorem getIndex_setIndex {index : Int64} (hnonneg : ¬index < 0) (hexact : index.toInt + 1 < 2 ^ 63) :
    ∃ next, array.setIndex index value = some next ∧ next.properties = array.properties ∧
      ∀ other, next.getIndex other = if index = other then some value else array.getIndex other := by
  have hzero := toNat_lt_of_not_neg hnonneg
  have hnext : (index + 1).toInt = index.toInt + 1 := by
    rw [Int64.toInt_add]
    exact Word.bmod_eq_self (by change _ ≤ index.toInt + 1; omega) hexact
  have hlength := array.length_ensureLength (index + 1)
  rw [setIndex, if_neg hnonneg]
  dsimp only
  rw [if_pos (by omega)]
  refine ⟨_, rfl, rfl, fun other => ?_⟩
  rw [getIndex_eq, getIndex_eq]
  by_cases heq : index = other
  · rw [if_pos heq, ← heq, if_neg hnonneg, List.getElem?_set_self (by omega)]
    rfl
  · rw [if_neg heq]
    split
    · rfl
    · next hother =>
      have hne : index.toInt.toNat ≠ other.toInt.toNat := by
        have hpos := toNat_lt_of_not_neg hother
        intro hnat
        exact heq (Int64.toInt_inj.mp (by omega))
      rw [List.getElem?_set_ne hne, ensureLength, join_getElem?_append_holes]

theorem arrayIndexFromKey_inj {index : Int64} (hfirst : arrayIndexFromKey first = some index)
    (hsecond : arrayIndexFromKey second = some index) : first = second := by
  obtain ⟨denoted, hfits, hdenoted, rfl⟩ := arrayIndexFromKey_eq_some_iff.mp hfirst
  obtain ⟨denoted', hfits', hdenoted', heq⟩ := arrayIndexFromKey_eq_some_iff.mp hsecond
  have hint := congrArg Int64.toInt heq
  rw [Int64.toInt_ofNat_of_lt hfits, Int64.toInt_ofNat_of_lt hfits'] at hint
  rw [Decimal.denoted_eq_some_iff.mp hdenoted, Decimal.denoted_eq_some_iff.mp hdenoted', Int.ofNat_inj.mp hint]

theorem getNamedProperty_set (array : DynamicArray Value Class) (hfirst : first ≠ "length")
    (hsecond : second ≠ "length") (hlast : first ≠ lastIndexKey) :
    ∃ next, array.setNamedProperty values first value = some next ∧ next.getNamedProperty values second =
      if first = second then some value else array.getNamedProperty values second := by
  rw [setNamedProperty, if_neg hfirst]
  cases hindex : arrayIndexFromKey first with
  | none =>
      refine ⟨_, rfl, ?_⟩
      rw [getNamedProperty, getNamedProperty, if_neg hsecond, if_neg hsecond]
      cases hother : arrayIndexFromKey second with
      | none => exact array.named.getNamedProperty_set
      | some other =>
          have hne : first ≠ second := fun heq => by rw [heq, hother] at hindex; cases hindex
          rw [if_neg hne]
          rfl
  | some index =>
      obtain ⟨denoted, hfits, hdenoted, rfl⟩ := arrayIndexFromKey_eq_some_iff.mp hindex
      have htoInt : (Int64.ofNat denoted).toInt = denoted := Int64.toInt_ofNat_of_lt hfits
      have hnonneg : ¬Int64.ofNat denoted < 0 := by
        rw [Int64.lt_iff_toInt_lt, htoInt]
        exact Int.not_lt.mpr (Int.natCast_nonneg denoted)
      have hexact : (Int64.ofNat denoted).toInt + 1 < 2 ^ 63 := by
        have hdenote := Decimal.denoted_eq_some_iff.mp hdenoted
        have hne : denoted ≠ 2 ^ 63 - 1 := fun heq => hlast (hdenote.trans (heq ▸ rfl))
        omega
      obtain ⟨next, hset, hproperties, hreads⟩ :=
        @getIndex_setIndex _ _ value array _ hnonneg hexact
      refine ⟨next, hset, ?_⟩
      rw [getNamedProperty, getNamedProperty, if_neg hsecond, if_neg hsecond]
      cases hother : arrayIndexFromKey second with
      | none =>
          have hne : first ≠ second := fun heq => by rw [heq, hother] at hindex; cases hindex
          rw [if_neg hne]
          change next.named.getNamedProperty second = array.named.getNamedProperty second
          rw [named, hproperties]
          rfl
      | some other =>
          have hiff : Int64.ofNat denoted = other ↔ first = second := by
            constructor
            · rintro rfl
              exact arrayIndexFromKey_inj hindex hother
            · rintro rfl
              exact Option.some.inj (hindex.symm.trans hother)
          refine (hreads other).trans ?_
          simp only [hiff]

theorem setNamedProperty_last (array : DynamicArray Value Class) :
    array.setNamedProperty values lastIndexKey value = none := by
  have hindex : arrayIndexFromKey lastIndexKey = some (Int64.ofNat (2 ^ 63 - 1)) :=
    arrayIndexFromKey_eq_some_iff.mpr ⟨2 ^ 63 - 1, by decide, Decimal.denoted_eq_some_iff.mpr rfl, rfl⟩
  rw [setNamedProperty, if_neg (by decide), hindex]
  exact setIndex_last (by decide)

end DynamicArray

/-- Keys address properties as ECMAScript's do exactly where they do not clash. Writing at the last index that
an int can hold panics. -/
theorem addresses_iff [Inhabited Value] (values : LengthValues Value) (first second : Primitive) :
    Addresses values Class first second ↔ ¬first.Clash second ∧
      (first.propertyKey = DynamicArray.lastIndexKey → second.toText = "length") := by
  rw [← Primitive.agree_iff]
  constructor
  · intro haddresses
    constructor
    · have hread := haddresses.object DynamicObject.newObject default
      rw [DynamicObject.getProperty, DynamicObject.setProperty, DynamicObject.getNamedProperty_set,
        show DynamicObject.newObject.getProperty second = (none : Option Value) from rfl,
        show DynamicObject.newObject.getNamedProperty second.propertyKey = (none : Option Value) from rfl] at hread
      by_cases hkeys : first.propertyKey = second.propertyKey
      · by_cases htexts : first.toText = second.toText
        · exact iff_of_true hkeys htexts
        · rw [if_pos hkeys, if_neg htexts] at hread
          cases hread
      · by_cases htexts : first.toText = second.toText
        · rw [if_neg hkeys, if_pos htexts] at hread
          cases hread
        · exact iff_of_false hkeys htexts
    · intro hlast
      by_contra hsecond
      have hfirst : first.toText ≠ "length" := by
        rw [Ne, Primitive.toText_eq_length, hlast]
        decide
      obtain ⟨next, hset, -⟩ := haddresses.array hfirst hsecond DynamicArray.newArray default
      rw [DynamicArray.setProperty, hlast, DynamicArray.setNamedProperty_last] at hset
      cases hset
  · rintro ⟨hagree, hlast⟩
    have hiff : first.propertyKey = second.propertyKey ↔ first.toText = second.toText := hagree
    constructor
    · intro object value
      rw [DynamicObject.getProperty, DynamicObject.setProperty, DynamicObject.getNamedProperty_set]
      simp only [hiff]
      rfl
    · intro hfirst hsecond array value
      obtain ⟨next, hset, hread⟩ := array.getNamedProperty_set (mt Primitive.toText_eq_length.mpr hfirst)
        (mt Primitive.toText_eq_length.mpr hsecond) (mt hlast hsecond)
      refine ⟨next, hset, ?_⟩
      simp only [hiff] at hread
      exact hread

/-- A value that is set at one bigint is read back at another. -/
theorem bigints_not_addressed :
    ¬∀ (values : LengthValues Nat) (first second : Primitive), Addresses values Unit first second := by
  intro haddresses
  have hread := (haddresses ⟨id, fun _ => 0⟩ (.bigint 1) (.bigint 2)).object DynamicObject.newObject 7
  have hother : (some 7 : Option Nat) = none := hread.trans (if_neg (by decide))
  cases hother

end Jayess.Runtime
