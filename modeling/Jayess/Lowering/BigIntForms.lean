import Jayess.Lowering.ReturnValues
import Jayess.Number.DigitString

/-!
# Decimal strings of big integers

What the functions on decimal strings do to the strings that `big.Int.String` makes: each result is the string of
the integer that the function computes, and two strings compare as their integers do.
-/

namespace Jayess.Lowering

open DigitString

def asciiBytes (text : List Char) : GoString := text.map Char.toUInt8

/-- At least one digit, a first zero only in `0` itself, and no sign but a minus. -/
structure CanonicalBigInt (text : GoString) : Prop where
  ne_nil : trimMinus text ≠ []
  digits : ∀ byte ∈ trimMinus text, 48 ≤ byte ∧ byte ≤ 57
  zero : (trimMinus text).head? = some zeroDigit → text = [zeroDigit]

section Digits

variable {text other : List Char} {ch : Char}

theorem toUInt8_toNat (hdigit : ch.isDigit = true) : ch.toUInt8.toNat = ch.toNat := by
  have hbounds := digit_bounds hdigit
  have hmod : ch.toUInt8.toNat = ch.toNat % 2 ^ 8 := UInt32.toNat_toUInt8 ch.val
  omega

theorem toUInt8_bounds (hdigit : ch.isDigit = true) : 48 ≤ ch.toUInt8 ∧ ch.toUInt8 ≤ 57 := by
  rw [UInt8.le_iff_toNat_le, UInt8.le_iff_toNat_le, toUInt8_toNat hdigit]
  exact digit_bounds hdigit

theorem toUInt8_eq_zeroDigit_iff (hdigit : ch.isDigit = true) : ch.toUInt8 = zeroDigit ↔ ch = '0' := by
  constructor
  · intro heq
    have hnat : ch.toNat = 48 := by
      rw [← toUInt8_toNat hdigit, heq]
      rfl
    exact Char.ext (UInt32.toNat.inj hnat)
  · rintro rfl
    rfl

theorem flatMap_utf8EncodeChar (hdigits : Digits text) : text.flatMap String.utf8EncodeChar = asciiBytes text := by
  induction text with
  | nil => rfl
  | cons ch rest ih =>
      have hbounds := digit_bounds (hdigits ch List.mem_cons_self)
      have hsize : ch.utf8Size = 1 := by
        rw [Char.utf8Size_eq_one_iff, UInt32.le_iff_toNat_le]
        exact Nat.le_trans hbounds.2 (by decide)
      rw [List.flatMap_cons, String.utf8EncodeChar_eq_singleton hsize, ih hdigits.tail]
      rfl

theorem decimalDigits_asciiBytes (hdigits : Digits text) (initial : ℕ) :
    decimalDigits initial (asciiBytes text) = some (Nat.ofDigitChars 10 text initial) := by
  induction text generalizing initial with
  | nil => rfl
  | cons ch rest ih =>
      have hdigit := hdigits ch List.mem_cons_self
      have hread : decimalDigit ch.toUInt8 = some (ch.toNat - '0'.toNat) := by
        rw [decimalDigit, if_pos (toUInt8_bounds hdigit), toUInt8_toNat hdigit]
        rfl
      rw [asciiBytes, List.map_cons, decimalDigits, hread, Nat.ofDigitChars_cons]
      exact ih hdigits.tail _

theorem decimalMagnitude_asciiBytes (hdigits : Digits text) (hne : text ≠ []) :
    decimalMagnitude (asciiBytes text) = some (value text) := by
  rw [decimalMagnitude, if_neg (by simpa [asciiBytes] using hne), decimalDigits_asciiBytes hdigits]

theorem digit_ne_sign {byte : UInt8} (hbounds : 48 ≤ byte ∧ byte ≤ 57) : byte ≠ minusSign ∧ byte ≠ plusSign := by
  constructor
  · rintro rfl
    exact absurd hbounds.1 (by decide)
  · rintro rfl
    exact absurd hbounds.1 (by decide)

theorem not_hasMinus_asciiBytes (hdigits : Digits text) : hasMinus (asciiBytes text) = false := by
  cases text with
  | nil => rfl
  | cons ch rest =>
      have hne := (digit_ne_sign (toUInt8_bounds (hdigits ch List.mem_cons_self))).1
      simpa [hasMinus, asciiBytes] using hne

theorem parseBigIntValue_asciiBytes (hdigits : Digits text) (hne : text ≠ []) :
    parseBigIntValue (asciiBytes text) = some (value text : ℤ) := by
  obtain _ | ⟨ch, rest⟩ := text
  · exact absurd rfl hne
  have hsign := digit_ne_sign (toUInt8_bounds (hdigits ch List.mem_cons_self))
  have hmagnitude := decimalMagnitude_asciiBytes hdigits hne
  rw [asciiBytes, List.map_cons] at hmagnitude ⊢
  rw [parseBigIntValue, if_neg hsign.1, if_neg hsign.2, hmagnitude]
  rfl

theorem dropWhile_asciiBytes (hdigits : Digits text) :
    (asciiBytes text).dropWhile (· = zeroDigit) = asciiBytes (text.dropWhile (· = '0')) := by
  induction text with
  | nil => rfl
  | cons ch rest ih =>
      have hzero := toUInt8_eq_zeroDigit_iff (hdigits ch List.mem_cons_self)
      rw [asciiBytes, List.map_cons]
      by_cases heq : ch = '0'
      · rw [List.dropWhile_cons_of_pos (by simpa using hzero.mpr heq),
          List.dropWhile_cons_of_pos (by simpa using heq)]
        exact ih hdigits.tail
      · rw [List.dropWhile_cons_of_neg (by simpa using fun h => heq (hzero.mp h)),
          List.dropWhile_cons_of_neg (by simpa using heq), asciiBytes, List.map_cons]

theorem stringLess_asciiBytes (hdigits : Digits text) (hother : Digits other) (hlength : text.length = other.length) :
    stringLess (asciiBytes text) (asciiBytes other) = decide (value text < value other) := by
  induction text generalizing other with
  | nil =>
      obtain rfl := List.length_eq_zero_iff.mp hlength.symm
      rfl
  | cons ch rest ih =>
      obtain _ | ⟨later, others⟩ := other
      · exact absurd hlength (Nat.succ_ne_zero _)
      have hlength : rest.length = others.length := Nat.succ.inj hlength
      have hfirst := hdigits ch List.mem_cons_self
      have hlater := hother later List.mem_cons_self
      have hrest := ih hdigits.tail hother.tail hlength
      have hless : ch.toUInt8 < later.toUInt8 ↔ ch.toNat < later.toNat := by
        rw [UInt8.lt_iff_toNat_lt, toUInt8_toNat hfirst, toUInt8_toNat hlater]
      have hmore : later.toUInt8 < ch.toUInt8 ↔ later.toNat < ch.toNat := by
        rw [UInt8.lt_iff_toNat_lt, toUInt8_toNat hfirst, toUInt8_toNat hlater]
      rw [asciiBytes, asciiBytes, List.map_cons, List.map_cons, stringLess,
        decide_eq_decide.mpr (value_cons_lt_iff hdigits.tail hother.tail hfirst hlater hlength)]
      obtain hlt | heq | hgt := Nat.lt_trichotomy ch.toNat later.toNat
      · rw [if_pos (hless.mpr hlt), decide_eq_true (.inl hlt)]
      · rw [if_neg fun h => absurd (hless.mp h) (by omega), if_neg fun h => absurd (hmore.mp h) (by omega)]
        rw [asciiBytes, asciiBytes] at hrest
        rw [hrest, decide_eq_decide]
        omega
      · rw [if_neg fun h => absurd (hless.mp h) (by omega), if_pos (hmore.mpr hgt), decide_eq_false (by omega)]

end Digits

def digitBytes (magnitude : ℕ) : GoString := asciiBytes (Nat.toDigits 10 magnitude)

section Magnitudes

variable {left right magnitude : ℕ}

theorem digits_toDigits : Digits (Nat.toDigits 10 magnitude) := (canonical_toDigits magnitude).digits

theorem parseBigIntValue_digitBytes : parseBigIntValue (digitBytes magnitude) = some (magnitude : ℤ) := by
  rw [digitBytes, parseBigIntValue_asciiBytes digits_toDigits Nat.toDigits_ne_nil, value,
    Nat.ofDigitChars_ten_toDigits]

theorem not_hasMinus_digitBytes : hasMinus (digitBytes magnitude) = false :=
  not_hasMinus_asciiBytes digits_toDigits

theorem trimMinus_digitBytes : trimMinus (digitBytes magnitude) = digitBytes magnitude := by
  rw [trimMinus, not_hasMinus_digitBytes]
  rfl

theorem digitBytes_injective (heq : digitBytes left = digitBytes right) : left = right := by
  have hparsed : parseBigIntValue (digitBytes left) = some (left : ℤ) := parseBigIntValue_digitBytes
  rw [heq, parseBigIntValue_digitBytes] at hparsed
  exact Int.ofNat.inj (Option.some.inj hparsed).symm

theorem digitBytes_eq_zero_iff : digitBytes magnitude = [zeroDigit] ↔ magnitude = 0 :=
  ⟨fun heq => digitBytes_injective heq, fun heq => heq ▸ rfl⟩

theorem digitBytes_ne_nil : digitBytes magnitude ≠ [] := by
  simp [digitBytes, asciiBytes]

theorem digitBytes_bounds : ∀ byte ∈ digitBytes magnitude, 48 ≤ byte ∧ byte ≤ 57 := by
  intro byte hmem
  obtain ⟨ch, hch, rfl⟩ := List.mem_map.mp hmem
  exact toUInt8_bounds (digits_toDigits ch hch)

theorem eq_zero_of_head (hhead : (digitBytes magnitude).head? = some zeroDigit) : magnitude = 0 := by
  rw [digitBytes, asciiBytes, List.head?_map, Option.map_eq_some_iff] at hhead
  obtain ⟨ch, hhead, hzero⟩ := hhead
  obtain ⟨rest, htext⟩ := List.head?_eq_some_iff.mp hhead
  have hch : ch = '0' := (toUInt8_eq_zeroDigit_iff (digits_toDigits ch (htext ▸ List.mem_cons_self))).mp hzero
  obtain rfl := (canonical_toDigits magnitude).zero rest (hch ▸ htext)
  apply digitBytes_eq_zero_iff.mp
  rw [digitBytes, htext, hch]
  rfl

theorem compareUnsigned_digitBytes :
    compareUnsignedBigIntLiteralValues (digitBytes left) (digitBytes right) = ((left : ℤ) - right).sign := by
  have hvalue : ∀ magnitude, value (Nat.toDigits 10 magnitude) = magnitude := fun _ => Nat.ofDigitChars_ten_toDigits
  have hlength : ∀ magnitude, (digitBytes magnitude).length = (Nat.toDigits 10 magnitude).length :=
    fun _ => List.length_map _
  have hleft := canonical_toDigits left
  have hright := canonical_toDigits right
  unfold compareUnsignedBigIntLiteralValues
  rw [hlength, hlength]
  obtain hshorter | hsame | hlonger :=
    Nat.lt_trichotomy (Nat.toDigits 10 left).length (Nat.toDigits 10 right).length
  · have hless := hleft.value_lt_of_length hright hshorter
    rw [hvalue, hvalue] at hless
    rw [if_pos hshorter, Int.sign_eq_neg_one_of_neg (by omega)]
  · rw [if_neg (by omega), if_neg (by omega), digitBytes, digitBytes,
      stringLess_asciiBytes hleft.digits hright.digits hsame,
      stringLess_asciiBytes hright.digits hleft.digits hsame.symm, hvalue, hvalue]
    obtain hlt | rfl | hgt := Nat.lt_trichotomy left right
    · rw [if_pos (decide_eq_true hlt), Int.sign_eq_neg_one_of_neg (by omega)]
    · simp
    · rw [if_neg (by simpa using Nat.le_of_lt hgt), if_pos (decide_eq_true hgt), Int.sign_eq_one_of_pos (by omega)]
  · have hmore := hright.value_lt_of_length hleft hlonger
    rw [hvalue, hvalue] at hmore
    rw [if_neg (by omega), if_pos hlonger, Int.sign_eq_one_of_pos (by omega)]

end Magnitudes

section Integers

variable {left right integer : ℤ}

theorem decimalString_natCast (magnitude : ℕ) : decimalString magnitude = digitBytes magnitude := by
  have htext : (toString (magnitude : ℤ)).toList = Nat.toDigits 10 magnitude := Nat.toList_repr
  rw [decimalString, goString, htext, flatMap_utf8EncodeChar digits_toDigits, digitBytes]

theorem decimalString_negSucc (below : ℕ) :
    decimalString (Int.negSucc below) = minusSign :: digitBytes (below + 1) := by
  have htext : (toString (Int.negSucc below)).toList = '-' :: Nat.toDigits 10 (below + 1) := by
    change ("-" ++ Nat.repr (below + 1)).toList = _
    rw [String.toList_append, Nat.toList_repr]
    rfl
  rw [decimalString, goString, htext, List.flatMap_cons, flatMap_utf8EncodeChar digits_toDigits, digitBytes]
  rfl

@[simp]
theorem parseBigIntValue_decimalString : parseBigIntValue (decimalString integer) = some integer := by
  cases integer with
  | ofNat magnitude => exact (congrArg _ (decimalString_natCast magnitude)).trans parseBigIntValue_digitBytes
  | negSucc below =>
      have hne : Nat.toDigits 10 (below + 1) ≠ [] := Nat.toDigits_ne_nil
      rw [decimalString_negSucc, parseBigIntValue, if_pos rfl, digitBytes,
        decimalMagnitude_asciiBytes digits_toDigits hne, value, Nat.ofDigitChars_ten_toDigits]
      rfl

theorem decimalString_inj : decimalString left = decimalString right ↔ left = right := by
  constructor
  · intro heq
    have hparsed : parseBigIntValue (decimalString left) = some left :=
      parseBigIntValue_decimalString
    rw [heq, parseBigIntValue_decimalString] at hparsed
    exact (Option.some.inj hparsed).symm
  · exact congrArg decimalString

theorem canonicalBigInt_decimalString (integer : ℤ) : CanonicalBigInt (decimalString integer) := by
  cases integer with
  | ofNat magnitude =>
      have htext : decimalString (Int.ofNat magnitude) = digitBytes magnitude := decimalString_natCast magnitude
      rw [htext]
      refine ⟨?_, ?_, ?_⟩
      · rw [trimMinus_digitBytes]
        exact digitBytes_ne_nil
      · rw [trimMinus_digitBytes]
        exact digitBytes_bounds
      · intro hhead
        rw [trimMinus_digitBytes] at hhead
        exact digitBytes_eq_zero_iff.mpr (eq_zero_of_head hhead)
  | negSucc below =>
      rw [decimalString_negSucc]
      exact ⟨digitBytes_ne_nil, digitBytes_bounds, fun hhead => absurd (eq_zero_of_head hhead) (Nat.succ_ne_zero below)⟩

theorem negateBigIntValue_decimalString : negateBigIntValue (decimalString integer) = decimalString (-integer) := by
  cases integer with
  | ofNat magnitude =>
      have htext : decimalString (Int.ofNat magnitude) = digitBytes magnitude := decimalString_natCast magnitude
      rw [htext, negateBigIntValue, not_hasMinus_digitBytes]
      cases magnitude with
      | zero => rfl
      | succ below =>
          rw [if_neg (digitBytes_eq_zero_iff.not.mpr (Nat.succ_ne_zero below))]
          exact (decimalString_negSucc below).symm
  | negSucc below =>
      have hne : minusSign :: digitBytes (below + 1) ≠ [zeroDigit] := fun heq => absurd (List.cons.inj heq).1 (by decide)
      rw [decimalString_negSucc, negateBigIntValue, if_neg hne, Int.neg_negSucc]
      exact (decimalString_natCast (below + 1)).symm

theorem normalizeBigIntValue_goString {source : String} (hdigits : Digits source.toList) :
    normalizeBigIntValue (goString source) = decimalString (value source.toList : ℤ) := by
  have htrim : trimMinus (asciiBytes source.toList) = asciiBytes source.toList := by
    rw [trimMinus, not_hasMinus_asciiBytes hdigits]
    rfl
  rw [goString, flatMap_utf8EncodeChar hdigits, normalizeBigIntValue, not_hasMinus_asciiBytes hdigits, htrim,
    dropWhile_asciiBytes hdigits, decimalString_natCast, ← value_dropWhile]
  by_cases hnil : source.toList.dropWhile (· = '0') = []
  · rw [hnil]
    rfl
  · have hcanonical := canonical_dropWhile hdigits hnil
    rw [digitBytes, hcanonical.toDigits_value, if_neg (by simpa [asciiBytes] using hnil)]
    rfl

theorem compareBigIntLiteralValues_decimalString :
    compareBigIntLiteralValues (decimalString left) (decimalString right) = (left - right).sign := by
  have hnatural : ∀ magnitude : ℕ, decimalString (Int.ofNat magnitude) = digitBytes magnitude := decimalString_natCast
  have hminus : ∀ below : ℕ, hasMinus (minusSign :: digitBytes (below + 1)) = true := fun _ => rfl
  unfold compareBigIntLiteralValues
  cases left with
  | ofNat left =>
      cases right with
      | ofNat right =>
          rw [hnatural, hnatural, not_hasMinus_digitBytes, not_hasMinus_digitBytes]
          exact compareUnsigned_digitBytes
      | negSucc right =>
          have hpositive : 0 < Int.ofNat left - Int.negSucc right := by
            rw [Int.ofNat_eq_natCast]
            omega
          rw [hnatural, decimalString_negSucc, not_hasMinus_digitBytes, hminus, Int.sign_eq_one_of_pos hpositive]
          rfl
  | negSucc left =>
      cases right with
      | ofNat right =>
          have hnegative : Int.negSucc left - Int.ofNat right < 0 := by
            rw [Int.ofNat_eq_natCast]
            omega
          rw [hnatural, decimalString_negSucc, not_hasMinus_digitBytes, hminus, Int.sign_eq_neg_one_of_neg hnegative]
          rfl
      | negSucc right =>
          have htrim : ∀ below : ℕ, trimMinus (minusSign :: digitBytes (below + 1)) = digitBytes (below + 1) :=
            fun _ => rfl
          rw [decimalString_negSucc, decimalString_negSucc, hminus, hminus, htrim, htrim, compareUnsigned_digitBytes,
            if_neg (by simp), if_neg (by simp), if_pos rfl, ← Int.sign_neg]
          congr 1
          omega

end Integers

end Jayess.Lowering
