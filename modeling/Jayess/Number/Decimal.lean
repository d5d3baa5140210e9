import Jayess.Number.Word

/-!
# Decimal forms of machine words

`strconv.Itoa` and `strconv.Atoi`, and the texts that are the decimal form of a number without sign or
leading zeros.
-/

namespace Jayess.Decimal

def word (value : Int) : Option Int64 :=
  if -2 ^ 63 ≤ value ∧ value < 2 ^ 63 then some (Int64.ofInt value) else none

def magnitude (digits : List Char) : Option Nat :=
  if digits ≠ [] ∧ digits.all Char.isDigit then some (Nat.ofDigitChars 10 digits 0) else none

/-- `strconv.Atoi`; nothing where it returns an error. -/
def atoi (text : String) : Option Int64 :=
  match text.toList with
  | '-' :: digits => (magnitude digits).bind fun value => word (-value)
  | '+' :: digits => (magnitude digits).bind fun value => word value
  | digits => (magnitude digits).bind fun value => word value

def itoa (value : Int64) : String := toString value.toInt

def denoted (text : String) : Option Nat :=
  let value := Nat.ofDigitChars 10 text.toList 0
  if Nat.repr value = text then some value else none

section Decimal

variable {text : String} {value : Nat}

theorem denoted_eq_some_iff : denoted text = some value ↔ text = Nat.repr value := by
  unfold denoted
  constructor
  · intro hsome
    dsimp only at hsome
    split at hsome
    · rename_i heq
      rw [← Option.some.inj hsome, heq]
    · cases hsome
  · rintro rfl
    simp

@[simp]
theorem denoted_repr : denoted (Nat.repr value) = some value := denoted_eq_some_iff.mpr rfl

theorem isDigit_of_mem_repr {ch : Char} (hmem : ch ∈ (Nat.repr value).toList) : ch.isDigit = true := by
  rw [Nat.toList_repr] at hmem
  exact Nat.isDigit_of_mem_toDigits (by decide) (by decide) hmem

theorem toList_repr_ne_nil : (Nat.repr value).toList ≠ [] := by
  rw [Nat.toList_repr]
  exact Nat.toDigits_ne_nil

theorem head_toDigits_ne_zero (value : Nat) (hne : value ≠ 0) :
    (Nat.toDigits 10 value).head? ≠ some '0' := by
  induction value using Nat.strongRecOn with
  | ind value ih =>
      by_cases hsmall : value < 10
      · rw [Nat.toDigits_of_lt_base hsmall]
        simpa using hne
      · have hlarge : 10 ≤ value := Nat.le_of_not_lt hsmall
        have hhead := ih (value / 10) (by omega) (by omega)
        rw [Nat.toDigits_of_base_le (by decide) hlarge]
        cases hdigits : Nat.toDigits 10 (value / 10) with
        | nil => exact absurd hdigits Nat.toDigits_ne_nil
        | cons first rest =>
            rw [hdigits] at hhead
            exact hhead

theorem atoi_repr (hfits : value < 2 ^ 63) : atoi (Nat.repr value) = some (Int64.ofNat value) := by
  have hmagnitude : magnitude (Nat.repr value).toList = some value := by
    have hall : (Nat.repr value).toList.all Char.isDigit = true :=
      List.all_eq_true.mpr fun ch hch => isDigit_of_mem_repr hch
    rw [magnitude, if_pos ⟨toList_repr_ne_nil, hall⟩, Nat.toList_repr, Nat.ofDigitChars_ten_toDigits]
  have hword : word (value : Int) = some (Int64.ofNat value) := by
    rw [word, if_pos (by omega)]
    rfl
  unfold atoi
  split
  · rename_i digits hdigits
    have hdigit : '-' ∈ (Nat.repr value).toList := by rw [hdigits]; exact List.mem_cons_self
    exact absurd (isDigit_of_mem_repr hdigit) (by decide)
  · rename_i digits hdigits
    have hdigit : '+' ∈ (Nat.repr value).toList := by rw [hdigits]; exact List.mem_cons_self
    exact absurd (isDigit_of_mem_repr hdigit) (by decide)
  · rw [hmagnitude, Option.bind_some, hword]

theorem itoa_of_nonneg {index : Int64} (hnonneg : 0 ≤ index.toInt) :
    itoa index = Nat.repr index.toInt.toNat := by
  obtain ⟨value, hvalue⟩ := Int.eq_ofNat_of_zero_le hnonneg
  rw [itoa, hvalue]
  rfl

theorem itoa_ofNat (hfits : value < 2 ^ 63) : itoa (Int64.ofNat value) = Nat.repr value := by
  have htoInt : (Int64.ofNat value).toInt = value := Int64.toInt_ofNat_of_lt hfits
  rw [itoa_of_nonneg (by omega), htoInt, Int.toNat_natCast]

end Decimal

end Jayess.Decimal
