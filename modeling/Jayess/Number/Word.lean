import Mathlib.Tactic.NormNum

/-!
# Machine words

Sums and products of 64-bit words that may wrap around, against those of the integers.
-/

namespace Jayess.Word

theorem toInt_bounds (word : Int64) : -2 ^ 63 ≤ word.toInt ∧ word.toInt < 2 ^ 63 :=
  ⟨Int64.le_toInt word, Int64.toInt_lt word⟩

theorem bmod_bounds (value : Int) :
    -2 ^ 63 ≤ value.bmod (2 ^ 64) ∧ value.bmod (2 ^ 64) < 2 ^ 63 := by
  have hlow : -(((2 ^ 64 : Nat) : Int) / 2) ≤ value.bmod (2 ^ 64) := Int.le_bmod (by positivity)
  have hhigh : value.bmod (2 ^ 64) < (((2 ^ 64 : Nat) : Int) + 1) / 2 := Int.bmod_lt (by positivity)
  omega

theorem bmod_eq_self {value : Int} (hlow : -2 ^ 63 ≤ value) (hhigh : value < 2 ^ 63) :
    value.bmod (2 ^ 64) = value :=
  Int.bmod_eq_of_le (by omega) (by omega)

theorem toInt_add_mul (first second third : Int64) :
    (first + second * third).toInt =
      (first.toInt + second.toInt * third.toInt).bmod (2 ^ 64) := by
  rw [Int64.toInt_add, Int64.toInt_mul, Int.add_bmod_bmod]

def ofLength (length : Nat) : Int64 := Int64.ofNat length

theorem toInt_ofLength {length : Nat} (hfits : length < 2 ^ 63) :
    (ofLength length).toInt = length :=
  Int64.toInt_ofNat_of_lt hfits

end Jayess.Word
