import Mathlib.Data.List.Basic
import Mathlib.Data.Nat.Bitwise
import Mathlib.Tactic.NormNum

/-!
# Little-endian integers
-/

namespace Jayess.LittleEndian

def uint16 (bytes : List UInt8) : UInt16 :=
  (bytes.getD 0 0).toUInt16 ||| (bytes.getD 1 0).toUInt16 <<< 8

def uint32 (bytes : List UInt8) : UInt32 :=
  (bytes.getD 0 0).toUInt32 ||| (bytes.getD 1 0).toUInt32 <<< 8 ||| (bytes.getD 2 0).toUInt32 <<< 16 |||
    (bytes.getD 3 0).toUInt32 <<< 24

def bytes16 (value : UInt16) : List UInt8 := [value.toUInt8, (value >>> 8).toUInt8]

def bytes32 (value : UInt32) : List UInt8 :=
  [value.toUInt8, (value >>> 8).toUInt8, (value >>> 16).toUInt8, (value >>> 24).toUInt8]

@[simp] theorem length_bytes16 (value : UInt16) : (bytes16 value).length = 2 := rfl

@[simp] theorem length_bytes32 (value : UInt32) : (bytes32 value).length = 4 := rfl

section Digits

variable (first second third fourth : UInt8)

theorem or_shiftLeft {low high shift : Nat} (hlow : low < 2 ^ shift) :
    low ||| high <<< shift = low + 2 ^ shift * high := by
  calc low ||| high <<< shift
    _ = high <<< shift ||| low := Nat.or_comm _ _
    _ = high <<< shift + low := (Nat.shiftLeft_add_eq_or_of_lt hlow high).symm
    _ = low + 2 ^ shift * high := by rw [Nat.shiftLeft_eq, Nat.mul_comm, Nat.add_comm]

theorem toNat_uint16 : (uint16 [first, second]).toNat = first.toNat + 2 ^ 8 * second.toNat := by
  have hfirst := first.toNat_lt
  have hsecond := second.toNat_lt
  have hshift : second.toNat <<< 8 % 2 ^ 16 = second.toNat <<< 8 := by
    rw [Nat.shiftLeft_eq]
    omega
  calc (uint16 [first, second]).toNat
    _ = first.toNat ||| second.toNat <<< 8 % 2 ^ 16 := by simp [uint16]
    _ = first.toNat + 2 ^ 8 * second.toNat := by rw [hshift, or_shiftLeft hfirst]

theorem toNat_uint32 : (uint32 [first, second, third, fourth]).toNat =
    first.toNat + 2 ^ 8 * second.toNat + 2 ^ 16 * third.toNat + 2 ^ 24 * fourth.toNat := by
  have hfirst := first.toNat_lt
  have hsecond := second.toNat_lt
  have hthird := third.toNat_lt
  have hfourth := fourth.toNat_lt
  have hshift : ∀ {byte shift : Nat}, byte < 2 ^ 8 → shift ≤ 24 →
      byte <<< shift % 2 ^ 32 = byte <<< shift := by
    intro byte shift hbyte hle
    refine Nat.mod_eq_of_lt ?_
    calc byte <<< shift
      _ = byte * 2 ^ shift := Nat.shiftLeft_eq _ _
      _ < 2 ^ 8 * 2 ^ shift := Nat.mul_lt_mul_of_pos_right hbyte (Nat.two_pow_pos shift)
      _ ≤ 2 ^ 8 * 2 ^ 24 := Nat.mul_le_mul_left _ (Nat.pow_le_pow_right (by decide) hle)
      _ = 2 ^ 32 := rfl
  have htwo : first.toNat + 2 ^ 8 * second.toNat ||| third.toNat <<< 16 =
      first.toNat + 2 ^ 8 * second.toNat + 2 ^ 16 * third.toNat := or_shiftLeft (by omega)
  calc (uint32 [first, second, third, fourth]).toNat
    _ = first.toNat ||| second.toNat <<< 8 % 2 ^ 32 ||| third.toNat <<< 16 % 2 ^ 32 |||
          fourth.toNat <<< 24 % 2 ^ 32 := by simp [uint32]
    _ = _ := by
      rw [hshift hsecond (by decide), hshift hthird (by decide), hshift hfourth (by decide),
        or_shiftLeft hfirst, htwo, or_shiftLeft (by omega)]

theorem bytes16_pair : bytes16 (uint16 [first, second]) = [first, second] := by
  have hvalue := toNat_uint16 first second
  have hfirst := first.toNat_lt
  have hsecond := second.toNat_lt
  rw [bytes16, List.cons.injEq, List.cons.injEq]
  refine ⟨UInt8.toNat_inj.mp ?_, UInt8.toNat_inj.mp ?_, rfl⟩
  · rw [UInt16.toNat_toUInt8]
    omega
  · rw [UInt16.toNat_toUInt8, UInt16.toNat_shiftRight]
    simp only [UInt16.reduceToNat, Nat.reduceMod, Nat.shiftRight_eq_div_pow]
    omega

theorem bytes32_quadruple :
    bytes32 (uint32 [first, second, third, fourth]) = [first, second, third, fourth] := by
  have hvalue := toNat_uint32 first second third fourth
  have hfirst := first.toNat_lt
  have hsecond := second.toNat_lt
  have hthird := third.toNat_lt
  have hfourth := fourth.toNat_lt
  simp only [bytes32, List.cons.injEq, and_true, ← UInt8.toNat_inj, UInt32.toNat_toUInt8,
    UInt32.toNat_shiftRight, UInt32.reduceToNat, Nat.reduceMod, Nat.shiftRight_eq_div_pow]
  omega

end Digits

theorem bytes16_uint16 {bytes : List UInt8} (hlength : bytes.length = 2) :
    bytes16 (uint16 bytes) = bytes := by
  obtain ⟨first, second, rfl⟩ := List.length_eq_two.mp hlength
  exact bytes16_pair first second

theorem bytes32_uint32 {bytes : List UInt8} (hlength : bytes.length = 4) :
    bytes32 (uint32 bytes) = bytes := by
  obtain ⟨first, rest, rfl⟩ := List.exists_cons_of_length_eq_add_one hlength
  obtain ⟨second, third, fourth, rfl⟩ := List.length_eq_three.mp (Nat.succ.inj hlength)
  exact bytes32_quadruple first second third fourth

theorem uint16_bytes16 (value : UInt16) : uint16 (bytes16 value) = value := by
  have hvalue := value.toNat_lt
  apply UInt16.toNat_inj.mp
  rw [bytes16, toNat_uint16, UInt16.toNat_toUInt8, UInt16.toNat_toUInt8, UInt16.toNat_shiftRight]
  simp only [UInt16.reduceToNat, Nat.reduceMod, Nat.shiftRight_eq_div_pow]
  omega

theorem uint32_bytes32 (value : UInt32) : uint32 (bytes32 value) = value := by
  have hvalue := value.toNat_lt
  apply UInt32.toNat_inj.mp
  rw [bytes32, toNat_uint32]
  simp only [UInt32.toNat_toUInt8, UInt32.toNat_shiftRight, UInt32.reduceToNat, Nat.reduceMod,
    Nat.shiftRight_eq_div_pow]
  omega

end Jayess.LittleEndian
