import Mathlib.Data.List.Basic
import Mathlib.Algebra.GroupWithZero.Nat

/-!
# Texts as bytes

UTF-8 texts as they are read one rune after the other: what starts a rune, what the next rune is,
and where the runes of a text start.
-/

namespace Utf8

def runeStart (byte : UInt8) : Bool := byte &&& 0xC0 != 0x80

def runeError : Char := '\uFFFD'

def decodeRune (bytes : List UInt8) : Char × Nat :=
  match bytes.toByteArray.utf8DecodeChar? 0 with
  | some ch => (ch, ch.utf8Size)
  | none => (runeError, 1)

theorem decodeRune_pos (bytes : List UInt8) : 0 < (decodeRune bytes).2 := by
  rw [decodeRune]
  split
  · exact Char.utf8Size_pos _
  · exact Nat.one_pos

/-- The runes of some bytes, each with the offset of its first byte. -/
def runes (offset : Nat) (bytes : List UInt8) : List (Nat × Char) :=
  if bytes = [] then []
  else
    (offset, (decodeRune bytes).1) ::
      runes (offset + (decodeRune bytes).2) (bytes.drop (decodeRune bytes).2)
termination_by bytes.length
decreasing_by
  rename_i hne
  have hpos := decodeRune_pos bytes
  have hlength := List.length_pos_iff.mpr hne
  rw [List.length_drop]
  omega

def runeCount (bytes : List UInt8) : Nat := (runes 0 bytes).length

def encode (text : List Char) : List UInt8 := text.flatMap String.utf8EncodeChar

def size (text : List Char) : Nat := (text.map Char.utf8Size).sum

section Encoded

variable (ch : Char) (text text' : List Char)

@[simp] theorem encode_nil : encode [] = [] := rfl

@[simp] theorem encode_cons : encode (ch :: text) = String.utf8EncodeChar ch ++ encode text := rfl

@[simp] theorem encode_append : encode (text ++ text') = encode text ++ encode text' :=
  List.flatMap_append

@[simp] theorem size_nil : size [] = 0 := rfl

@[simp] theorem size_cons : size (ch :: text) = ch.utf8Size + size text := rfl

@[simp] theorem size_append : size (text ++ text') = size text + size text' := by
  rw [size, size, size, List.map_append, List.sum_append]

theorem length_encode : (encode text).length = size text := by
  induction text with
  | nil => rfl
  | cons ch text ih => rw [encode_cons, size_cons, List.length_append, String.length_utf8EncodeChar, ih]

theorem decodeRune_encode (bytes : List UInt8) :
    decodeRune (String.utf8EncodeChar ch ++ bytes) = (ch, ch.utf8Size) := by
  rw [decodeRune, List.toByteArray_append, ByteArray.utf8DecodeChar?_utf8EncodeChar_append]

theorem runes_nil (offset : Nat) : runes offset [] = [] := by
  rw [runes, if_pos rfl]

theorem runes_cons (offset : Nat) (bytes : List UInt8) :
    runes offset (String.utf8EncodeChar ch ++ bytes) =
      (offset, ch) :: runes (offset + ch.utf8Size) bytes := by
  have hdrop : (String.utf8EncodeChar ch ++ bytes).drop ch.utf8Size = bytes := by
    rw [← String.length_utf8EncodeChar ch, List.drop_left]
  rw [runes, if_neg (by simp), decodeRune_encode, hdrop]

theorem runes_append (offset : Nat) (bytes : List UInt8) :
    runes offset (encode text ++ bytes) =
      runes offset (encode text) ++ runes (offset + size text) bytes := by
  induction text generalizing offset with
  | nil => simp [runes_nil]
  | cons ch text ih =>
      rw [encode_cons, List.append_assoc, runes_cons, runes_cons, ih, List.cons_append, size_cons,
        Nat.add_assoc]

theorem runeCount_encode : runeCount (encode text) = text.length := by
  have hruns : ∀ offset, (runes offset (encode text)).length = text.length := by
    induction text with
    | nil => exact fun offset => congrArg List.length (runes_nil offset)
    | cons ch text ih =>
        intro offset
        rw [encode_cons, runes_cons, List.length_cons, List.length_cons, ih]
  exact hruns 0

theorem runeStart_encodeChar :
    ∃ first rest, String.utf8EncodeChar ch = first :: rest ∧ runeStart first = true ∧
      ∀ byte ∈ rest, runeStart byte = false := by
  have hone : ∀ bits < 128, runeStart (UInt8.ofNat bits) = true := by decide
  have htwo : ∀ bits < 32, runeStart (UInt8.ofNat (bits + 0xC0)) = true := by decide
  have hthree : ∀ bits < 16, runeStart (UInt8.ofNat (bits + 0xE0)) = true := by decide
  have hfour : ∀ bits < 8, runeStart (UInt8.ofNat (bits + 0xF0)) = true := by decide
  have hcontinuation : ∀ bits < 64, runeStart (UInt8.ofNat (bits + 0x80)) = false := by decide
  have hbits : ∀ value : Nat, runeStart (UInt8.ofNat (value % 0x40 + 0x80)) = false :=
    fun value => hcontinuation _ (Nat.mod_lt _ (by decide))
  fun_cases String.utf8EncodeChar ch with
  | case1 value hle => exact ⟨_, _, rfl, hone _ (Nat.lt_succ_of_le hle), by simp⟩
  | case2 =>
      refine ⟨_, _, rfl, htwo _ (Nat.mod_lt _ (by decide)), ?_⟩
      exact List.forall_mem_singleton.mpr (hbits _)
  | case3 =>
      refine ⟨_, _, rfl, hthree _ (Nat.mod_lt _ (by decide)), ?_⟩
      exact List.forall_mem_cons.mpr ⟨hbits _, List.forall_mem_singleton.mpr (hbits _)⟩
  | case4 =>
      refine ⟨_, _, rfl, hfour _ (Nat.mod_lt _ (by decide)), ?_⟩
      exact List.forall_mem_cons.mpr
        ⟨hbits _, List.forall_mem_cons.mpr ⟨hbits _, List.forall_mem_singleton.mpr (hbits _)⟩⟩

end Encoded

end Utf8
