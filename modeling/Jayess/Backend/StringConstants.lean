import Mathlib.Data.List.TakeWhile
import Jayess.Backend.RuntimeLiteral
import Jayess.Number.Decimal

/-!
# String constants
-/

namespace Jayess.Backend

/-- `escapeCString` of the bytes of a string. -/
def escapeBytes (bytes : List UInt8) : List Char := bytes.flatMap escapeByte

def arrayType (length : Nat) : String := "[" ++ toString length ++ " x i8]"

/-- `runtimeStringGlobal` of the bytes of a string. -/
def bytesGlobal (index : Nat) (bytes : List UInt8) : Global where
  name := ".jayess.literal." ++ toString index
  irType := arrayType (bytes.length + 1)
  value := "c\"" ++ String.ofList (escapeBytes bytes) ++ "\\00\""

/-- `LowerRuntimeLiteral` of a string. -/
def lowerStringBytes (result : Nat) (bytes : List UInt8) (stringIndex : Nat) : RuntimeLiteralLowering :=
  let symbol := "jayess_value_from_string_copy"
  let args := [⟨"i8*", .literalPointer stringIndex (bytes.length + 1)⟩]
  { declarations := [runtimeCallDeclaration symbol runtimeValueIRType args]
    globals := [bytesGlobal stringIndex bytes]
    body := [.call result runtimeValueIRType symbol args] }

/-! ## What LLVM reads -/

def hexValue (ch : Char) : Option Nat :=
  if '0' ≤ ch ∧ ch ≤ '9' then some (ch.toNat - 48)
  else if 'A' ≤ ch ∧ ch ≤ 'F' then some (ch.toNat - 55)
  else if 'a' ≤ ch ∧ ch ≤ 'f' then some (ch.toNat - 87)
  else none

/-- A backslash and two hexadecimal digits are a byte, two backslashes one; any other backslash is itself. -/
def unescape : List Char → List UInt8
  | [] => []
  | '\\' :: '\\' :: rest => 92 :: unescape rest
  | '\\' :: high :: low :: rest =>
      match hexValue high, hexValue low with
      | some high, some low => UInt8.ofNat (16 * high + low) :: unescape rest
      | _, _ => 92 :: unescape (high :: low :: rest)
  | ch :: rest => String.utf8EncodeChar ch ++ unescape rest

/-- The bytes of a constant, which ends at the first quote. -/
def constantBytes (value : String) : Option (List UInt8) :=
  let text := value.toList.drop 2
  if value.toList.take 2 = ['c', '"'] ∧ text.dropWhile (· ≠ '"') = ['"'] then
    some (unescape (text.takeWhile (· ≠ '"')))
  else none

/-- The length of an array type. -/
def declaredLength (irType : String) : Option Nat :=
  let text := irType.toList.drop 1
  if irType.toList.take 1 = ['['] ∧ text.dropWhile (·.isDigit) = " x i8]".toList then
    Decimal.denoted (String.ofList (text.takeWhile (·.isDigit)))
  else none

/-- The bytes up to the first zero. -/
def cString (bytes : List UInt8) : List UInt8 := bytes.takeWhile (· ≠ 0)

def receivedString (globals : List Global) : Operand → Option (List UInt8)
  | .literalPointer index length =>
      (globals.find? fun global => global.name = ".jayess.literal." ++ toString index).bind fun global =>
        if global.irType = arrayType length then (constantBytes global.value).map cString else none
  | _ => none

/-- What the runtime receives from the call of a lowered literal. -/
def RuntimeLiteralLowering.received (lowered : RuntimeLiteralLowering) : Option (List UInt8) :=
  match lowered.body with
  | [.call _ _ _ [arg]] => receivedString lowered.globals arg.value
  | _ => none

section Lemmas

variable {byte : UInt8} {bytes : List UInt8} {rest : List Char}

theorem hexValue_hexDigit {value : Nat} (hlt : value < 16) : hexValue (hexDigit value) = some value := by
  have hall : ∀ digit : Fin 16, hexValue (hexDigit digit) = some digit.val := by decide
  exact hall ⟨value, hlt⟩

theorem hexDigit_ne {value : Nat} (hlt : value < 16) :
    hexDigit value ≠ '\\' ∧ hexDigit value ≠ '"' := by
  have hall : ∀ digit : Fin 16, hexDigit digit ≠ '\\' ∧ hexDigit digit ≠ '"' := by decide
  exact hall ⟨value, hlt⟩

theorem escapeByte_plain (hplain : ¬(byte < 32 ∨ 127 ≤ byte ∨ byte = 92 ∨ byte = 34)) :
    ∃ ch, escapeByte byte = [ch] ∧ ch ≠ '\\' ∧ ch ≠ '"' ∧ String.utf8EncodeChar ch = [byte] := by
  have hall : ∀ value : Fin 128, value.val ≠ 92 → value.val ≠ 34 →
      Char.ofNat value ≠ '\\' ∧ Char.ofNat value ≠ '"' ∧
        String.utf8EncodeChar (Char.ofNat value) = [UInt8.ofNat value] := by decide
  have hlt : byte.toNat < 128 := by
    have hsmall : ¬127 ≤ byte := fun hle => hplain (.inr (.inl hle))
    rw [UInt8.le_iff_toNat_le] at hsmall
    change ¬127 ≤ byte.toNat at hsmall
    omega
  have hbackslash : byte.toNat ≠ 92 := fun heq => hplain (.inr (.inr (.inl (UInt8.toNat_inj.mp heq))))
  have hquote : byte.toNat ≠ 34 := fun heq => hplain (.inr (.inr (.inr (UInt8.toNat_inj.mp heq))))
  obtain ⟨hne, hne', hencode⟩ := hall ⟨byte.toNat, hlt⟩ hbackslash hquote
  refine ⟨Char.ofNat byte.toNat, if_neg hplain, hne, hne', ?_⟩
  rw [hencode, UInt8.ofNat_toNat]

theorem unescape_escapeByte : unescape (escapeByte byte ++ rest) = byte :: unescape rest := by
  by_cases hescaped : byte < 32 ∨ 127 ≤ byte ∨ byte = 92 ∨ byte = 34
  · have hlt := byte.toNat_lt
    have hhigh : byte.toNat / 16 < 16 := by omega
    have hlow : byte.toNat % 16 < 16 := by omega
    have hsum : 16 * (byte.toNat / 16) + byte.toNat % 16 = byte.toNat := Nat.div_add_mod _ _
    have hescape : escapeByte byte =
        ['\\', hexDigit (byte.toNat / 16), hexDigit (byte.toNat % 16)] := if_pos hescaped
    rw [hescape, List.cons_append, List.cons_append, List.cons_append, List.nil_append,
      unescape.eq_3 _ _ _ (hexDigit_ne hhigh).1, hexValue_hexDigit hhigh, hexValue_hexDigit hlow]
    simp only [hsum, UInt8.ofNat_toNat]
  · obtain ⟨ch, hescape, hne, -, hencode⟩ := escapeByte_plain hescaped
    have hread : unescape (ch :: rest) = String.utf8EncodeChar ch ++ unescape rest := by
      rw [unescape] <;> simp [hne]
    rw [hescape, List.cons_append, List.nil_append, hread, hencode]
    rfl

theorem unescape_escapeBytes : unescape (escapeBytes bytes ++ rest) = bytes ++ unescape rest := by
  induction bytes with
  | nil => rfl
  | cons byte bytes ih =>
      rw [escapeBytes, List.flatMap_cons, List.append_assoc, unescape_escapeByte]
      exact congrArg (byte :: ·) ih

theorem ne_quote_of_mem_escapeBytes {ch : Char} (hmem : ch ∈ escapeBytes bytes) : ch ≠ '"' := by
  obtain ⟨byte, -, hmem⟩ := List.mem_flatMap.mp hmem
  by_cases hescaped : byte < 32 ∨ 127 ≤ byte ∨ byte = 92 ∨ byte = 34
  · have hlt := byte.toNat_lt
    have hescape : escapeByte byte =
        ['\\', hexDigit (byte.toNat / 16), hexDigit (byte.toNat % 16)] := if_pos hescaped
    rw [hescape] at hmem
    rcases List.mem_cons.mp hmem with rfl | hmem
    · decide
    · rcases List.mem_cons.mp hmem with rfl | hmem
      · exact (hexDigit_ne (by omega)).2
      · rw [List.mem_singleton.mp hmem]
        exact (hexDigit_ne (by omega)).2
  · obtain ⟨ch', hescape, -, hne, -⟩ := escapeByte_plain hescaped
    rw [hescape] at hmem
    rwa [List.mem_singleton.mp hmem]

theorem constantBytes_bytesGlobal (index : Nat) (bytes : List UInt8) :
    constantBytes (bytesGlobal index bytes).value = some (bytes ++ [0]) := by
  have htext : (bytesGlobal index bytes).value.toList =
      'c' :: '"' :: ((escapeBytes bytes ++ ['\\', '0', '0']) ++ ['"']) := by
    rw [bytesGlobal, String.toList_append, String.toList_append, String.toList_ofList]
    simp
  have hplain : ∀ ch ∈ escapeBytes bytes ++ ['\\', '0', '0'], decide (ch ≠ '"') = true := by
    intro ch hmem
    rcases List.mem_append.mp hmem with hmem | hmem
    · exact decide_eq_true (ne_quote_of_mem_escapeBytes hmem)
    · have hall : ['\\', '0', '0'].all (fun ch => decide (ch ≠ '"')) = true := by decide
      exact List.all_eq_true.mp hall ch hmem
  have hnone : ['"'].takeWhile (fun ch => decide (ch ≠ '"')) = [] := by decide
  simp only [constantBytes, htext, List.drop_succ_cons, List.drop_zero]
  rw [if_pos, List.takeWhile_append_of_pos hplain, hnone, List.append_nil, unescape_escapeBytes]
  · rfl
  · rw [List.dropWhile_append_of_pos hplain]
    exact ⟨rfl, by decide⟩

theorem declaredLength_arrayType (length : Nat) : declaredLength (arrayType length) = some length := by
  have htext : (arrayType length).toList = '[' :: ((Nat.repr length).toList ++ " x i8]".toList) := by
    rw [arrayType, String.toList_append, String.toList_append]
    rfl
  have hdigits : ∀ ch ∈ (Nat.repr length).toList, ch.isDigit = true :=
    fun ch hmem => Decimal.isDigit_of_mem_repr hmem
  have hnone : " x i8]".toList.takeWhile (·.isDigit) = [] := by decide
  simp only [declaredLength, htext, List.drop_succ_cons, List.drop_zero]
  rw [if_pos, List.takeWhile_append_of_pos hdigits, hnone, List.append_nil, String.ofList_toList,
    Decimal.denoted_repr]
  rw [List.dropWhile_append_of_pos hdigits]
  exact ⟨rfl, by decide⟩

theorem cString_append_zero : cString (bytes ++ [0]) = cString bytes := by
  induction bytes with
  | nil => rfl
  | cons byte bytes ih =>
      unfold cString at ih ⊢
      rw [List.cons_append, List.takeWhile_cons, List.takeWhile_cons, ih]

theorem cString_eq_self_iff : cString bytes = bytes ↔ 0 ∉ bytes := by
  constructor
  · intro heq hmem
    rw [← heq] at hmem
    exact absurd (List.mem_takeWhile_imp hmem) (by decide)
  · intro hnone
    refine List.takeWhile_eq_self_iff.mpr fun byte hmem => ?_
    have hne : byte ≠ 0 := fun heq => hnone (heq ▸ hmem)
    simpa using hne

theorem received_lowerStringBytes (result index : Nat) (bytes : List UInt8) :
    (lowerStringBytes result bytes index).received = some (cString bytes) := by
  rw [RuntimeLiteralLowering.received, lowerStringBytes]
  simp only [receivedString, bytesGlobal, List.find?_cons_of_pos, decide_true, Option.bind_some, if_true]
  rw [← cString_append_zero]
  exact congrArg (Option.map cString) (constantBytes_bytesGlobal index bytes)

end Lemmas

/-- The constant holds the bytes of the string and one zero, its type declares their number, and the runtime
receives the bytes before the first zero: the string if it has none. -/
theorem lowerStringBytes_constant (result index : Nat) (bytes : List UInt8) :
    (lowerStringBytes result bytes index).globals = [bytesGlobal index bytes] ∧
      constantBytes (bytesGlobal index bytes).value = some (bytes ++ [0]) ∧
      declaredLength (bytesGlobal index bytes).irType = some (bytes ++ [0]).length ∧
      (lowerStringBytes result bytes index).received = some (cString bytes) ∧
      (cString bytes = bytes ↔ 0 ∉ bytes) ∧
      ∀ result' index' other, 0 ∉ bytes → 0 ∉ other → bytes ≠ other →
        (lowerStringBytes result bytes index).received ≠ (lowerStringBytes result' other index').received := by
  refine ⟨rfl, constantBytes_bytesGlobal index bytes, ?_, received_lowerStringBytes result index bytes,
    cString_eq_self_iff, ?_⟩
  · rw [List.length_append]
    exact declaredLength_arrayType _
  · intro result' index' other hbytes hother hne heq
    rw [received_lowerStringBytes, received_lowerStringBytes, cString_eq_self_iff.mpr hbytes,
      cString_eq_self_iff.mpr hother] at heq
    exact hne (Option.some.inj heq)

/-- A string that contains a zero is cut there. -/
theorem zeroByte_cut :
    ¬∀ bytes : List UInt8, constantBytes (bytesGlobal 0 bytes).value = some (bytes ++ [0]) ∧
      declaredLength (bytesGlobal 0 bytes).irType = some (bytes ++ [0]).length ∧
      (lowerStringBytes 0 bytes 0).received = some bytes := by
  intro hholds
  have hcut := (hholds [97, 0, 98]).2.2
  rw [received_lowerStringBytes] at hcut
  exact absurd (Option.some.inj hcut) (by decide)

end Jayess.Backend
