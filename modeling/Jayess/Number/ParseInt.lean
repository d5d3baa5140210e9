import Mathlib.Data.List.Basic
import Mathlib.Tactic.NormNum
import Jayess.Number.Word

/-! # Integers read from bytes -/

namespace ParseInt

/-- A digit of the base, in either case. -/
def digit (base : Nat) (byte : UInt8) : Option Nat :=
  let value :=
    if 0x30 ≤ byte ∧ byte ≤ 0x39 then byte.toNat - 0x30
    else if 0x41 ≤ byte ∧ byte ≤ 0x5A then byte.toNat - 0x41 + 10
    else if 0x61 ≤ byte ∧ byte ≤ 0x7A then byte.toNat - 0x61 + 10
    else base
  if value < base then some value else none

def digits (base : Nat) (bytes : List UInt8) : Option Nat :=
  if bytes = [] then none
  else bytes.foldlM (fun value byte => (digit base byte).map (value * base + ·)) 0

def bounded (base bound : Nat) (bytes : List UInt8) : Option Nat :=
  (digits base bytes).filter (· ≤ bound)

def parseInt (base : Nat) (bytes : List UInt8) : Option Int64 :=
  if bytes.head? = some 0x2D then (bounded base (2 ^ 63) bytes.tail).map fun value => -Int64.ofNat value
  else if bytes.head? = some 0x2B then (bounded base (2 ^ 63 - 1) bytes.tail).map Int64.ofNat
  else (bounded base (2 ^ 63 - 1) bytes).map Int64.ofNat

section Digits

variable {base value : Nat} {byte : UInt8} {bytes : List UInt8}

theorem digit_range (hdigit : digit base byte = some value) :
    0x30 ≤ byte ∧ byte ≤ 0x39 ∨ 0x41 ≤ byte ∧ byte ≤ 0x5A ∨ 0x61 ≤ byte ∧ byte ≤ 0x7A := by
  by_contra hrange
  rw [not_or, not_or] at hrange
  rw [digit, if_neg hrange.1, if_neg hrange.2.1, if_neg hrange.2.2, if_neg (lt_irrefl base)] at hdigit
  cases hdigit

theorem ne_nil_of_digits (hdigits : digits base bytes = some value) : bytes ≠ [] := by
  rintro rfl
  cases hdigits

theorem mem_digits (hdigits : digits base bytes = some value) (hbyte : byte ∈ bytes) :
    ∃ value, digit base byte = some value := by
  rw [digits, if_neg (List.ne_nil_of_mem hbyte)] at hdigits
  have hfold : ∀ start, bytes.foldlM
      (fun value byte => (digit base byte).map (value * base + ·)) start = some value →
        ∃ value, digit base byte = some value := by
    clear hdigits
    induction bytes with
    | nil => cases hbyte
    | cons first bytes ih =>
        intro start hfold
        rw [List.foldlM_cons] at hfold
        obtain ⟨next, hnext, hrest⟩ := Option.bind_eq_some_iff.mp hfold
        rcases List.mem_cons.mp hbyte with rfl | hlater
        · obtain ⟨value, hvalue, -⟩ := Option.map_eq_some_iff.mp hnext
          exact ⟨value, hvalue⟩
        · exact ih hlater _ hrest
  exact hfold 0 hdigits

theorem parseInt_digits (hdigits : digits base bytes = some value) :
    parseInt base bytes = if value < 2 ^ 63 then some (Int64.ofNat value) else none := by
  have hsign : ∀ sign : UInt8, sign < 0x30 → bytes.head? ≠ some sign := by
    intro sign hsign hhead
    obtain ⟨digitValue, hdigit⟩ := mem_digits hdigits (List.mem_of_head? hhead)
    have hle : 0x30 ≤ sign := by
      rcases digit_range hdigit with ⟨hle, -⟩ | ⟨hle, -⟩ | ⟨hle, -⟩
      · exact hle
      · exact UInt8.le_trans (show (0x30 : UInt8) ≤ _ by decide) hle
      · exact UInt8.le_trans (show (0x30 : UInt8) ≤ _ by decide) hle
    exact absurd hsign (UInt8.not_lt.mpr hle)
  rw [parseInt, if_neg (hsign 0x2D (by decide)), if_neg (hsign 0x2B (by decide)), bounded, hdigits]
  by_cases hfits : value < 2 ^ 63
  · have hle : value ≤ 2 ^ 63 - 1 := by omega
    rw [if_pos hfits, Option.filter_some, if_pos (decide_eq_true hle)]
    rfl
  · have hlt : ¬value ≤ 2 ^ 63 - 1 := by omega
    rw [if_neg hfits, Option.filter_some, if_neg (by simpa using hlt)]
    rfl

theorem parseInt_concat (hdigit : digit base byte = none) (hminus : byte ≠ 0x2D) (hplus : byte ≠ 0x2B)
    (bytes : List UInt8) : parseInt base (bytes ++ [byte]) = none := by
  have hbounded : ∀ bound text, bounded base bound (text ++ [byte]) = none := by
    intro bound text
    have hdigits : digits base (text ++ [byte]) = none := by
      by_contra hsome
      obtain ⟨value, hvalue⟩ := Option.ne_none_iff_exists'.mp hsome
      obtain ⟨digitValue, hread⟩ := mem_digits hvalue (List.mem_append_right _ (List.mem_singleton_self byte))
      rw [hdigit] at hread
      cases hread
    rw [bounded, hdigits]
    rfl
  cases bytes with
  | nil =>
      have hhead : ∀ sign, byte ≠ sign → ([] ++ [byte]).head? ≠ some sign :=
        fun sign hne heq => hne (Option.some.inj heq)
      rw [parseInt, if_neg (hhead _ hminus), if_neg (hhead _ hplus), hbounded, Option.map_none]
  | cons first bytes =>
      rw [parseInt, List.cons_append, List.tail_cons, hbounded, hbounded, ← List.cons_append, hbounded]
      split_ifs <;> rfl

end Digits

end ParseInt
