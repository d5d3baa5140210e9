import Jayess.Number.Decimal

/-! # Strings of decimal digits -/

namespace Jayess.DigitString

/-- The number of a string of digits. -/
abbrev value (text : List Char) : Nat := Nat.ofDigitChars 10 text 0

def Digits (text : List Char) : Prop := ∀ ch ∈ text, ch.isDigit = true

instance (text : List Char) : Decidable (Digits text) := inferInstanceAs (Decidable (∀ ch ∈ text, _))

structure Canonical (text : List Char) : Prop where
  digits : Digits text
  ne_nil : text ≠ []
  zero : ∀ rest, text = '0' :: rest → rest = []

variable {text other rest : List Char} {ch : Char}

theorem digit_bounds (hdigit : ch.isDigit = true) : 48 ≤ ch.toNat ∧ ch.toNat ≤ 57 := by
  rw [Char.isDigit, Bool.and_eq_true, decide_eq_true_eq, decide_eq_true_eq] at hdigit
  exact hdigit

theorem value_cons : value (ch :: text) = 10 ^ text.length * (ch.toNat - 48) + value text := by
  rw [value, Nat.ofDigitChars_cons, Nat.ofDigitChars_eq_ofDigitChars_zero, Nat.mul_zero, Nat.zero_add]
  rfl

theorem Digits.tail (hdigits : Digits (ch :: text)) : Digits text :=
  fun other hother => hdigits other (List.mem_cons_of_mem ch hother)

theorem value_lt (hdigits : Digits text) : value text < 10 ^ text.length := by
  induction text with
  | nil => exact Nat.one_pos
  | cons ch rest ih =>
      have hbounds := digit_bounds (hdigits ch List.mem_cons_self)
      have hrest := ih hdigits.tail
      calc value (ch :: rest)
        _ = 10 ^ rest.length * (ch.toNat - 48) + value rest := value_cons
        _ < 10 ^ rest.length * (ch.toNat - 48) + 10 ^ rest.length := Nat.add_lt_add_left hrest _
        _ = 10 ^ rest.length * (ch.toNat - 48 + 1) := (Nat.mul_succ _ _).symm
        _ ≤ 10 ^ rest.length * 10 := Nat.mul_le_mul_left _ (by omega)
        _ = 10 ^ (ch :: rest).length := by rw [List.length_cons, Nat.pow_succ]

theorem Canonical.le_value (hcanonical : Canonical (ch :: rest)) (hne : rest ≠ []) :
    10 ^ rest.length ≤ value (ch :: rest) := by
  have hbounds := digit_bounds (hcanonical.digits ch List.mem_cons_self)
  have hnonzero : ch.toNat ≠ 48 := by
    intro hzero
    have hch : ch = '0' := Char.ext (UInt32.toNat.inj hzero)
    exact hne (hcanonical.zero rest (hch ▸ rfl))
  rw [value_cons]
  exact Nat.le_trans (Nat.le_mul_of_pos_right _ (by omega)) (Nat.le_add_right _ _)

theorem Canonical.value_lt_of_length (hcanonical : Canonical text) (hother : Canonical other)
    (hlength : text.length < other.length) : value text < value other := by
  obtain _ | ⟨ch, rest⟩ := other
  · exact absurd hlength (Nat.not_lt_zero _)
  have hpos := List.length_pos_iff.mpr hcanonical.ne_nil
  have hne : rest ≠ [] := by
    rintro rfl
    rw [List.length_singleton] at hlength
    omega
  have hle : text.length ≤ rest.length := by
    rw [List.length_cons] at hlength
    omega
  calc value text
    _ < 10 ^ text.length := value_lt hcanonical.digits
    _ ≤ 10 ^ rest.length := Nat.pow_le_pow_right (by decide) hle
    _ ≤ value (ch :: rest) := hother.le_value hne

theorem value_cons_lt_iff {later : Char} (hrest : Digits rest) (hother : Digits other)
    (hfirst : ch.isDigit = true) (hlater : later.isDigit = true) (hlength : rest.length = other.length) :
    value (ch :: rest) < value (later :: other) ↔
      ch.toNat < later.toNat ∨ (ch.toNat = later.toNat ∧ value rest < value other) := by
  have hfirst := digit_bounds hfirst
  have hlater := digit_bounds hlater
  have hrest := value_lt hrest
  have hother := value_lt hother
  rw [value_cons, value_cons, hlength]
  rw [hlength] at hrest
  obtain hlt | heq | hgt := Nat.lt_trichotomy ch.toNat later.toNat
  · refine iff_of_true ?_ (.inl hlt)
    have hstep : 10 ^ other.length * (ch.toNat - 48 + 1) ≤ 10 ^ other.length * (later.toNat - 48) :=
      Nat.mul_le_mul_left _ (by omega)
    rw [Nat.mul_succ] at hstep
    omega
  · rw [heq]
    simp
  · refine iff_of_false ?_ (by omega)
    have hstep : 10 ^ other.length * (later.toNat - 48 + 1) ≤ 10 ^ other.length * (ch.toNat - 48) :=
      Nat.mul_le_mul_left _ (by omega)
    rw [Nat.mul_succ] at hstep
    omega

theorem value_injective (hdigits : Digits text) (hother : Digits other) (hlength : text.length = other.length)
    (hvalue : value text = value other) : text = other := by
  induction text generalizing other with
  | nil => exact (List.length_eq_zero_iff.mp hlength.symm).symm
  | cons ch rest ih =>
      obtain _ | ⟨later, others⟩ := other
      · exact absurd hlength (Nat.succ_ne_zero _)
      have hlength : rest.length = others.length := Nat.succ.inj hlength
      have hfirst := hdigits ch List.mem_cons_self
      have hlater := hother later List.mem_cons_self
      have hless := value_cons_lt_iff hdigits.tail hother.tail hfirst hlater hlength
      have hmore := value_cons_lt_iff hother.tail hdigits.tail hlater hfirst hlength.symm
      have heq : ch.toNat = later.toNat := by omega
      have hrest : rest = others := ih hdigits.tail hother.tail hlength (by omega)
      rw [hrest, Char.ext (UInt32.toNat.inj heq)]

theorem canonical_toDigits (number : Nat) : Canonical (Nat.toDigits 10 number) where
  digits _ hmem := Nat.isDigit_of_mem_toDigits (by decide) (by decide) hmem
  ne_nil := Nat.toDigits_ne_nil
  zero rest heq := by
    by_cases hzero : number = 0
    · subst hzero
      exact (List.cons.inj heq).2.symm
    · exact absurd (heq ▸ rfl) (Decimal.head_toDigits_ne_zero number hzero)

theorem Canonical.toDigits_value (hcanonical : Canonical text) : Nat.toDigits 10 (value text) = text := by
  have hdigits := canonical_toDigits (value text)
  have hvalue : value (Nat.toDigits 10 (value text)) = value text := Nat.ofDigitChars_ten_toDigits
  have hlength : (Nat.toDigits 10 (value text)).length = text.length := by
    rcases Nat.lt_trichotomy (Nat.toDigits 10 (value text)).length text.length with hlt | heq | hgt
    · exact absurd (hdigits.value_lt_of_length hcanonical hlt) (by omega)
    · exact heq
    · exact absurd (hcanonical.value_lt_of_length hdigits hgt) (by omega)
  exact value_injective hdigits.digits hcanonical.digits hlength hvalue

theorem value_dropWhile : value (text.dropWhile (· = '0')) = value text := by
  induction text with
  | nil => rfl
  | cons ch rest ih =>
      by_cases hzero : ch = '0'
      · rw [List.dropWhile_cons_of_pos (by simpa using hzero), ih, value_cons, hzero]
        simp
      · rw [List.dropWhile_cons_of_neg (by simpa using hzero)]

theorem canonical_dropWhile (hdigits : Digits text) (hne : text.dropWhile (· = '0') ≠ []) :
    Canonical (text.dropWhile (· = '0')) where
  digits _ hmem := hdigits _ ((List.dropWhile_suffix _).subset hmem)
  ne_nil := hne
  zero rest heq := by
    have hhead := List.head?_dropWhile_not (fun ch => decide (ch = '0')) text
    rw [heq] at hhead
    simp at hhead

end Jayess.DigitString
