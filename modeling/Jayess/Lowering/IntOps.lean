import Jayess.Ast
import Jayess.Number.Binary64

/-! The integer operators of the return evaluator (`return_int_ops.go`) beside the operators on
JavaScript numbers that they fold. -/

namespace Jayess.Lowering

open Number

/-- A JavaScript number by its mathematical value; the two zeros have one value. -/
inductive Double where
  | finite (value : ℚ)
  | infinite
  | nan

/-- `ToInt32`; `ToUint32` reads the same bits without a sign. -/
def toInt32 (value : ℤ) : BitVec 32 := BitVec.ofInt 32 value

def jsShiftCount (right : ℤ) : ℕ := (toInt32 right).toNat % 32

section

/- The power function is only approximated by either language, so that both read one table; the
conversion of a double out of range is left to the implementation. -/
variable (power : ℚ → ℚ → Double) (outOfRange : Double → Int64)

/-- The operator on two integral JavaScript numbers. -/
def jsBinary (left right : ℤ) : BinaryOperator → Double
  | .add => .finite (toDouble (left + right))
  | .sub => .finite (toDouble (left - right))
  | .mul => .finite (toDouble (left * right))
  | .pow => power left right
  | .div =>
      if right = 0 then (if left = 0 then .nan else .infinite)
      else .finite (toDouble (left / right))
  | .mod => if right = 0 then .nan else .finite (left.tmod right)
  | .bitAnd => .finite (toInt32 left &&& toInt32 right).toInt
  | .bitOr => .finite (toInt32 left ||| toInt32 right).toInt
  | .bitXor => .finite (toInt32 left ^^^ toInt32 right).toInt
  | .shl => .finite (toInt32 left <<< jsShiftCount right).toInt
  | .shr => .finite ((toInt32 left).sshiftRight (jsShiftCount right)).toInt
  | .ushr => .finite (toInt32 left >>> jsShiftCount right).toNat

/-- The operator a compound assignment applies. -/
def binaryOperator : AssignmentOperator → Option BinaryOperator
  | .addAssign => some .add
  | .subAssign => some .sub
  | .mulAssign => some .mul
  | .powAssign => some .pow
  | .divAssign => some .div
  | .modAssign => some .mod
  | .bitAndAssign => some .bitAnd
  | .bitOrAssign => some .bitOr
  | .bitXorAssign => some .bitXor
  | .shlAssign => some .shl
  | .shrAssign => some .shr
  | .ushrAssign => some .ushr
  | .assign | .nullishAssign | .orAssign | .andAssign => none

def shiftCount (value : Int64) : ℕ := (value.toBitVec &&& 31#64).toNat

/-- The conversion `int(f)` of a double, which discards the fraction. -/
def intOfDouble : Double → Int64
  | .finite value =>
      if -2 ^ 63 ≤ value.num.tdiv value.den ∧ value.num.tdiv value.den < 2 ^ 63 then
        Int64.ofInt (value.num.tdiv value.den)
      else outOfRange (.finite value)
  | .infinite => outOfRange .infinite
  | .nan => outOfRange .nan

def intPower (left right : Int64) : Int64 :=
  intOfDouble outOfRange (power (toDouble left.toInt) (toDouble right.toInt))

def evaluateIntAssignment (operator : AssignmentOperator) (left right : Int64) : Option Int64 :=
  match operator with
  | .addAssign => some (left + right)
  | .subAssign => some (left - right)
  | .mulAssign => some (left * right)
  | .powAssign => some (intPower power outOfRange left right)
  | .divAssign => if right = 0 then none else some (left / right)
  | .modAssign => if right = 0 then none else some (left % right)
  | .bitAndAssign => some (left &&& right)
  | .bitOrAssign => some (left ||| right)
  | .bitXorAssign => some (left ^^^ right)
  | .shlAssign => some (Int64.ofBitVec (left.toBitVec <<< shiftCount right))
  | .shrAssign => some (Int64.ofBitVec (left.toBitVec.sshiftRight (shiftCount right)))
  | .ushrAssign => some (Int64.ofNat (left.toBitVec.setWidth 32 >>> shiftCount right).toNat)
  | .assign | .nullishAssign | .orAssign | .andAssign => none

def evaluateIntBinary (operator : BinaryOperator) (left right : Int64) : Option Int64 :=
  match operator with
  | .add => some (left + right)
  | .sub => some (left - right)
  | .mul => some (left * right)
  | .div => if right = 0 then none else some (left / right)
  | .mod => if right = 0 then none else some (left % right)
  | .pow => some (intPower power outOfRange left right)
  | .bitAnd => some (left &&& right)
  | .bitOr => some (left ||| right)
  | .bitXor => some (left ^^^ right)
  | .shl => some (Int64.ofBitVec (left.toBitVec <<< shiftCount right))
  | .shr => some (Int64.ofBitVec (left.toBitVec.sshiftRight (shiftCount right)))
  | .ushr => some (Int64.ofNat (left.toBitVec.setWidth 32 >>> shiftCount right).toNat)

theorem evaluateIntAssignment_eq (operator : AssignmentOperator) (left right : Int64) :
    evaluateIntAssignment power outOfRange operator left right =
      (binaryOperator operator).bind fun binary =>
        evaluateIntBinary power outOfRange binary left right := by
  cases operator <;> rfl

def FitsInt32 (bits : ℕ → Bool) : Prop := ∀ i, 31 ≤ i → i < 64 → bits i = bits 31

/-- The operands on which an operator of the evaluator computes the JavaScript result. -/
def Agreeing (left right : Int64) : BinaryOperator → Prop
  | .add => IsDouble (left.toInt + right.toInt)
  | .sub => IsDouble (left.toInt - right.toInt)
  | .mul =>
      IsDouble (left.toInt * right.toInt) ∧
        -2 ^ 63 ≤ left.toInt * right.toInt ∧ left.toInt * right.toInt < 2 ^ 63
  | .pow => ∃ n : ℤ, power left.toInt right.toInt = .finite n ∧ -2 ^ 63 ≤ n ∧ n < 2 ^ 63
  | .div => right.toInt = 0 ∨ right.toInt ∣ left.toInt
  | .mod => True
  | .bitAnd => FitsInt32 fun i => left.toBitVec.getLsbD i && right.toBitVec.getLsbD i
  | .bitOr => FitsInt32 fun i => left.toBitVec.getLsbD i || right.toBitVec.getLsbD i
  | .bitXor => FitsInt32 fun i => left.toBitVec.getLsbD i ^^ right.toBitVec.getLsbD i
  | .shl => FitsInt32 fun i => left.toBitVec.getLsbD (i - shiftCount right)
  | .shr => -2 ^ 31 ≤ left.toInt ∧ left.toInt < 2 ^ 31
  | .ushr => True

def Folds (result : Option Int64) (number : Double) : Prop :=
  ∀ n, result = some n → number = .finite n.toInt

theorem folds_some {n : Int64} {number : Double} :
    Folds (some n) number ↔ number = .finite n.toInt := by
  constructor
  · intro h
    exact h n rfl
  · intro h m hm
    rw [h, Option.some.inj hm]

theorem folds_finite {n : Int64} {value : ℚ} :
    Folds (some n) (.finite value) ↔ value = n.toInt := by
  rw [folds_some, Double.finite.injEq]

end

theorem toDouble_eq_bmod_iff {x : ℤ} (bounded : |x| ≤ 2 ^ 53 * 2 ^ 64) :
    toDouble x = ((x.bmod (2 ^ 64) : ℤ) : ℚ) ↔ IsDouble x ∧ -2 ^ 63 ≤ x ∧ x < 2 ^ 63 := by
  constructor
  · intro same
    have hx : x.bmod (2 ^ 64) = x := by
      apply eq_of_toDouble_eq bounded _ same
      exact_mod_cast Int.dvd_bmod_sub_self (x := x) (m := 2 ^ 64)
    have hlow : -(((2 ^ 64 : ℕ) : ℤ) / 2) ≤ x.bmod (2 ^ 64) := Int.le_bmod (by positivity)
    have hhigh : x.bmod (2 ^ 64) < (((2 ^ 64 : ℕ) : ℤ) + 1) / 2 := Int.bmod_lt (by positivity)
    rw [hx] at same hlow hhigh
    refine ⟨toDouble_eq_self_iff.mp same, ?_, ?_⟩ <;> omega
  · rintro ⟨double, low, high⟩
    rw [toDouble_eq_self_iff.mpr double, Int.bmod_eq_of_le (by omega) (by omega)]

theorem toDouble_eq_bmod_iff_of_le {x : ℤ} (bounded : |x| ≤ 2 ^ 54) :
    toDouble x = ((x.bmod (2 ^ 64) : ℤ) : ℚ) ↔ IsDouble x := by
  have hrange := abs_le.mp bounded
  rw [toDouble_eq_bmod_iff (by linarith)]
  constructor
  · intro h
    exact h.1
  · intro h
    refine ⟨h, ?_, ?_⟩ <;> omega

theorem toInt32_toInt (x : Int64) : toInt32 x.toInt = x.toBitVec.setWidth 32 := by
  rw [toInt32, ← Int64.toInt_toBitVec]
  exact BitVec.signExtend_eq_setWidth_of_le x.toBitVec (by decide)

theorem jsShiftCount_toInt (x : Int64) : jsShiftCount x.toInt = shiftCount x := by
  have hmask : (31#64).toNat = 2 ^ 5 - 1 := rfl
  rw [jsShiftCount, toInt32_toInt, shiftCount, BitVec.toNat_and, hmask,
    Nat.and_two_pow_sub_one_eq_mod, BitVec.toNat_setWidth]
  omega

theorem shiftCount_lt (x : Int64) : shiftCount x < 32 := by
  rw [← jsShiftCount_toInt]
  exact Nat.mod_lt _ (by decide)

theorem toInt_setWidth_eq_iff (x : BitVec 64) :
    (x.setWidth 32).toInt = x.toInt ↔ FitsInt32 x.getLsbD := by
  have hbits : ∀ i, ((x.setWidth 32).signExtend 64).getLsbD i =
      (decide (i < 64) && if i < 32 then x.getLsbD i else x.getLsbD 31) := by
    intro i
    rw [BitVec.getLsbD_signExtend, BitVec.msb_eq_getLsbD_last]
    by_cases h : i < 32 <;> simp [h]
  rw [← BitVec.toInt_signExtend_of_le (v := 64) (by decide), BitVec.toInt_inj]
  constructor
  · intro same i low high
    rw [← same, hbits, hbits]
    by_cases h : i < 32
    · obtain rfl : i = 31 := by omega
      rfl
    · simp [h, high]
  · intro fits
    apply BitVec.eq_of_getLsbD_eq
    intro i hi
    rw [hbits, decide_eq_true hi, Bool.true_and]
    by_cases h : i < 32
    · rw [if_pos h]
    · rw [if_neg h]
      exact (fits i (by omega) hi).symm

theorem toInt_sshiftRight_setWidth_eq_iff (x : BitVec 64) {count : ℕ} (small : count < 32) :
    ((x.setWidth 32).sshiftRight count).toInt = (x.sshiftRight count).toInt ↔
      -2 ^ 31 ≤ x.toInt ∧ x.toInt < 2 ^ 31 := by
  have hlow : (x.setWidth 32).toInt = x.toInt.bmod (2 ^ 32) := by
    rw [← BitVec.signExtend_eq_setWidth_of_le x (by decide)]
    exact BitVec.toInt_ofInt _
  rw [BitVec.toInt_sshiftRight, BitVec.toInt_sshiftRight, hlow, Int.shiftRight_eq_div_pow,
    Int.shiftRight_eq_div_pow]
  constructor
  · intro same
    obtain ⟨k, hk⟩ : ((2 ^ 32 : ℕ) : ℤ) ∣ x.toInt.bmod (2 ^ 32) - x.toInt :=
      Int.dvd_bmod_sub_self
    have hcount : 32 = 32 - count + count := by omega
    have hsplit : ((2 ^ 32 : ℕ) : ℤ) = 2 ^ (32 - count) * ((2 ^ count : ℕ) : ℤ) := by
      calc ((2 ^ 32 : ℕ) : ℤ) = 2 ^ (32 - count + count) := by rw [← hcount]; rfl
        _ = 2 ^ (32 - count) * ((2 ^ count : ℕ) : ℤ) := by
          rw [pow_add]
          push_cast
          rfl
    have hvalue : x.toInt.bmod (2 ^ 32) =
        x.toInt + 2 ^ (32 - count) * k * ((2 ^ count : ℕ) : ℤ) := by
      rw [hsplit] at hk
      linarith
    have hpos : (0 : ℤ) < ((2 ^ count : ℕ) : ℤ) := by positivity
    rw [hvalue, Int.add_mul_ediv_right _ _ hpos.ne'] at same
    have hzero : 2 ^ (32 - count) * k = 0 := by linarith
    have hk0 : k = 0 := by
      rcases mul_eq_zero.mp hzero with h | h
      · exact absurd h (by positivity)
      · exact h
    have hbounds : -(((2 ^ 32 : ℕ) : ℤ) / 2) ≤ x.toInt.bmod (2 ^ 32) ∧
        x.toInt.bmod (2 ^ 32) < (((2 ^ 32 : ℕ) : ℤ) + 1) / 2 :=
      ⟨Int.le_bmod (by positivity), Int.bmod_lt (by positivity)⟩
    rw [hk0] at hk
    omega
  · rintro ⟨low, high⟩
    rw [Int.bmod_eq_of_le (by omega) (by omega)]

section

variable {power : ℚ → ℚ → Double} {outOfRange : Double → Int64} {left right : Int64}

theorem folds_add_iff (hleft : |left.toInt| ≤ 2 ^ 53) (hright : |right.toInt| ≤ 2 ^ 53) :
    Folds (some (left + right)) (.finite (toDouble (left.toInt + right.toInt))) ↔
      IsDouble (left.toInt + right.toInt) := by
  have hsum : |left.toInt + right.toInt| ≤ 2 ^ 54 := by
    have htriangle := abs_add_le left.toInt right.toInt
    linarith
  rw [folds_finite, Int64.toInt_add, ← Int.cast_add]
  exact toDouble_eq_bmod_iff_of_le hsum

theorem folds_sub_iff (hleft : |left.toInt| ≤ 2 ^ 53) (hright : |right.toInt| ≤ 2 ^ 53) :
    Folds (some (left - right)) (.finite (toDouble (left.toInt - right.toInt))) ↔
      IsDouble (left.toInt - right.toInt) := by
  have hdifference : |left.toInt - right.toInt| ≤ 2 ^ 54 := by
    have htriangle := abs_sub left.toInt right.toInt
    linarith
  rw [folds_finite, Int64.toInt_sub, ← Int.cast_sub]
  exact toDouble_eq_bmod_iff_of_le hdifference

theorem folds_mul_iff (hleft : |left.toInt| ≤ 2 ^ 53) (hright : |right.toInt| ≤ 2 ^ 53) :
    Folds (some (left * right)) (.finite (toDouble (left.toInt * right.toInt))) ↔
      IsDouble (left.toInt * right.toInt) ∧
        -2 ^ 63 ≤ left.toInt * right.toInt ∧ left.toInt * right.toInt < 2 ^ 63 := by
  have hproduct : |left.toInt * right.toInt| ≤ 2 ^ 53 * 2 ^ 64 := by
    rw [abs_mul]
    apply mul_le_mul hleft (hright.trans (by norm_num)) (abs_nonneg _) (by norm_num)
  rw [folds_finite, Int64.toInt_mul, ← Int.cast_mul]
  exact toDouble_eq_bmod_iff hproduct

theorem folds_div_iff (hleft : |left.toInt| ≤ 2 ^ 53) (nonzero : right.toInt ≠ 0) :
    Folds (some (left / right)) (.finite (toDouble (left.toInt / right.toInt))) ↔
      right.toInt ∣ left.toInt := by
  rw [folds_finite]
  constructor
  · intro same
    exact ⟨_, (dvd_of_toDouble_div_eq hleft nonzero same).trans (mul_comm _ _)⟩
  · rintro ⟨quotient, hquotient⟩
    have hrational : (left.toInt : ℚ) / right.toInt = quotient := by
      have hne : (right.toInt : ℚ) ≠ 0 := by exact_mod_cast nonzero
      rw [hquotient, Int.cast_mul, mul_div_cancel_left₀ _ hne]
    have hsmall : |quotient| ≤ 2 ^ 53 := by
      calc |quotient| = 1 * |quotient| := by rw [one_mul]
        _ ≤ |right.toInt| * |quotient| := by
          apply mul_le_mul_of_nonneg_right _ (abs_nonneg _)
          exact Int.one_le_abs nonzero
        _ = |left.toInt| := by rw [hquotient, abs_mul]
        _ ≤ 2 ^ 53 := hleft
    have hrange := abs_le.mp hsmall
    rw [hrational, toDouble_eq_self_iff.mpr (isDouble_intCast hsmall), Int64.toInt_div, hquotient,
      Int.mul_tdiv_cancel_left _ nonzero, Int.bmod_eq_of_le (by omega) (by omega)]

theorem folds_intOfDouble_iff {number : Double} :
    Folds (some (intOfDouble outOfRange number)) number ↔
      ∃ n : ℤ, number = .finite n ∧ -2 ^ 63 ≤ n ∧ n < 2 ^ 63 := by
  rw [folds_some]
  constructor
  · intro same
    exact ⟨_, same, Int64.le_toInt _, Int64.toInt_lt _⟩
  · rintro ⟨n, rfl, low, high⟩
    have hinteger : intOfDouble outOfRange (.finite n) = Int64.ofInt n := by
      rw [intOfDouble, Rat.num_intCast, Rat.den_intCast, Nat.cast_one, Int.tdiv_one,
        if_pos ⟨low, high⟩]
    rw [hinteger, Int64.toInt_ofInt_of_le low high]

theorem folds_setWidth_iff (word : BitVec 64) :
    Folds (some (Int64.ofBitVec word)) (.finite (word.setWidth 32).toInt) ↔
      FitsInt32 word.getLsbD := by
  rw [folds_finite, Int.cast_inj]
  exact toInt_setWidth_eq_iff word

theorem folds_shl_iff :
    Folds (some (Int64.ofBitVec (left.toBitVec <<< shiftCount right)))
        (.finite (toInt32 left.toInt <<< jsShiftCount right.toInt).toInt) ↔
      FitsInt32 fun i => left.toBitVec.getLsbD (i - shiftCount right) := by
  have hcount := shiftCount_lt right
  rw [toInt32_toInt, jsShiftCount_toInt, ← BitVec.setWidth_shiftLeft_of_le (by decide),
    folds_setWidth_iff]
  have hbits : ∀ i, 31 ≤ i → i < 64 → (left.toBitVec <<< shiftCount right).getLsbD i =
      left.toBitVec.getLsbD (i - shiftCount right) := by
    intro i low high
    have hcarried : ¬ i < shiftCount right := by omega
    rw [BitVec.getLsbD_shiftLeft, decide_eq_true high, decide_eq_false hcarried, Bool.not_false,
      Bool.true_and, Bool.true_and]
  constructor
  · intro fits i low high
    change left.toBitVec.getLsbD _ = left.toBitVec.getLsbD _
    rw [← hbits i low high, fits i low high, hbits 31 (by omega) (by omega)]
  · intro fits i low high
    rw [hbits i low high, hbits 31 (by omega) (by omega)]
    exact fits i low high

theorem folds_shr_iff :
    Folds (some (Int64.ofBitVec (left.toBitVec.sshiftRight (shiftCount right))))
        (.finite ((toInt32 left.toInt).sshiftRight (jsShiftCount right.toInt)).toInt) ↔
      -2 ^ 31 ≤ left.toInt ∧ left.toInt < 2 ^ 31 := by
  rw [folds_finite, Int.cast_inj, toInt32_toInt, jsShiftCount_toInt]
  exact toInt_sshiftRight_setWidth_eq_iff left.toBitVec (shiftCount_lt right)

theorem folds_ushr :
    Folds (some (Int64.ofNat (left.toBitVec.setWidth 32 >>> shiftCount right).toNat))
      (.finite (toInt32 left.toInt >>> jsShiftCount right.toInt).toNat) := by
  rw [folds_finite, toInt32_toInt, jsShiftCount_toInt]
  have hword := (left.toBitVec.setWidth 32 >>> shiftCount right).isLt
  have hexact : (Int64.ofNat (left.toBitVec.setWidth 32 >>> shiftCount right).toNat).toInt =
      ((left.toBitVec.setWidth 32 >>> shiftCount right).toNat : ℤ) := by
    apply Int64.toInt_ofNat_of_lt
    omega
  rw [hexact, Int.cast_natCast]

theorem folds_evaluateIntBinary_iff (hleft : |left.toInt| ≤ 2 ^ 53)
    (hright : |right.toInt| ≤ 2 ^ 53) (operator : BinaryOperator) :
    Folds (evaluateIntBinary power outOfRange operator left right)
        (jsBinary power left.toInt right.toInt operator) ↔
      Agreeing power left right operator := by
  have hzero : right = 0 ↔ right.toInt = 0 := by
    rw [← Int64.toInt_inj]
    rfl
  cases operator with
  | add => exact folds_add_iff hleft hright
  | sub => exact folds_sub_iff hleft hright
  | mul => exact folds_mul_iff hleft hright
  | pow =>
    have hpower : intPower power outOfRange left right =
        intOfDouble outOfRange (power left.toInt right.toInt) := by
      rw [intPower, toDouble_eq_self_iff.mpr (isDouble_intCast hleft),
        toDouble_eq_self_iff.mpr (isDouble_intCast hright)]
    change Folds (some (intPower power outOfRange left right)) _ ↔ _
    rw [hpower]
    exact folds_intOfDouble_iff
  | div =>
    change Folds (if right = 0 then none else some (left / right))
      (if right.toInt = 0 then _ else _) ↔ right.toInt = 0 ∨ _
    by_cases h : right.toInt = 0
    · rw [if_pos (hzero.mpr h)]
      exact ⟨fun _ => .inl h, fun _ n hn => nomatch hn⟩
    · rw [if_neg (mt hzero.mp h), if_neg h, folds_div_iff hleft h]
      exact ⟨.inr, fun either => either.resolve_left h⟩
  | mod =>
    change Folds (if right = 0 then none else some (left % right))
      (if right.toInt = 0 then _ else _) ↔ True
    by_cases h : right.toInt = 0
    · rw [if_pos (hzero.mpr h)]
      exact ⟨fun _ => trivial, fun _ n hn => nomatch hn⟩
    · rw [if_neg (mt hzero.mp h), if_neg h, folds_finite, Int64.toInt_mod]
      exact ⟨fun _ => trivial, fun _ => rfl⟩
  | bitAnd =>
    change Folds _ (.finite (toInt32 left.toInt &&& toInt32 right.toInt).toInt) ↔ _
    rw [toInt32_toInt, toInt32_toInt, ← BitVec.setWidth_and]
    refine (folds_setWidth_iff (left.toBitVec &&& right.toBitVec)).trans ?_
    simp only [FitsInt32, BitVec.getLsbD_and, Agreeing]
  | bitOr =>
    change Folds _ (.finite (toInt32 left.toInt ||| toInt32 right.toInt).toInt) ↔ _
    rw [toInt32_toInt, toInt32_toInt, ← BitVec.setWidth_or]
    refine (folds_setWidth_iff (left.toBitVec ||| right.toBitVec)).trans ?_
    simp only [FitsInt32, BitVec.getLsbD_or, Agreeing]
  | bitXor =>
    change Folds _ (.finite (toInt32 left.toInt ^^^ toInt32 right.toInt).toInt) ↔ _
    rw [toInt32_toInt, toInt32_toInt, ← BitVec.setWidth_xor]
    refine (folds_setWidth_iff (left.toBitVec ^^^ right.toBitVec)).trans ?_
    simp only [FitsInt32, BitVec.getLsbD_xor, Agreeing]
  | shl => exact folds_shl_iff
  | shr => exact folds_shr_iff
  | ushr => exact ⟨fun _ => trivial, fun _ => folds_ushr⟩

end

end Jayess.Lowering
