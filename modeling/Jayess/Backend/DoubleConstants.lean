import Mathlib.Data.List.TakeWhile
import Jayess.Backend.ExpressionSpec

/-!
# Double constants
-/

namespace Jayess.Backend

/-- The shortest decimal form of a double: the first digit stands before the point, and the exponent is that
of ten. -/
inductive DecimalForm where
  | nan
  | infinite (negative : Bool)
  | finite (negative : Bool) (first : Fin 10) (rest : List (Fin 10)) (exponent : Int)
deriving DecidableEq

namespace DecimalForm

def digitChar (digit : Fin 10) : Char := Char.ofNat (48 + digit)

def signText (negative : Bool) : List Char := if negative then ['-'] else []

def exponentText (exponent : Int) : List Char :=
  let digits := Nat.toDigits 10 exponent.natAbs
  (if exponent < 0 then '-' else '+') :: (if exponent.natAbs < 10 then '0' :: digits else digits)

def scientificText (first : Fin 10) (rest : List (Fin 10)) (exponent : Int) : List Char :=
  digitChar first :: ((if rest = [] then [] else '.' :: rest.map digitChar) ++ 'e' :: exponentText exponent)

def plainText (digits : List (Fin 10)) (exponent : Int) : List Char :=
  let chars := digits.map digitChar
  if exponent < 0 then '0' :: '.' :: (List.replicate (-exponent - 1).toNat '0' ++ chars)
  else
    let integral := exponent.toNat + 1
    if digits.length ≤ integral then chars ++ List.replicate (integral - digits.length) '0'
    else chars.take integral ++ '.' :: chars.drop integral

/-- `strconv.FormatFloat` with the format `g` and the precision -1. -/
def formatFloat : DecimalForm → String
  | nan => "NaN"
  | infinite negative => if negative then "-Inf" else "+Inf"
  | finite negative first rest exponent =>
      String.ofList (signText negative ++
        if exponent < -4 ∨ 6 ≤ exponent then scientificText first rest exponent
        else plainText (first :: rest) exponent)

def Printable : DecimalForm → Prop
  | finite _ _ rest exponent => -4 ≤ exponent ∧ exponent < 6 ∨ rest ≠ []
  | _ => False

instance : DecidablePred Printable := fun form => by
  cases form <;> unfold Printable <;> infer_instance

end DecimalForm

/-- `formatLLVMDouble`, of the text that `FormatFloat` returns. -/
def formatLLVMDouble (formatted : String) : String :=
  if formatted.toList.any fun ch => ch = '.' || ch = 'e' || ch = 'E' then formatted else formatted ++ ".0"

/-- What the emitter takes from Go's arithmetic: `ParseFloat`, the operators it folds, and the shortest decimal
form. -/
structure DoubleArithmetic (Double : Type) where
  parse : String → Double
  negate : Double → Double
  fold : BinaryOperator → Double → Double → Double
  compare : ComparisonOperator → Double → Double → Bool
  shortest : Double → DecimalForm

namespace DoubleArithmetic

variable {Double : Type} (arithmetic : DoubleArithmetic Double)

def value : NumberValue → Double
  | .parsed text => arithmetic.parse text
  | .negated number => arithmetic.negate (value number)
  | .folded operator left right => arithmetic.fold operator (value left) (value right)

def format : NumberFormat where
  formatLLVMDouble number := formatLLVMDouble (arithmetic.shortest (arithmetic.value number)).formatFloat
  formatFloat number := (arithmetic.shortest (arithmetic.value number)).formatFloat
  compare operator left right := arithmetic.compare operator (arithmetic.value left) (arithmetic.value right)

end DoubleArithmetic

def dropSign : List Char → List Char
  | '+' :: rest | '-' :: rest => rest
  | text => text

def isExponent : List Char → Bool
  | [] => true
  | ch :: rest => (ch = 'e' || ch = 'E') && dropSign rest ≠ [] && (dropSign rest).all (·.isDigit)

def isDecimalConstant (text : List Char) : Bool :=
  let rest := text.dropWhile (·.isDigit)
  text.takeWhile (·.isDigit) ≠ [] && rest.head? = some '.' && isExponent (rest.tail.dropWhile (·.isDigit))

def isHexConstant (text : List Char) : Bool :=
  text.take 2 = ['0', 'x'] && text.drop 2 ≠ [] &&
    (text.drop 2).all fun ch => ch.isDigit || 'a' ≤ ch && ch ≤ 'f' || 'A' ≤ ch && ch ≤ 'F'

/-- A floating-point constant. -/
def isFloatConstant (text : String) : Bool :=
  isDecimalConstant (dropSign text.toList) || isHexConstant text.toList

section Constants

variable {integral fraction rest : List Char}

theorem isDecimalConstant_point (hne : integral ≠ []) (hintegral : ∀ ch ∈ integral, ch.isDigit = true)
    (hfraction : ∀ ch ∈ fraction, ch.isDigit = true) (hrest : rest.head?.all (!·.isDigit)) :
    isDecimalConstant (integral ++ '.' :: (fraction ++ rest)) = isExponent rest := by
  have htake : (integral ++ '.' :: (fraction ++ rest)).takeWhile (·.isDigit) = integral := by
    rw [List.takeWhile_append_of_pos hintegral, List.takeWhile_cons_of_neg (by decide), List.append_nil]
  have hdrop : (integral ++ '.' :: (fraction ++ rest)).dropWhile (·.isDigit) = '.' :: (fraction ++ rest) := by
    rw [List.dropWhile_append_of_pos hintegral, List.dropWhile_cons_of_neg (by decide)]
  have hend : (fraction ++ rest).dropWhile (·.isDigit) = rest := by
    rw [List.dropWhile_append_of_pos hfraction]
    cases rest with
    | nil => rfl
    | cons ch rest => exact List.dropWhile_cons_of_neg (by simpa using hrest)
  rw [isDecimalConstant, htake, hdrop, List.tail_cons, hend]
  simp [hne]

theorem isDecimalConstant_no_point {ch : Char} (hintegral : ∀ ch ∈ integral, ch.isDigit = true)
    (hdigit : ch.isDigit = false) (hpoint : ch ≠ '.') :
    isDecimalConstant (integral ++ ch :: rest) = false := by
  have hdrop : (integral ++ ch :: rest).dropWhile (·.isDigit) = ch :: rest := by
    rw [List.dropWhile_append_of_pos hintegral, List.dropWhile_cons_of_neg (by simp [hdigit])]
  rw [isDecimalConstant, hdrop]
  simp [hpoint]

end Constants

namespace DecimalForm

variable {negative : Bool} {first : Fin 10} {rest : List (Fin 10)} {exponent : Int}

theorem isDigit_digitChar (digit : Fin 10) : (digitChar digit).isDigit = true := by
  revert digit
  decide

theorem isDigit_of_mem_map {ch : Char} (hmem : ch ∈ rest.map digitChar) : ch.isDigit = true := by
  obtain ⟨digit, -, rfl⟩ := List.mem_map.mp hmem
  exact isDigit_digitChar digit

theorem isExponent_exponentText : isExponent ('e' :: exponentText exponent) = true := by
  have hdigits : ∀ ch ∈ Nat.toDigits 10 exponent.natAbs, ch.isDigit = true :=
    fun ch hmem => Nat.isDigit_of_mem_toDigits (by decide) (by decide) hmem
  have hne : Nat.toDigits 10 exponent.natAbs ≠ [] := Nat.toDigits_ne_nil
  have hdrop : dropSign (exponentText exponent) =
      if exponent.natAbs < 10 then '0' :: Nat.toDigits 10 exponent.natAbs
      else Nat.toDigits 10 exponent.natAbs := by
    unfold exponentText
    by_cases hneg : exponent < 0
    · rw [if_pos hneg]
      rfl
    · rw [if_neg hneg]
      rfl
  rw [isExponent, hdrop]
  split <;> simp [hne, List.all_eq_true] <;> exact hdigits

theorem dropSign_signText {ch : Char} {text : List Char} (hdigit : ch.isDigit = true) :
    dropSign (signText negative ++ ch :: text) = ch :: text := by
  cases negative with
  | true => rfl
  | false =>
      have hplus : ch ≠ '+' := by
        rintro rfl
        exact absurd hdigit (by decide)
      have hminus : ch ≠ '-' := by
        rintro rfl
        exact absurd hdigit (by decide)
      change dropSign (ch :: text) = ch :: text
      unfold dropSign
      split
      · rename_i heq
        exact absurd (List.cons.inj heq).1 hplus
      · rename_i heq
        exact absurd (List.cons.inj heq).1 hminus
      · rfl

theorem plainText_point (hpoint : exponent < 0 ∨ (exponent.toNat + 1 < (first :: rest).length)) :
    '.' ∈ plainText (first :: rest) exponent ∧
      isDecimalConstant (plainText (first :: rest) exponent) = true ∧
        ∃ ch text, plainText (first :: rest) exponent = ch :: text ∧ ch.isDigit = true := by
  by_cases hneg : exponent < 0
  · have htext : plainText (first :: rest) exponent =
        ['0'] ++ '.' :: ((List.replicate (-exponent - 1).toNat '0' ++ (first :: rest).map digitChar) ++ []) := by
      rw [plainText, if_pos hneg, List.append_nil]
      rfl
    refine ⟨by rw [htext]; simp, ?_, '0', _, by rw [htext]; rfl, by decide⟩
    rw [htext, isDecimalConstant_point (List.cons_ne_nil _ _)
      (List.forall_mem_singleton.mpr (by decide)) _ (by simp)]
    · rfl
    · intro ch hmem
      rcases List.mem_append.mp hmem with hmem | hmem
      · rw [List.eq_of_mem_replicate hmem]
        decide
      · exact isDigit_of_mem_map hmem
  · have hlong : exponent.toNat + 1 < (first :: rest).length := hpoint.resolve_left hneg
    have htext : plainText (first :: rest) exponent =
        ((first :: rest).map digitChar).take (exponent.toNat + 1) ++
          '.' :: (((first :: rest).map digitChar).drop (exponent.toNat + 1) ++ []) := by
      rw [plainText, if_neg hneg, if_neg (by omega), List.append_nil]
    refine ⟨by rw [htext]; simp, ?_, digitChar first, _, by rw [htext]; rfl, isDigit_digitChar first⟩
    rw [htext, isDecimalConstant_point (by simp) _ _ (by simp)]
    · rfl
    · exact fun ch hmem => isDigit_of_mem_map (List.mem_of_mem_take hmem)
    · exact fun ch hmem => isDigit_of_mem_map (List.mem_of_mem_drop hmem)

theorem plainText_digits (hneg : ¬exponent < 0) (hshort : ¬exponent.toNat + 1 < (first :: rest).length) :
    ∀ ch ∈ plainText (first :: rest) exponent, ch.isDigit = true := by
  intro ch hmem
  rw [plainText, if_neg hneg, if_pos (by omega)] at hmem
  rcases List.mem_append.mp hmem with hmem | hmem
  · exact isDigit_of_mem_map hmem
  · rw [List.eq_of_mem_replicate hmem]
    decide

theorem scientificText_valid_iff :
    isFloatConstant (String.ofList (signText negative ++ scientificText first rest exponent)) = true ↔
      rest ≠ [] := by
  rw [isFloatConstant, String.toList_ofList, scientificText, dropSign_signText (isDigit_digitChar first)]
  have hfirst : ∀ ch ∈ [digitChar first], ch.isDigit = true := by simpa using isDigit_digitChar first
  by_cases hrest : rest = []
  · rw [if_pos hrest, List.nil_append]
    have hdecimal : isDecimalConstant ([digitChar first] ++ 'e' :: exponentText exponent) = false :=
      isDecimalConstant_no_point hfirst (by decide) (by decide)
    have hhex : isHexConstant (signText negative ++ digitChar first :: 'e' :: exponentText exponent) = false := by
      rw [isHexConstant]
      cases negative <;> simp [signText]
    rw [List.singleton_append] at hdecimal
    rw [hdecimal, hhex]
    simp [hrest]
  · rw [if_neg hrest, List.cons_append]
    have hdecimal : isDecimalConstant
        ([digitChar first] ++ '.' :: (rest.map digitChar ++ 'e' :: exponentText exponent)) =
          isExponent ('e' :: exponentText exponent) :=
      isDecimalConstant_point (List.cons_ne_nil _ _) hfirst (fun ch hmem => isDigit_of_mem_map hmem) rfl
    rw [isExponent_exponentText, List.singleton_append] at hdecimal
    rw [hdecimal]
    simp [hrest]

theorem formatLLVMDouble_valid_iff (form : DecimalForm) :
    isFloatConstant (formatLLVMDouble form.formatFloat) = true ↔ form.Printable := by
  cases form with
  | nan => decide
  | infinite negative => cases negative <;> decide
  | finite negative first rest exponent =>
      by_cases hscientific : exponent < -4 ∨ 6 ≤ exponent
      · have hany : (String.ofList (signText negative ++ scientificText first rest exponent)).toList.any
            (fun ch => ch = '.' || ch = 'e' || ch = 'E') = true := by
          rw [String.toList_ofList, List.any_eq_true]
          exact ⟨'e', by simp [scientificText], by decide⟩
        rw [formatFloat, if_pos hscientific, formatLLVMDouble, if_pos hany, scientificText_valid_iff, Printable]
        constructor
        · exact fun hrest => .inr hrest
        · rintro (hrange | hrest)
          · omega
          · exact hrest
      · have hprintable : (finite negative first rest exponent).Printable := .inl (by omega)
        rw [formatFloat, if_neg hscientific]
        refine iff_of_true ?_ hprintable
        by_cases hpoint : exponent < 0 ∨ exponent.toNat + 1 < (first :: rest).length
        · obtain ⟨hmem, hdecimal, ch, text, htext, hdigit⟩ := plainText_point hpoint
          have hany : (String.ofList (signText negative ++ plainText (first :: rest) exponent)).toList.any
              (fun ch => ch = '.' || ch = 'e' || ch = 'E') = true := by
            rw [String.toList_ofList, List.any_eq_true]
            exact ⟨'.', List.mem_append_right _ hmem, by decide⟩
          rw [formatLLVMDouble, if_pos hany, isFloatConstant, String.toList_ofList, htext,
            dropSign_signText hdigit, ← htext, hdecimal]
          rfl
        · have hdigits : ∀ ch ∈ plainText (first :: rest) exponent, ch.isDigit = true :=
            plainText_digits (fun hneg => hpoint (.inl hneg)) fun hlong => hpoint (.inr hlong)
          obtain ⟨ch, text, htext⟩ : ∃ ch text, plainText (first :: rest) exponent = ch :: text := by
            rw [plainText, if_neg (fun hneg => hpoint (.inl hneg)), if_pos (by omega)]
            exact ⟨_, _, rfl⟩
          rw [htext] at hdigits ⊢
          have hany : ¬(String.ofList (signText negative ++ ch :: text)).toList.any
              (fun ch => ch = '.' || ch = 'e' || ch = 'E') = true := by
            rw [String.toList_ofList, List.any_eq_true]
            rintro ⟨ch', hmem, hspecial⟩
            rcases List.mem_append.mp hmem with hmem | hmem
            · have hall : ∀ negative, ∀ ch ∈ signText negative,
                  ¬(ch = '.' || ch = 'e' || ch = 'E') = true := by
                intro negative ch hmem
                cases negative with
                | false => exact absurd hmem List.not_mem_nil
                | true =>
                    rw [List.mem_singleton.mp hmem]
                    decide
              exact hall negative ch' hmem hspecial
            · have hdigit := hdigits ch' hmem
              rw [Bool.or_eq_true, Bool.or_eq_true, decide_eq_true_eq, decide_eq_true_eq,
                decide_eq_true_eq] at hspecial
              rcases hspecial with (rfl | rfl) | rfl <;> exact absurd hdigit (by decide)
          rw [formatLLVMDouble, if_neg hany, isFloatConstant, String.toList_append, String.toList_ofList,
            List.append_assoc, List.cons_append, dropSign_signText (hdigits ch List.mem_cons_self)]
          have hdecimal : isDecimalConstant (ch :: text ++ '.' :: (['0'] ++ [])) = isExponent [] :=
            isDecimalConstant_point (List.cons_ne_nil _ _) hdigits
              (List.forall_mem_singleton.mpr (by decide)) (by simp)
          exact (Bool.or_eq_true _ _).mpr (.inl hdecimal)

end DecimalForm

/-- The number that a literal, a literal with a sign, or an operator between two literals stands for. -/
def numericValue : Expression → Option NumberValue
  | .numberLiteral _ text => some (.parsed text)
  | .unary _ .negate (.numberLiteral _ text) => some (.negated (.parsed text))
  | .unary _ .positive (.numberLiteral _ text) => some (.parsed text)
  | .binary _ operator (.numberLiteral _ left) (.numberLiteral _ right) =>
      some (.folded operator (.parsed left) (.parsed right))
  | _ => none

section Emission

variable {expression : Expression} {number : NumberValue} {emitter emitted : ExpressionEmitter}
  {value : Operand}

variable {text : String} {pos : SourcePos}

theorem parseFloat_eq_some (hparse : parseFloat text = some number) :
    number = .parsed text := by
  unfold parseFloat at hparse
  dsimp only at hparse
  split at hparse
  · exact (Option.some.inj hparse).symm
  · exact absurd hparse (Option.some_ne_none _).symm

theorem numericLiteralValue_numberLiteral
    (hvalue : numericLiteralValue (.numberLiteral pos text) = .ok number) :
    number = .parsed text := by
  rw [numericLiteralValue] at hvalue
  split at hvalue
  · rename_i hparse
    rw [← Except.ok.inj hvalue]
    exact parseFloat_eq_some hparse
  · cases hvalue

theorem emitNumericUnaryExpression_literal {operator : UnaryOperator}
    (hrun : emitNumericUnaryExpression operator (.numberLiteral pos text) emitter = .ok (value, emitted))
    :
    emitRuntimeLiteral (.number (if operator = .negate then .negated (.parsed text) else .parsed text)) emitter =
      .ok (value, emitted) := by
  simp only [emitNumericUnaryExpression] at hrun
  cases hparse : parseFloat text with
  | none => rw [hparse] at hrun; cases hrun
  | some parsed =>
      rw [hparse] at hrun
      rwa [parseFloat_eq_some hparse] at hrun

theorem foldBinary_numbers {operator : BinaryOperator} {pos' : SourcePos} {left right : String}
    {literal : RuntimeLiteral}
    (hfold : foldBinary operator (.numberLiteral pos left) (.numberLiteral pos' right) = .ok literal)
    :
    literal = .number (.folded operator (.parsed left) (.parsed right)) := by
  have hnumbers : foldBinary operator (.numberLiteral pos left) (.numberLiteral pos' right) = (do
      let leftValue ← numericLiteralValue (.numberLiteral pos left)
      let rightValue ← numericLiteralValue (.numberLiteral pos' right)
      return .number (← evaluateNumericBinary operator leftValue rightValue)) := by
    cases operator <;> rfl
  rw [hnumbers] at hfold
  cases hleft : numericLiteralValue (.numberLiteral pos left) with
  | error error => rw [hleft] at hfold; cases hfold
  | ok leftValue =>
      cases hright : numericLiteralValue (.numberLiteral pos' right) with
      | error error => rw [hleft, hright] at hfold; cases hfold
      | ok rightValue =>
          rw [hleft, hright, numericLiteralValue_numberLiteral hleft,
            numericLiteralValue_numberLiteral hright] at hfold
          cases operator <;> first | exact (Except.ok.inj hfold).symm | cases hfold

theorem emitExpression_numeric (hnumeric : numericValue expression = some number)
    (hrun : emitExpression expression emitter = .ok (value, emitted)) :
    emitRuntimeLiteral (.number number) emitter = .ok (value, emitted) := by
  unfold numericValue at hnumeric
  split at hnumeric
  · rename_i pos text
    rw [← Option.some.inj hnumeric]
    simp only [emitExpression, withDiagnostic_eq_ok, emitASTRuntimeLiteral, runtimeLiteralFromAST] at hrun
    cases hparse : parseFloat text with
    | none => simp [hparse, ofExcept, bind_eq_ok] at hrun
    | some parsed =>
        rw [parseFloat_eq_some hparse] at hparse
        simpa [hparse, ofExcept, bind_eq_ok] using hrun
  · rename_i pos pos' text
    rw [← Option.some.inj hnumeric]
    simp only [emitExpression, withDiagnostic_eq_ok, emitNegateExpression] at hrun
    simpa using emitNumericUnaryExpression_literal hrun
  · rename_i pos pos' text
    rw [← Option.some.inj hnumeric]
    simp only [emitExpression, withDiagnostic_eq_ok] at hrun
    simpa using emitNumericUnaryExpression_literal hrun
  · rename_i pos operator pos' left pos'' right
    rw [← Option.some.inj hnumeric]
    simp only [emitExpression, withDiagnostic_eq_ok, emitBinaryExpression, bind_eq_ok] at hrun
    obtain ⟨literal, middle, hfold, hrun⟩ := hrun
    cases hliteral : foldBinary operator (.numberLiteral pos' left) (.numberLiteral pos'' right) with
    | error error => simp [hliteral, ofExcept] at hfold
    | ok folded =>
        rw [hliteral] at hfold
        obtain ⟨rfl, rfl⟩ := by simpa [ofExcept] using hfold
        rwa [foldBinary_numbers hliteral] at hrun
  · cases hnumeric

theorem emitExpression_double (hnumeric : numericValue expression = some number)
    (hrun : emitExpression expression emitter = .ok (value, emitted)) :
    emitted.body = emitter.body ++
      [.call emitter.valueIndex runtimeValueIRType "jayess_value_from_number" [⟨"double", .double number⟩],
        .legacyCall emitter.valueIndex runtimeValueIRType "jayess_value_from_number"
          [⟨"double", .double number⟩]] :=
  (emitRuntimeLiteral_run (emitExpression_numeric hnumeric hrun)).2.1

end Emission

/-- The double that an accepted numeric expression passes is a constant of LLVM just when Go prints it with a
point or without an exponent. -/
theorem emitExpression_double_valid_iff {Double : Type} (arithmetic : DoubleArithmetic Double)
    {expression : Expression} {number : NumberValue} {emitter emitted : ExpressionEmitter} {value : Operand}
    (hnumeric : numericValue expression = some number)
    (hrun : emitExpression expression emitter = .ok (value, emitted)) :
    ∃ operand comment, emitted.body = emitter.body ++
        [.call emitter.valueIndex runtimeValueIRType "jayess_value_from_number" [⟨"double", operand⟩], comment] ∧
      (isFloatConstant (operand.render arithmetic.format) = true ↔
        (arithmetic.shortest (arithmetic.value number)).Printable) :=
  ⟨_, _, emitExpression_double hnumeric hrun, DecimalForm.formatLLVMDouble_valid_iff _⟩

def decimalDigits (magnitude : Nat) : List (Fin 10) :=
  (Nat.toDigits 10 magnitude).map fun ch => Fin.ofNat 10 (ch.toNat - 48)

/-- The integers, whose arithmetic doubles share as long as the results are exact. -/
def integerArithmetic : DoubleArithmetic Int where
  parse text := decimalValue text.toList
  negate value := -value
  fold operator left right :=
    match operator with
    | .add => left + right
    | .sub => left - right
    | .mul => left * right
    | .div => left.tdiv right
    | .mod => left.tmod right
    | .pow => left ^ right.toNat
    | _ => 0
  compare operator left right :=
    match operator with
    | .eq | .strictEq => left = right
    | .ne | .strictNe => left ≠ right
    | .lt => left < right
    | .lte => left ≤ right
    | .gt => right < left
    | .gte => right ≤ left
    | .in => false
  shortest value :=
    let digits := decimalDigits value.natAbs
    .finite (value < 0) (digits.headD 0) (digits.tail.reverse.dropWhile (· = 0)).reverse (digits.length - 1)

theorem emitRuntimeLiteral_total (literal : RuntimeLiteral) (emitter : ExpressionEmitter) :
    ∃ value emitted, emitRuntimeLiteral literal emitter = .ok (value, emitted) := by
  cases literal <;> exact ⟨_, _, rfl⟩

theorem parseFloat_digits (text : String) (hne : text.toList ≠ [])
    (hdigits : ∀ ch ∈ text.toList, isDecimalDigit ch = true) (hsmall : decimalValue text.toList < 2 ^ 64) :
    parseFloat text = some (.parsed text) := by
  have hgap : ∀ low high, 64 ≤ low → low + 54 = high → 2 ^ 64 ≤ 2 ^ high - 2 ^ low := by
    rintro low high hle rfl
    calc 2 ^ 64 ≤ 2 ^ low := Nat.pow_le_pow_right (by decide) hle
      _ ≤ 2 ^ low * (2 ^ 54 - 1) := Nat.le_mul_of_pos_right _ (by decide)
      _ = 2 ^ (low + 54) - 2 ^ low := by rw [Nat.mul_sub, Nat.mul_one, ← Nat.pow_add]
  have htake : text.toList.takeWhile isDecimalDigit = text.toList := List.takeWhile_eq_self_iff.mpr hdigits
  have hdrop : text.toList.dropWhile isDecimalDigit = [] := List.dropWhile_eq_nil_iff.mpr hdigits
  rw [parseFloat, htake, hdrop]
  exact if_pos ⟨hne, .inl rfl, Nat.lt_of_lt_of_le hsmall (hgap 970 1024 (by decide) rfl)⟩

theorem emitExpression_numberLiteral {text : String} (pos : SourcePos) (emitter : ExpressionEmitter)
    (hparse : parseFloat text = some (.parsed text)) :
    ∃ value emitted, emitExpression (.numberLiteral pos text) emitter = .ok (value, emitted) := by
  obtain ⟨value, emitted, hrun⟩ := emitRuntimeLiteral_total (.number (.parsed text)) emitter
  refine ⟨value, emitted, ?_⟩
  simp only [emitExpression, withDiagnostic_eq_ok, emitASTRuntimeLiteral, runtimeLiteralFromAST]
  simpa [hparse, ofExcept, bind_eq_ok] using hrun

/-- An answer is a constant. -/
theorem answer_valid_iff :
    ∃ value emitted, emitExpression (.numberLiteral ⟨1, 1⟩ "42") newExpressionEmitter = .ok (value, emitted) ∧
      (integerArithmetic.shortest (integerArithmetic.value (.parsed "42"))).Printable ∧
      ∃ operand comment, emitted.body = newExpressionEmitter.body ++
          [.call newExpressionEmitter.valueIndex runtimeValueIRType "jayess_value_from_number"
            [⟨"double", operand⟩], comment] ∧
        (isFloatConstant (operand.render integerArithmetic.format) = true ↔
          (integerArithmetic.shortest (integerArithmetic.value (.parsed "42"))).Printable) := by
  obtain ⟨value, emitted, hrun⟩ :=
    emitExpression_numberLiteral ⟨1, 1⟩ newExpressionEmitter
      (parseFloat_digits "42" (by decide) (List.all_eq_true.mp (by decide)) (by decide))
  exact ⟨value, emitted, hrun, by decide, emitExpression_double_valid_iff integerArithmetic rfl hrun⟩

/-- A million is printed as a power of ten, without a point. -/
theorem million_not_constant :
    ¬∀ expression number value (emitted : ExpressionEmitter), numericValue expression = some number →
      emitExpression expression newExpressionEmitter = .ok (value, emitted) →
        ∀ operand comment, emitted.body = newExpressionEmitter.body ++
            [.call newExpressionEmitter.valueIndex runtimeValueIRType "jayess_value_from_number"
              [⟨"double", operand⟩], comment] →
          isFloatConstant (operand.render integerArithmetic.format) = true := by
  intro hholds
  obtain ⟨value, emitted, hrun⟩ :=
    emitExpression_numberLiteral ⟨1, 1⟩ newExpressionEmitter
      (parseFloat_digits "1000000" (by decide) (List.all_eq_true.mp (by decide)) (by decide))
  have hvalid := hholds (.numberLiteral ⟨1, 1⟩ "1000000") (.parsed "1000000") value emitted rfl hrun _ _
    (emitExpression_double rfl hrun)
  exact absurd hvalid (by decide)

end Jayess.Backend
