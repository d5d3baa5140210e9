import Jayess.Lowering.BigIntForms
import Jayess.Lowering.Identities

/-!
# Expressions of big integers

The evaluator computes with decimal strings what the expression means over the integers, and the strings it
returns and stores are those of the exact integers.
-/

namespace Jayess.Lowering

open DigitString

/-- Expressions of literals of decimal digits and of variables. -/
inductive BigIntExpression where
  | literal (pos : SourcePos) (text : String) (digits : Digits text.toList)
  | identifier (pos : SourcePos) (name : String)
  | negate (pos : SourcePos) (right : BigIntExpression)
  | bitNot (pos : SourcePos) (right : BigIntExpression)
  | update (pos : SourcePos) (operator : UpdateOperator) (target : SourcePos) (name : String) (isPrefix : Bool)
  | binary (pos : SourcePos) (operator : BinaryOperator) (left right : BigIntExpression)

namespace BigIntExpression

def toExpression : BigIntExpression → Expression
  | literal pos text _ => .bigIntLiteral pos text
  | identifier pos name => .identifier pos name
  | negate pos right => .unary pos .negate right.toExpression
  | bitNot pos right => .unary pos .bitNot right.toExpression
  | update pos operator target name isPrefix => .update pos operator (.identifier target name) isPrefix
  | binary pos operator left right => .binary pos operator left.toExpression right.toExpression

def height : BigIntExpression → ℕ
  | literal .. | identifier .. | update .. => 1
  | negate _ right | bitNot _ right => right.height + 1
  | binary _ _ left right => max left.height right.height + 1

end BigIntExpression

abbrev BigInts := String → Option ℤ

abbrev Exact (α : Type) := BigInts → Option α × BigInts

namespace Exact

variable {α β : Type}

def ofOption (result : Option α) : Exact α := fun known => (result, known)

def andThen (first : Exact α) (next : α → Exact β) : Exact β := fun known =>
  match first known with
  | (some value, later) => next value later
  | (none, later) => (none, later)

end Exact

def exactUpdate : UpdateOperator → ℤ → ℤ
  | .increment, value => value + 1
  | .decrement, value => value - 1

/-- The operators on integers, within the limits that the evaluator sets itself. -/
def exactBinary (operator : BinaryOperator) (left right : ℤ) : Option ℤ :=
  match operator with
  | .add => some (left + right)
  | .sub => some (left - right)
  | .mul => some (left * right)
  | .div => if right = 0 then none else some (left.tdiv right)
  | .mod => if right = 0 then none else some (left.tmod right)
  | .pow => if 0 ≤ right ∧ right ≤ 64 then some (left ^ right.toNat) else none
  | .bitAnd => some (left.land right)
  | .bitOr => some (left.lor right)
  | .bitXor => some (left.xor right)
  | .shl => if 0 ≤ right ∧ right ≤ 1024 then some (left * 2 ^ right.toNat) else none
  | .shr => if 0 ≤ right ∧ right ≤ 1024 then some (left / 2 ^ right.toNat) else none
  | .ushr => none

def exactUpdateOf (operator : UpdateOperator) (name : String) (isPrefix : Bool) : Exact ℤ := fun known =>
  match if name = "" then none else known name with
  | some current =>
      (some (if isPrefix then exactUpdate operator current else current),
        Function.update known name (some (exactUpdate operator current)))
  | none => (none, known)

def BigIntExpression.exact : BigIntExpression → Exact ℤ
  | literal _ text _ => .ofOption (some (value text.toList : ℤ))
  | identifier _ name => fun known => (known name, known)
  | negate _ right => right.exact.andThen fun value => .ofOption (some (-value))
  | bitNot _ right => right.exact.andThen fun value => .ofOption (some (-value - 1))
  | update _ operator _ name isPrefix => exactUpdateOf operator name isPrefix
  | binary _ operator left right =>
      left.exact.andThen fun leftValue =>
        right.exact.andThen fun rightValue => .ofOption (exactBinary operator leftValue rightValue)

def exactOrder (operator : ComparisonOperator) (left right : ℤ) : Bool :=
  match operator with
  | .lt => left < right
  | .lte => left ≤ right
  | .gt => right < left
  | .gte => right ≤ left
  | _ => false

section

variable (operator : ComparisonOperator) (left right : BigIntExpression)

def exactComparison (compare : ℤ → ℤ → Bool) : Exact Bool :=
  left.exact.andThen fun leftValue =>
    right.exact.andThen fun rightValue => .ofOption (some (compare leftValue rightValue))

def exactEquality : Exact Bool :=
  if isEqualityOperator operator then
    exactComparison left right fun leftValue rightValue => compareEquality operator (leftValue = rightValue)
  else .ofOption none

def exactRelational : Exact Bool :=
  if isEqualityOperator operator then .ofOption none else exactComparison left right (exactOrder operator)

end

def Represents (known : BigInts) (scope : ReturnScope) : Prop :=
  ∀ name, scope.bigints name = (known name).map decimalString

/-- From every state the run has the result in its given form, and every scope it reaches has the strings of
integers, the last one those that are meant. -/
def Computes {α β : Type} (m : Eval α) (exact : Exact β) (form : β → α) : Prop :=
  ∀ state known, Represents known state.scope →
    (m.outcome state).1 = (exact known).1.map form ∧
      Represents (exact known).2 (m.outcome state).2.scope ∧
      ∀ scope ∈ (m.outcome state).2.reached, scope ∈ state.reached ∨ ∃ later, Represents later scope

namespace Computes

variable {α β γ δ : Type} {m : Eval α} {exact : Exact β} {form : β → α}

theorem ofOption {option : Option α} {result : Option β} (hresult : option = result.map form) :
    Computes (Eval.ofOption option) (.ofOption result) form := by
  intro state known represents
  subst hresult
  cases result with
  | none => exact ⟨rfl, represents, fun _ hmem => .inl hmem⟩
  | some value => exact ⟨rfl, represents, fun _ hmem => .inl hmem⟩

theorem pure {value : β} {result : α} (hresult : result = form value) :
    Computes (Pure.pure result : Eval α) (.ofOption (some value)) form :=
  show Computes (Eval.ofOption (some result)) _ form from ofOption (hresult ▸ rfl)

theorem failure : Computes (Alternative.failure : Eval α) (.ofOption none) form :=
  show Computes (Eval.ofOption none) _ form from ofOption rfl

theorem andThen {f : α → Eval γ} {next : β → Exact δ} {form' : δ → γ} (first : Computes m exact form)
    (second : ∀ value, Computes (f (form value)) (next value) form') :
    Computes (m >>= f) (exact.andThen next) form' := by
  intro state known represents
  obtain ⟨hresult, hafter, hreached⟩ := first state known represents
  rw [Eval.outcome_bind, Exact.andThen]
  rcases hexact : exact known with ⟨_ | value, later⟩
  · rw [hexact] at hresult hafter
    rcases hm : m.outcome state with ⟨result, middle⟩
    rw [hm] at hresult hafter hreached
    obtain rfl : result = none := hresult
    exact ⟨rfl, hafter, hreached⟩
  · rw [hexact] at hresult hafter
    rcases hm : m.outcome state with ⟨result, middle⟩
    rw [hm] at hresult hafter hreached
    obtain rfl : result = some (form value) := hresult
    obtain ⟨hresult', hafter', hreached'⟩ := second value middle later hafter
    refine ⟨hresult', hafter', ?_⟩
    intro scope hmem
    obtain hearlier | hrepresented := hreached' scope hmem
    · exact hreached scope hearlier
    · exact .inr hrepresented

end Computes

theorem Represents.store {known : BigInts} {scope : ReturnScope} (represents : Represents known scope) (name : String)
    (integer : ℤ) :
    Represents (Function.update known name (some integer)) (scope.store name (.bigInt (decimalString integer))) := by
  intro other
  by_cases heq : other = name
  · subst heq
    simp [ReturnScope.store]
  · simp [ReturnScope.store, heq, represents other]

theorem computes_identifier (name : String) :
    Computes (do let scope ← Eval.scope; Eval.ofOption (scope.bigints name)) (fun known => (known name, known))
      decimalString := by
  intro state known represents
  have houtcome : (do let scope ← Eval.scope; Eval.ofOption (scope.bigints name) : Eval GoString).outcome state =
      (state.scope.bigints name, state) := by
    rw [Eval.outcome_bind]
    change (Eval.ofOption (state.scope.bigints name)).outcome state = _
    cases state.scope.bigints name <;> rfl
  rw [houtcome]
  exact ⟨represents name, represents, fun _ hmem => .inl hmem⟩

theorem updatedBigIntValue_decimalString (operator : UpdateOperator) (integer : ℤ) :
    updatedBigIntValue operator (decimalString integer) = some (decimalString (exactUpdate operator integer)) := by
  rw [updatedBigIntValue, parseBigIntValue_decimalString]
  cases operator <;> rfl

theorem computes_update (operator : UpdateOperator) (pos : SourcePos) (name : String) (isPrefix : Bool) :
    Computes (evaluateBigIntUpdateExpression operator isPrefix (.identifier pos name))
      (exactUpdateOf operator name isPrefix) decimalString := by
  intro state known represents
  have hname := represents name
  rcases hexact : (if name = "" then none else known name) with _ | current
  · have houtcome : (evaluateBigIntUpdateExpression operator isPrefix (.identifier pos name)).outcome state =
        (none, state) := by
      unfold evaluateBigIntUpdateExpression
      rw [Eval.outcome_bind]
      change (if name = "" then _ else _ : Eval GoString).outcome state = _
      split_ifs at hexact with hempty
      · rw [if_pos hempty]
        rfl
      · rw [hexact] at hname
        rw [if_neg hempty, hname]
        rfl
    rw [houtcome, exactUpdateOf, hexact]
    exact ⟨rfl, represents, fun _ hmem => .inl hmem⟩
  · obtain ⟨hempty, hknown⟩ : name ≠ "" ∧ known name = some current := by
      split_ifs at hexact with hempty
      exact ⟨hempty, hexact⟩
    rw [hknown] at hname
    have hafter := represents.store name (exactUpdate operator current)
    have houtcome : (evaluateBigIntUpdateExpression operator isPrefix (.identifier pos name)).outcome state =
        (some (decimalString (if isPrefix then exactUpdate operator current else current)),
          state.mutated (state.scope.store name (.bigInt (decimalString (exactUpdate operator current))))) := by
      unfold evaluateBigIntUpdateExpression
      rw [Eval.outcome_bind]
      change (if name = "" then _ else _ : Eval GoString).outcome state = _
      rw [if_neg hempty, hname, Option.map_some]
      change (do
        let next ← Eval.ofOption (updatedBigIntValue operator (decimalString current))
        overwrite name (.bigInt next)
        return if isPrefix then next else decimalString current : Eval GoString).outcome state = _
      rw [updatedBigIntValue_decimalString, apply_ite decimalString]
      rfl
    rw [houtcome, exactUpdateOf, hexact]
    refine ⟨rfl, hafter, ?_⟩
    intro scope hmem
    obtain rfl | hmem := List.mem_cons.mp hmem
    · exact .inr ⟨_, hafter⟩
    · exact .inl hmem

theorem bigIntShiftCount_eq (count : ℤ) :
    bigIntShiftCount count = if 0 ≤ count ∧ count ≤ 1024 then some count.toNat else none := by
  unfold bigIntShiftCount
  split_ifs with hout hin
  · omega
  · rfl
  · rfl
  · omega

theorem evaluateBigIntBinaryValue_decimalString (operator : BinaryOperator) (left right : ℤ) :
    evaluateBigIntBinaryValue operator (decimalString left) (decimalString right) =
      (exactBinary operator left right).map decimalString := by
  unfold evaluateBigIntBinaryValue
  rw [parseBigIntValue_decimalString, parseBigIntValue_decimalString]
  cases operator with
  | add | sub | mul | bitAnd | bitOr | bitXor | ushr => rfl
  | div | mod =>
      simp only [exactBinary, Option.bind_eq_bind, Option.bind_some]
      split_ifs <;> rfl
  | pow =>
      simp only [exactBinary, Option.bind_eq_bind, Option.bind_some]
      split_ifs <;> first | rfl | omega
  | shl =>
      simp only [exactBinary, Option.bind_eq_bind, Option.bind_some, bigIntShiftCount_eq]
      split_ifs <;> rfl
  | shr =>
      simp only [exactBinary, Option.bind_eq_bind, Option.bind_some, bigIntShiftCount_eq]
      split_ifs
      · exact congrArg (fun shifted => some (decimalString shifted)) (Int.shiftRight_eq_div_pow left right.toNat)
      · rfl

theorem bitNotBigIntValue_decimalString (integer : ℤ) :
    bitNotBigIntValue (decimalString integer) = some (decimalString (-integer - 1)) := by
  have hnot : integer.lnot = -integer - 1 := by
    cases integer with
    | ofNat magnitude =>
        rw [Int.lnot, Int.ofNat_eq_natCast]
        omega
    | negSucc below =>
        rw [Int.lnot]
        omega
  rw [bitNotBigIntValue, parseBigIntValue_decimalString, ← hnot]
  rfl

theorem computes_bigInt (host : Host) (expression : BigIntExpression) (depth : ℕ) (hdepth : expression.height ≤ depth) :
    Computes ((evaluators host depth).bigInt expression.toExpression) expression.exact decimalString := by
  induction expression generalizing depth with
  | literal pos text digits =>
      obtain ⟨below, rfl⟩ := Nat.exists_eq_add_of_le' hdepth
      exact .ofOption (congrArg some (normalizeBigIntValue_goString digits))
  | identifier pos name =>
      obtain ⟨below, rfl⟩ := Nat.exists_eq_add_of_le' hdepth
      exact computes_identifier name
  | negate pos right ih =>
      obtain ⟨below, rfl⟩ := Nat.exists_eq_add_of_le' (Nat.le_trans (Nat.le_add_left 1 _) hdepth)
      exact (ih below (Nat.le_of_succ_le_succ hdepth)).andThen fun value => .pure negateBigIntValue_decimalString
  | bitNot pos right ih =>
      obtain ⟨below, rfl⟩ := Nat.exists_eq_add_of_le' (Nat.le_trans (Nat.le_add_left 1 _) hdepth)
      exact (ih below (Nat.le_of_succ_le_succ hdepth)).andThen fun value =>
        .ofOption (bitNotBigIntValue_decimalString value)
  | update pos operator target name isPrefix =>
      obtain ⟨below, rfl⟩ := Nat.exists_eq_add_of_le' hdepth
      exact computes_update operator target name isPrefix
  | binary pos operator left right ihleft ihright =>
      obtain ⟨below, rfl⟩ := Nat.exists_eq_add_of_le' (Nat.le_trans (Nat.le_add_left 1 _) hdepth)
      have hheights := Nat.max_le.mp (Nat.le_of_succ_le_succ hdepth)
      exact (ihleft below hheights.1).andThen fun leftValue =>
        (ihright below hheights.2).andThen fun rightValue =>
          .ofOption (evaluateBigIntBinaryValue_decimalString operator leftValue rightValue)

section

variable {left right : BigIntExpression} {depth : ℕ}

theorem computes_comparison (host : Host) (hleft : left.height ≤ depth) (hright : right.height ≤ depth)
    {decided : GoString → GoString → Bool} {compare : ℤ → ℤ → Bool}
    (hdecided : ∀ leftValue rightValue, decided (decimalString leftValue) (decimalString rightValue) =
      compare leftValue rightValue) :
    Computes (do
      let leftValue ← (evaluators host depth).bigInt left.toExpression
      let rightValue ← (evaluators host depth).bigInt right.toExpression
      return decided leftValue rightValue) (exactComparison left right compare) id :=
  (computes_bigInt host left depth hleft).andThen fun leftValue =>
    (computes_bigInt host right depth hright).andThen fun rightValue => .pure (hdecided leftValue rightValue)

theorem computes_equality (host : Host) (operator : ComparisonOperator) (hleft : left.height ≤ depth)
    (hright : right.height ≤ depth) :
    Computes (evaluateBigIntEquality (evaluators host depth) operator left.toExpression right.toExpression)
      (exactEquality operator left right) id := by
  unfold evaluateBigIntEquality exactEquality
  split_ifs
  · apply computes_comparison host hleft hright
    intro leftValue rightValue
    rw [decide_eq_decide.mpr decimalString_inj]
  · exact .failure

theorem compareBigIntRelationalOrder_sign (operator : ComparisonOperator) (left right : ℤ) :
    compareBigIntRelationalOrder operator (left - right).sign = exactOrder operator left right := by
  have hlt : (left - right).sign < 0 ↔ left < right := by
    rw [Int.sign_neg_iff]
    omega
  have hgt : 0 < (left - right).sign ↔ right < left := by
    rw [Int.sign_pos_iff]
    omega
  cases operator <;> simp only [compareBigIntRelationalOrder, exactOrder, decide_eq_decide] <;> omega

theorem computes_relational (host : Host) (operator : ComparisonOperator) (hleft : left.height ≤ depth)
    (hright : right.height ≤ depth) :
    Computes (evaluateBigIntRelationalComparison (evaluators host depth) operator left.toExpression right.toExpression)
      (exactRelational operator left right) id := by
  unfold evaluateBigIntRelationalComparison exactRelational
  split_ifs
  · exact .failure
  · apply computes_comparison host hleft hright
    intro leftValue rightValue
    rw [compareBigIntLiteralValues_decimalString, compareBigIntRelationalOrder_sign]

/-- The strings of an expression's values are those of the exact integers and canonical, so that comparing strings
compares integers. -/
theorem bigInts_exact (host : Host) (operator : ComparisonOperator) (hleft : left.height ≤ depth)
    (hright : right.height ≤ depth) :
    Computes ((evaluators host depth).bigInt left.toExpression) left.exact decimalString ∧
    (∀ integer, CanonicalBigInt (decimalString integer)) ∧
    Computes (evaluateBigIntEquality (evaluators host depth) operator left.toExpression right.toExpression)
      (exactEquality operator left right) id ∧
    Computes (evaluateBigIntRelationalComparison (evaluators host depth) operator left.toExpression right.toExpression)
      (exactRelational operator left right) id ∧
    ∀ first second : ℤ, (decimalString first = decimalString second ↔ first = second) ∧
      compareBigIntLiteralValues (decimalString first) (decimalString second) = (first - second).sign :=
  ⟨computes_bigInt host left depth hleft, canonicalBigInt_decimalString, computes_equality host operator hleft hright,
    computes_relational host operator hleft hright,
    fun _ _ => ⟨decimalString_inj, compareBigIntLiteralValues_decimalString⟩⟩

end

/-- `-(007n)` and `~x`. -/
def sampleNegation : BigIntExpression := .negate ⟨1, 1⟩ (.literal ⟨1, 2⟩ "007" (by simp [Digits]))

def sampleComplement : BigIntExpression := .bitNot ⟨1, 8⟩ (.identifier ⟨1, 9⟩ "x")

theorem bigInts_exact_sample :
    Computes ((evaluators plainHost 2).bigInt sampleNegation.toExpression) sampleNegation.exact decimalString ∧
    (∀ integer, CanonicalBigInt (decimalString integer)) ∧
    Computes (evaluateBigIntEquality (evaluators plainHost 2) .lt sampleNegation.toExpression
      sampleComplement.toExpression) (exactEquality .lt sampleNegation sampleComplement) id ∧
    Computes (evaluateBigIntRelationalComparison (evaluators plainHost 2) .lt sampleNegation.toExpression
      sampleComplement.toExpression) (exactRelational .lt sampleNegation sampleComplement) id ∧
    ∀ first second : ℤ, (decimalString first = decimalString second ↔ first = second) ∧
      compareBigIntLiteralValues (decimalString first) (decimalString second) = (first - second).sign :=
  bigInts_exact plainHost .lt (by decide) (by decide)

end Jayess.Lowering
