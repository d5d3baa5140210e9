import Mathlib.Data.Int.Bitwise
import Jayess.Lowering.ReturnScope

/-! # The values of the return evaluator -/

namespace Jayess.Lowering

/-- `strings.TrimSpace`, `strconv.ParseFloat(text, 64)` without its errors, the conversion of a
string to runes, `math.Pow` and the conversion of a double out of range; and the flags of an object
property that make it a method, getter or setter, which the tree does not carry. -/
structure Host where
  trimSpace : GoString → GoString
  parseFloat : GoString → Option Double
  runes : GoString → List Char
  power : ℚ → ℚ → Double
  outOfRange : Double → Int64
  isAccessor : ObjectProperty → Bool

/-! ## Big integers -/

def minusSign : UInt8 := 45

def plusSign : UInt8 := 43

def zeroDigit : UInt8 := 48

def decimalDigit (byte : UInt8) : Option ℕ :=
  if 48 ≤ byte ∧ byte ≤ 57 then some (byte.toNat - 48) else none

def decimalDigits : ℕ → GoString → Option ℕ
  | value, [] => some value
  | value, byte :: rest =>
      match decimalDigit byte with
      | some digit => decimalDigits (10 * value + digit) rest
      | none => none

def decimalMagnitude (text : GoString) : Option ℕ :=
  if text = [] then none else decimalDigits 0 text

/-- `big.Int.SetString(value, 10)`. -/
def parseBigIntValue : GoString → Option ℤ
  | [] => none
  | byte :: rest =>
      if byte = minusSign then (decimalMagnitude rest).map fun magnitude => -(magnitude : ℤ)
      else if byte = plusSign then (decimalMagnitude rest).map fun magnitude => (magnitude : ℤ)
      else (decimalMagnitude (byte :: rest)).map fun magnitude => (magnitude : ℤ)

/-- `big.Int.String`, and `strconv.Itoa`. -/
def decimalString (value : ℤ) : GoString := goString (toString value)

def atoi (text : GoString) : Option Int64 :=
  match parseBigIntValue text with
  | some value => if -2 ^ 63 ≤ value ∧ value < 2 ^ 63 then some (Int64.ofInt value) else none
  | none => none

def hasMinus (value : GoString) : Bool := value.head? = some minusSign

def trimMinus (value : GoString) : GoString := if hasMinus value then value.tail else value

def normalizeBigIntValue (value : GoString) : GoString :=
  let normalized := (trimMinus value).dropWhile (· = zeroDigit)
  if normalized = [] then [zeroDigit]
  else if hasMinus value then minusSign :: normalized else normalized

def isTruthyBigIntValue (value : GoString) : Bool := normalizeBigIntValue value ≠ [zeroDigit]

def evaluateBigIntTruthiness : Expression → Option Bool
  | .bigIntLiteral _ value => some (isTruthyBigIntValue (goString value))
  | _ => none

def evaluateBigIntStringCoercion : Expression → Option GoString
  | .bigIntLiteral _ value => some (goString value)
  | _ => none

def evaluateBigIntLiteralValue : Expression → Option GoString
  | .bigIntLiteral _ value => some (normalizeBigIntValue (goString value))
  | _ => none

def bigIntShiftCount (value : ℤ) : Option ℕ :=
  if value < 0 ∨ 1024 < value then none else some value.toNat

def evaluateBigIntBinaryValue (operator : BinaryOperator) (leftValue rightValue : GoString) :
    Option GoString := do
  let left ← parseBigIntValue leftValue
  let right ← parseBigIntValue rightValue
  match operator with
  | .add => return decimalString (left + right)
  | .sub => return decimalString (left - right)
  | .mul => return decimalString (left * right)
  | .div => if right = 0 then none else return decimalString (left.tdiv right)
  | .mod => if right = 0 then none else return decimalString (left.tmod right)
  | .pow => if right < 0 ∨ 64 < right then none else return decimalString (left ^ right.toNat)
  | .bitAnd => return decimalString (left.land right)
  | .bitOr => return decimalString (left.lor right)
  | .bitXor => return decimalString (left.xor right)
  | .shl => do
      let count ← bigIntShiftCount right
      return decimalString (left * 2 ^ count)
  | .shr => do
      let count ← bigIntShiftCount right
      return decimalString (left >>> count)
  | .ushr => none

def assignmentBigIntBinaryOperator : AssignmentOperator → Option BinaryOperator
  | .addAssign => some .add
  | .subAssign => some .sub
  | .mulAssign => some .mul
  | .divAssign => some .div
  | .modAssign => some .mod
  | .powAssign => some .pow
  | .bitAndAssign => some .bitAnd
  | .bitOrAssign => some .bitOr
  | .bitXorAssign => some .bitXor
  | .shlAssign => some .shl
  | .shrAssign => some .shr
  | _ => none

def negateBigIntValue (value : GoString) : GoString :=
  if value = [zeroDigit] then value
  else if hasMinus value then trimMinus value
  else minusSign :: value

def bitNotBigIntValue (value : GoString) : Option GoString :=
  (parseBigIntValue value).map fun parsed => decimalString parsed.lnot

def updatedBigIntValue (operator : UpdateOperator) (current : GoString) : Option GoString :=
  (parseBigIntValue current).map fun value =>
    match operator with
    | .increment => decimalString (value + 1)
    | .decrement => decimalString (value - 1)

def updatedIntValue (operator : UpdateOperator) (current : Int64) : Int64 :=
  match operator with
  | .increment => current + 1
  | .decrement => current - 1

def stringLess : GoString → GoString → Bool
  | _, [] => false
  | [], _ :: _ => true
  | left :: lefts, right :: rights =>
      if left < right then true else if right < left then false else stringLess lefts rights

def compareUnsignedBigIntLiteralValues (left right : GoString) : ℤ :=
  if left.length < right.length then -1
  else if right.length < left.length then 1
  else if stringLess left right then -1
  else if stringLess right left then 1
  else 0

def compareBigIntLiteralValues (left right : GoString) : ℤ :=
  if hasMinus left ∧ ¬hasMinus right then -1
  else if ¬hasMinus left ∧ hasMinus right then 1
  else if hasMinus left then
    -compareUnsignedBigIntLiteralValues (trimMinus left) (trimMinus right)
  else compareUnsignedBigIntLiteralValues left right

/-- The relational operators hold of an order; the others of none. -/
def compareBigIntRelationalOrder (operator : ComparisonOperator) (order : ℤ) : Bool :=
  match operator with
  | .lt => order < 0
  | .lte => order ≤ 0
  | .gt => 0 < order
  | .gte => 0 ≤ order
  | _ => false

def isEqualityOperator : ComparisonOperator → Bool
  | .eq | .strictEq | .ne | .strictNe => true
  | _ => false

def isStrictOperator : ComparisonOperator → Bool
  | .strictEq | .strictNe => true
  | _ => false

def isLooseOperator : ComparisonOperator → Bool
  | .eq | .ne => true
  | _ => false

def compareEquality (operator : ComparisonOperator) (equal : Bool) : Bool :=
  match operator with
  | .eq | .strictEq => equal
  | .ne | .strictNe => !equal
  | _ => false

def compareNullishEquality (operator : ComparisonOperator) (left right : ReturnNullishKind) : Bool :=
  match operator with
  | .eq => true
  | .strictEq => left = right
  | .strictNe => left ≠ right
  | _ => false

def compareInts (operator : ComparisonOperator) (left right : Int64) : Option Bool :=
  match operator with
  | .eq | .strictEq => some (left = right)
  | .ne | .strictNe => some (left ≠ right)
  | .lt => some (left < right)
  | .lte => some (left ≤ right)
  | .gt => some (right < left)
  | .gte => some (right ≤ left)
  | .in => none

def compareStrings (operator : ComparisonOperator) (left right : GoString) : Option Bool :=
  match operator with
  | .eq | .strictEq => some (left = right)
  | .ne | .strictNe => some (left ≠ right)
  | .lt => some (stringLess left right)
  | .lte => some (!stringLess right left)
  | .gt => some (stringLess right left)
  | .gte => some (!stringLess left right)
  | .in => none

/-- The double a Go comparison `==` has on its other side. -/
def Double.isFinite (number : Double) (value : ℚ) : Bool :=
  match number with
  | .finite other => other = value
  | .infinite | .nan => false

def returnValueTruthiness : ReturnValue → Bool
  | .int value => value ≠ 0
  | .bigInt value => isTruthyBigIntValue value
  | .bool value => value
  | .string value => value ≠ []
  | .nullish _ => false
  | .function _ | .object _ => true

section

variable (host : Host)

def parseLooseStringNumber (text : GoString) : Option Double :=
  if host.trimSpace text = [] then some (.finite 0) else host.parseFloat (host.trimSpace text)

def parseLooseStringBigInt (text : GoString) : Option GoString :=
  if host.trimSpace text = [] then some [zeroDigit]
  else (parseBigIntValue (host.trimSpace text)).map decimalString

def parseMixedRelationalStringBigInt (text : GoString) : GoString :=
  (parseLooseStringBigInt host text).getD []

end

end Jayess.Lowering
