import Mathlib.Data.Int.Bitwise
import Jayess.Backend.ExpressionState

/-!
# Runtime literals

The literals the emitters lower to runtime calls, and the folding of bigint and number operands.
-/

namespace Jayess.Backend

inductive RuntimeLiteral where
  | undefined
  | null
  | boolean (value : BitValue)
  | number (value : NumberValue)
  | bigInt (text : String)
  | string (text : String)
deriving DecidableEq, Repr

structure RuntimeLiteralLowering where
  declarations : List Declaration
  globals : List Global
  body : List Line
deriving DecidableEq, Repr

def runtimeLiteralSymbol : RuntimeLiteral → String
  | .undefined => "jayess_value_undefined"
  | .null => "jayess_value_null"
  | .boolean _ => "jayess_value_from_boolean"
  | .number _ => "jayess_value_from_number"
  | .bigInt _ => "jayess_value_from_bigint_string"
  | .string _ => "jayess_value_from_string_copy"

def hexDigit (value : Nat) : Char :=
  if value < 10 then Char.ofNat (48 + value) else Char.ofNat (55 + value)

def escapeByte (byte : UInt8) : List Char :=
  if byte < 32 ∨ 127 ≤ byte ∨ byte = 92 ∨ byte = 34 then
    ['\\', hexDigit (byte.toNat / 16), hexDigit (byte.toNat % 16)]
  else [Char.ofNat byte.toNat]

def escapeCString (value : String) : String :=
  String.ofList (value.toUTF8.data.toList.flatMap escapeByte)

def runtimeStringGlobal (index : Nat) (value : String) : Global where
  name := ".jayess.literal." ++ toString index
  irType := "[" ++ toString (value.utf8ByteSize + 1) ++ " x i8]"
  value := "c\"" ++ escapeCString value ++ "\\00\""

/-- `LowerRuntimeLiteral`. A number is printed twice, the second time in a comment. -/
def lowerRuntimeLiteral (result : Nat) (literal : RuntimeLiteral) (stringIndex : Nat) :
    RuntimeLiteralLowering :=
  let symbol := runtimeLiteralSymbol literal
  let lowering (args : List RuntimeCallArg) (globals : List Global) (comments : List Line) :=
    { declarations := [runtimeCallDeclaration symbol runtimeValueIRType args]
      globals
      body := .call result runtimeValueIRType symbol args :: comments }
  match literal with
  | .undefined | .null => lowering [] [] []
  | .boolean value => lowering [⟨"i1", .bit value⟩] [] []
  | .number value =>
      let args := [⟨"double", .double value⟩]
      lowering args [] [.legacyCall result runtimeValueIRType symbol args]
  | .bigInt text | .string text =>
      lowering [⟨"i8*", .literalPointer stringIndex (text.utf8ByteSize + 1)⟩]
        [runtimeStringGlobal stringIndex text] []

def emitRuntimeLiteral (literal : RuntimeLiteral) : ExprM Operand := do
  let result ← nextValueName
  let lowered := lowerRuntimeLiteral result literal (← get).stringIndex
  lowered.declarations.forM addDeclaration
  modify fun emitter =>
    { emitter with
      globals := emitter.globals ++ lowered.globals
      stringIndex := emitter.stringIndex + lowered.globals.length
      body := emitter.body ++ lowered.body }
  return .named result

def emitRuntimeUndefined : ExprM Operand := emitRuntimeLiteral .undefined

def emitRuntimeString (value : String) : ExprM Operand := emitRuntimeLiteral (.string value)

def isDecimalDigit (ch : Char) : Bool := '0' ≤ ch && ch ≤ '9'

def decimalValue (digits : List Char) : Nat :=
  digits.foldl (fun value ch => 10 * value + (ch.toNat - 48)) 0

/-- `strconv.ParseFloat` on the number tokens of the lexer: digits with at most one dot. It fails on
digits outside ASCII and on a value that rounds to infinity. -/
def parseFloat (text : String) : Option NumberValue :=
  let integral := text.toList.takeWhile isDecimalDigit
  let fraction := text.toList.dropWhile isDecimalDigit
  if integral ≠ [] ∧ (fraction = [] ∨ fraction.head? = some '.' ∧ fraction.tail.all isDecimalDigit)
      ∧ decimalValue integral < 2 ^ 1024 - 2 ^ 970 then
    some (.parsed text)
  else none

/-- The verb `%q` on a number token, which has nothing to escape. -/
def quote (text : String) : String := "\"" ++ text ++ "\""

def runtimeLiteralFromAST : Expression → Except EmitError RuntimeLiteral
  | .numberLiteral _ value =>
      match parseFloat value with
      | some number => .ok (.number number)
      | none => .error { message := "invalid number literal " ++ quote value }
  | .bigIntLiteral _ value => .ok (.bigInt value)
  | .stringLiteral _ value => .ok (.string value)
  | .booleanLiteral _ value => .ok (.boolean (.known value))
  | .nullLiteral _ => .ok .null
  | .undefinedLiteral _ => .ok .undefined
  | expression =>
      .error { message := "unsupported AST runtime literal " ++ expression.goType }

def numericLiteralValue : Expression → Except EmitError NumberValue
  | .numberLiteral _ value =>
      match parseFloat value with
      | some number => .ok number
      | none => .error { message := "invalid number literal " ++ quote value }
  | expression =>
      .error { message := "unsupported runtime numeric binary operand " ++ expression.goType }

def evaluateNumericBinary (operator : BinaryOperator) (left right : NumberValue) :
    Except EmitError NumberValue :=
  match operator with
  | .add | .sub | .mul | .div | .mod | .pow => .ok (.folded operator left right)
  | _ => .error { message := "unsupported runtime numeric binary operator " ++ operator.text }

def evaluateNumericComparison (operator : ComparisonOperator) (left right : NumberValue) :
    Except EmitError BitValue :=
  match operator with
  | .in => .error { message := "unsupported runtime numeric comparison operator in" }
  | _ => .ok (.compared operator left right)

/-- `big.Int.SetString` with base ten. -/
def parseBigIntLiteral (text : String) : Option Int :=
  let parse (digits : List Char) : Option Nat :=
    if digits ≠ [] ∧ digits.all isDecimalDigit then some (decimalValue digits) else none
  match text.toList with
  | '-' :: digits => (parse digits).map fun value => -(value : Int)
  | '+' :: digits => (parse digits).map Int.ofNat
  | digits => (parse digits).map Int.ofNat

def invalidBigInt (text : String) : EmitError :=
  { message := "invalid bigint literal " ++ quote text }

def bigIntShiftCount (value : Int) : Option Nat :=
  if 0 ≤ value ∧ value ≤ 1024 then some value.toNat else none

/-- `evaluateBigIntBinary`. Division and remainder truncate toward zero, as `Quo` and `Rem` do. -/
def evaluateBigIntBinary (operator : BinaryOperator) (left right : Int) : Except EmitError Int :=
  match operator with
  | .add => .ok (left + right)
  | .sub => .ok (left - right)
  | .mul => .ok (left * right)
  | .div =>
      if right = 0 then .error { message := "unsupported runtime bigint division by zero" }
      else .ok (left.tdiv right)
  | .mod =>
      if right = 0 then .error { message := "unsupported runtime bigint remainder by zero" }
      else .ok (left.tmod right)
  | .pow =>
      if right < 0 ∨ 64 < right then
        .error { message := "unsupported runtime bigint exponent " ++ toString right }
      else .ok (left ^ right.toNat)
  | .bitAnd => .ok (left.land right)
  | .bitOr => .ok (left.lor right)
  | .bitXor => .ok (left.xor right)
  | .shl =>
      match bigIntShiftCount right with
      | some count => .ok (left * 2 ^ count)
      | none => .error
          { message := "unsupported runtime bigint left shift count " ++ toString right }
  | .shr =>
      match bigIntShiftCount right with
      | some count => .ok (left / 2 ^ count)
      | none => .error
          { message := "unsupported runtime bigint right shift count " ++ toString right }
  | .ushr => .error { message := "unsupported runtime bigint binary operator >>>" }

def evaluateBigIntComparison (operator : ComparisonOperator) (left right : Int) :
    Except EmitError Bool :=
  match operator with
  | .eq | .strictEq => .ok (left = right)
  | .ne | .strictNe => .ok (left ≠ right)
  | .lt => .ok (left < right)
  | .lte => .ok (left ≤ right)
  | .gt => .ok (right < left)
  | .gte => .ok (right ≤ left)
  | .in => .error { message := "unsupported runtime bigint comparison operator in" }

def evaluatePrimitiveEqualityComparison (operator : ComparisonOperator) (equal : Bool)
    (kind : String) : Except EmitError Bool :=
  match operator with
  | .eq | .strictEq => .ok equal
  | .ne | .strictNe => .ok (!equal)
  | _ => .error
      { message := "unsupported runtime " ++ kind ++ " comparison operator " ++ operator.text }

end Jayess.Backend
