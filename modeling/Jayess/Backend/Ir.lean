import Jayess.Ast

/-! # The lines of an emitted function -/

namespace Jayess.Backend

/-- The IR type of every runtime value. -/
def runtimeValueIRType : String := "%jayess.value"

/-- A stack slot, printed `%local.N`. -/
structure LocalSlot where
  index : Nat
deriving DecidableEq, Repr

structure BlockLabel where
  stem : String
  index : Nat
deriving DecidableEq, Repr

/-- A `float64` the emitter has folded. -/
inductive NumberValue where
  | parsed (text : String)
  | negated (value : NumberValue)
  | folded (operator : BinaryOperator) (left right : NumberValue)
deriving DecidableEq, Repr

/-- An `i1` constant the emitter has folded. -/
inductive BitValue where
  | known (value : Bool)
  | compared (operator : ComparisonOperator) (left right : NumberValue)
deriving DecidableEq, Repr

/-- What may stand where a line reads a value. -/
inductive Operand where
  | named (index : Nat)
  | undef
  | bit (value : BitValue)
  | int (value : Nat)
  | double (value : NumberValue)
  | literalPointer (index length : Nat)
deriving DecidableEq, Repr

structure RuntimeCallArg where
  irType : String
  value : Operand
deriving DecidableEq, Repr

structure Declaration where
  name : String
  irType : String
deriving DecidableEq, Repr

structure Global where
  name : String
  irType : String
  value : String
deriving DecidableEq, Repr

inductive Line where
  | alloca (slot : LocalSlot)
  | store (value : Operand) (slot : LocalSlot)
  | load (result : Nat) (slot : LocalSlot)
  | call (result : Nat) (resultType symbol : String) (args : List RuntimeCallArg)
  | voidCall (symbol : String) (args : List RuntimeCallArg)
  | phi (result : Nat) (incoming : List (Operand × BlockLabel))
  | legacyCall (result : Nat) (resultType symbol : String) (args : List RuntimeCallArg)
  | legacyRet (value : Operand)
  | label (name : BlockLabel)
  | br (target : BlockLabel)
  | brIf (condition : Operand) (onTrue onFalse : BlockLabel)
  | ret (value : Operand)
deriving DecidableEq, Repr

/-- How Go prints a `float64` and compares two of them, which the emitter never looks at. -/
structure NumberFormat where
  formatLLVMDouble : NumberValue → String
  formatFloat : NumberValue → String
  compare : ComparisonOperator → NumberValue → NumberValue → Bool

def LocalSlot.name (slot : LocalSlot) : String := "%local." ++ toString slot.index

def BlockLabel.name (label : BlockLabel) : String := label.stem ++ "." ++ toString label.index

def valueName (index : Nat) : String := "%v" ++ toString index

def BitValue.eval (format : NumberFormat) : BitValue → Bool
  | known value => value
  | compared operator left right => format.compare operator left right

def Operand.render (format : NumberFormat) : Operand → String
  | named index => valueName index
  | undef => "undef"
  | bit value => if value.eval format then "1" else "0"
  | int value => toString value
  | double value => format.formatLLVMDouble value
  | literalPointer index length =>
      let irType := "[" ++ toString length ++ " x i8]"
      "getelementptr inbounds (" ++ irType ++ ", " ++ irType ++ "* @.jayess.literal." ++
        toString index ++ ", i32 0, i32 0)"

def renderCallArgs (format : NumberFormat) (args : List RuntimeCallArg) : String :=
  ", ".intercalate (args.map fun arg => arg.irType ++ " " ++ arg.value.render format)

/-- `RuntimeCall`. -/
def runtimeCallText (format : NumberFormat) (result : Nat) (resultType symbol : String)
    (args : List RuntimeCallArg) : String :=
  valueName result ++ " = call " ++ resultType ++ " @" ++ symbol ++ "(" ++
    renderCallArgs format args ++ ")"

/-- `RuntimeVoidCall`. -/
def runtimeVoidCallText (format : NumberFormat) (symbol : String) (args : List RuntimeCallArg) :
    String :=
  "call void @" ++ symbol ++ "(" ++ renderCallArgs format args ++ ")"

/-- The text of a line, as the Go emitters append it. -/
def Line.render (format : NumberFormat) : Line → String
  | alloca slot => slot.name ++ " = alloca " ++ runtimeValueIRType
  | store value slot =>
      "store " ++ runtimeValueIRType ++ " " ++ value.render format ++ ", " ++
        runtimeValueIRType ++ "* " ++ slot.name
  | load result slot =>
      valueName result ++ " = load " ++ runtimeValueIRType ++ ", " ++ runtimeValueIRType ++ "* " ++
        slot.name
  | call result resultType symbol args => runtimeCallText format result resultType symbol args
  | voidCall symbol args => runtimeVoidCallText format symbol args
  | phi result incoming =>
      valueName result ++ " = phi " ++ runtimeValueIRType ++ " " ++ ", ".intercalate
        (incoming.map fun item => "[ " ++ item.1.render format ++ ", %" ++ item.2.name ++ " ]")
  | legacyCall result resultType symbol args =>
      "; legacy " ++ runtimeCallText { format with formatLLVMDouble := format.formatFloat }
        result resultType symbol args
  | legacyRet value => "; legacy ret " ++ runtimeValueIRType ++ " " ++ value.render format
  | label name => name.name ++ ":"
  | br target => "br label %" ++ target.name
  | brIf condition onTrue onFalse =>
      "br i1 " ++ condition.render format ++ ", label %" ++ onTrue.name ++ ", label %" ++
        onFalse.name
  | ret value => "ret " ++ runtimeValueIRType ++ " " ++ value.render format

def runtimeCallDeclaration (symbol resultType : String) (args : List RuntimeCallArg) :
    Declaration :=
  { name := symbol
    irType := resultType ++ " (" ++ ", ".intercalate (args.map (·.irType)) ++ ")" }

/-- An emitted function. -/
structure Function where
  name : String
  returnType : String
  body : List Line
deriving DecidableEq, Repr

namespace Line

def label? : Line → Option BlockLabel
  | label name => some name
  | _ => none

def targets : Line → List BlockLabel
  | br target => [target]
  | brIf _ onTrue onFalse => [onTrue, onFalse]
  | _ => []

def isTerminator : Line → Bool
  | br _ | brIf .. | ret _ => true
  | _ => false

def isComment : Line → Bool
  | legacyCall .. | legacyRet _ => true
  | _ => false

end Line

end Jayess.Backend
