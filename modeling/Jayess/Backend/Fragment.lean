import Mathlib.Data.Set.Basic
import Jayess.Backend.ExpressionEmitter
import Jayess.Backend.Shape

/-!
# Fragments

The code of an expression as a tree: plain lines in sequence, and branches whose two arms meet at an
end label with a phi.
-/

namespace Jayess.Backend

/-- A name that a line can define: `%vN` or `%local.N`. -/
inductive Name where
  | value (index : Nat)
  | slot (index : Nat)
deriving DecidableEq, Repr

def Operand.names : Operand → List Name
  | named index => [.value index]
  | _ => []

namespace Line

def defs : Line → List Name
  | alloca slot => [.slot slot.index]
  | load result _ | call result .. | phi result _ => [.value result]
  | _ => []

/-- The names a line reads where it stands; a phi reads its operands at the end of the blocks it
names, and a comment reads nothing. -/
def uses : Line → List Name
  | store value slot => .slot slot.index :: value.names
  | load _ slot => [.slot slot.index]
  | call _ _ _ args | voidCall _ args => args.flatMap fun arg => arg.value.names
  | brIf condition _ _ => condition.names
  | ret value => value.names
  | _ => []

def isPlain : Line → Bool
  | alloca _ | store .. | load .. | call .. | voidCall .. | legacyCall .. | legacyRet _ => true
  | _ => false

end Line

/-- The condition of a branch, its labels, its result, and the values of its two arms. -/
structure BranchFrame where
  condition : Operand
  trueLabel : BlockLabel
  falseLabel : BlockLabel
  endLabel : BlockLabel
  result : Nat
  trueValue : Operand
  falseValue : Operand

inductive Fragment where
  | nil
  | plain (line : Line)
  | seq (first second : Fragment)
  | branch (frame : BranchFrame) (onTrue onFalse : Fragment)

namespace Fragment

def lines : Fragment → List Line
  | nil => []
  | plain line => [line]
  | seq first second => first.lines ++ second.lines
  | branch frame onTrue onFalse =>
      [.brIf frame.condition frame.trueLabel frame.falseLabel, .label frame.trueLabel] ++
        onTrue.lines ++ [.br frame.endLabel, .label frame.falseLabel] ++ onFalse.lines ++
        [.br frame.endLabel, .label frame.endLabel,
          .phi frame.result
            [(frame.trueValue, frame.trueLabel), (frame.falseValue, frame.falseLabel)]]

def exports : Fragment → Set Name
  | nil => ∅
  | plain line => { name | name ∈ line.defs }
  | seq first second => first.exports ∪ second.exports
  | branch frame _ _ => {.value frame.result}

/-- Every name a fragment reads is available where it is read, when those in `available` are
available at its start. -/
def Closed (available : Set Name) : Fragment → Prop
  | nil => True
  | plain line => ∀ name ∈ line.uses, name ∈ available
  | seq first second => first.Closed available ∧ second.Closed (available ∪ first.exports)
  | branch frame onTrue onFalse =>
      (∀ name ∈ frame.condition.names, name ∈ available) ∧
        onTrue.Closed available ∧ onFalse.Closed available ∧
        (∀ name ∈ frame.trueValue.names, name ∈ available ∪ onTrue.exports) ∧
        ∀ name ∈ frame.falseValue.names, name ∈ available ∪ onFalse.exports

def shape : Fragment → Shape
  | nil | plain _ => .straight
  | seq first second => first.shape.append second.shape
  | branch _ onTrue onFalse => .branch onTrue.shape onFalse.shape

end Fragment

structure Counters where
  value : Nat
  slot : Nat
  block : Nat
deriving DecidableEq, Repr

def ExpressionEmitter.counters (emitter : ExpressionEmitter) : Counters :=
  ⟨emitter.valueIndex, emitter.slotIndex, emitter.blockIndex⟩

/-- A fragment takes the numbers from the first counters up to the second ones, each once. -/
inductive Numbered : Counters → Fragment → Counters → Prop where
  | nil {counters : Counters} : Numbered counters .nil counters
  | act {counters : Counters} {line : Line} (hplain : line.isPlain) (hdefs : line.defs = []) :
      Numbered counters (.plain line) counters
  | define {counters : Counters} {line : Line} (hplain : line.isPlain)
      (hdefs : line.defs = [.value counters.value]) :
      Numbered counters (.plain line) { counters with value := counters.value + 1 }
  | alloca {counters : Counters} :
      Numbered counters (.plain (.alloca ⟨counters.slot⟩))
        { counters with slot := counters.slot + 1 }
  | seq {counters middle final : Counters} {first second : Fragment}
      (hfirst : Numbered counters first middle) (hsecond : Numbered middle second final) :
      Numbered counters (.seq first second) final
  | branch {counters middle final : Counters} {frame : BranchFrame} {onTrue onFalse : Fragment}
      (htrue : Numbered counters onTrue middle) (hfalse : Numbered middle onFalse final)
      (htrueLabel : frame.trueLabel.index = final.block)
      (hfalseLabel : frame.falseLabel.index = final.block + 1)
      (hendLabel : frame.endLabel.index = final.block + 2)
      (hresult : frame.result = final.value) :
      Numbered counters (.branch frame onTrue onFalse)
        { final with value := final.value + 1, block := final.block + 3 }

end Jayess.Backend
