import Jayess.Parser.Expression

/-!
# Template strings

The evaluation of a template literal at compile time, and template literals as they are written: text
chunks and substitutions, whose sources hold braces, strings and templates of their own.
-/

namespace Jayess

namespace Lowering

def skipQuotedTemplateStringExpression (quote : Char) : List Char → List Char :=
  Parser.skipQuotedTemplateExpressionPart quote

def findTemplateStringExpressionEnd : Nat → Nat → List Char → Option (List Char) :=
  Parser.findTemplateExpressionEnd

section Evaluate

variable {σ : Type} (evaluateStringCoercion : Expression → OptionT (StateM σ) (List Char))

/-- The loop reads at least one rune in each round, with the expressions that are not used yet. -/
def evaluateTemplateStringLoop : Nat → List Expression → List Char → OptionT (StateM σ) (List Char)
  | 0, expressions, _ => if expressions.isEmpty then pure [] else failure
  | rounds + 1, expressions, '$' :: '\x7b' :: rest =>
      match expressions with
      | [] => failure
      | expression :: expressions =>
          match findTemplateStringExpressionEnd (rest.length + 1) 1 rest with
          | none => failure
          | some stop => do
              let value ← evaluateStringCoercion expression
              return value ++ (← evaluateTemplateStringLoop rounds expressions (stop.drop 1))
  | rounds + 1, expressions, ch :: rest =>
      return ch :: (← evaluateTemplateStringLoop rounds expressions rest)
  | _, expressions, [] => if expressions.isEmpty then pure [] else failure

def evaluateTemplateString (value : List Char) (expressions : List Expression) :
    OptionT (StateM σ) (List Char) :=
  evaluateTemplateStringLoop evaluateStringCoercion value.length expressions value

/-- What holds of every part of an evaluation, and of a part before a rune or after an expression, holds of
the whole. -/
theorem evaluateTemplateStringLoop_parts {motive : OptionT (StateM σ) (List Char) → Prop}
    (done : motive (pure [])) (failed : motive failure) (rounds : Nat) (expressions : List Expression)
    (value : List Char)
    (evaluated : ∀ expression ∈ expressions, ∀ rest, motive rest → motive (do
      let text ← evaluateStringCoercion expression
      return text ++ (← rest)))
    (copied : ∀ ch rest, motive rest → motive (do return ch :: (← rest))) :
    motive (evaluateTemplateStringLoop evaluateStringCoercion rounds expressions value) := by
  fun_induction evaluateTemplateStringLoop evaluateStringCoercion rounds expressions value
  case case1 => exact done
  case case2 => exact failed
  case case3 => exact failed
  case case4 => exact failed
  case case5 ih =>
    apply evaluated _ List.mem_cons_self
    exact ih fun expression hmem => evaluated expression (List.mem_cons_of_mem _ hmem)
  case case6 ih => exact copied _ _ (ih evaluated)
  case case7 => exact done
  case case8 => exact failed

end Evaluate

end Lowering

inductive TextUnit where
  | char (ch : Char) (plain : ch ≠ '\x60' ∧ ch ≠ '\\')
  | escape (ch : Char)

namespace TextUnit

def runes : TextUnit → List Char
  | char ch _ => [ch]
  | escape ch => ['\\', ch]

def isDollar : TextUnit → Bool
  | char ch _ => ch = '$'
  | escape _ => false

def isBrace : TextUnit → Bool
  | char ch _ => ch = '\x7b'
  | escape _ => false

end TextUnit

structure TemplateText where
  units : List TextUnit
  plain : units.IsChain fun first second => ¬(first.isDollar ∧ second.isBrace)

def TemplateText.runes (text : TemplateText) : List Char := text.units.flatMap TextUnit.runes

inductive Quote where
  | single
  | double
  deriving DecidableEq

def Quote.rune : Quote → Char
  | single => '\''
  | double => '"'

inductive StringUnit (quote : Quote) where
  | char (ch : Char) (plain : ch ≠ quote.rune ∧ ch ≠ '\\' ∧ ch ≠ '\n')
  | escape (ch : Char)

def StringUnit.runes {quote : Quote} : StringUnit quote → List Char
  | char ch _ => [ch]
  | escape ch => ['\\', ch]

def isSourceRune (ch : Char) : Bool := ch ∉ ['\'', '"', '\x60', '\x7b', '\x7d']

mutual

/-- A text chunk, or one with a substitution and the rest of the template behind it. -/
inductive Template where
  | text (text : TemplateText)
  | substitution (text : TemplateText) (source : Source) (rest : Template)

inductive Source where
  | done
  | rune (ch : Char) (plain : isSourceRune ch) (rest : Source)
  | string (quote : Quote) (units : List (StringUnit quote)) (rest : Source)
  | braces (inner rest : Source)
  | template (template : Template) (rest : Source)

end

mutual

/-- The text between the backticks. -/
def Template.raw : Template → List Char
  | .text text => text.runes
  | .substitution text source rest =>
      text.runes ++ '$' :: '\x7b' :: (source.runes ++ '\x7d' :: rest.raw)

def Source.runes : Source → List Char
  | .done => []
  | .rune ch _ rest => ch :: rest.runes
  | .string quote units rest =>
      quote.rune :: (units.flatMap StringUnit.runes ++ quote.rune :: rest.runes)
  | .braces inner rest => '\x7b' :: (inner.runes ++ '\x7d' :: rest.runes)
  | .template template rest => '\x60' :: (template.raw ++ '\x60' :: rest.runes)

end

namespace Template

/-- The text up to the first substitution. -/
def head : Template → List Char
  | text chunk => chunk.runes
  | substitution chunk _ _ => chunk.runes

/-- Each substitution's source and the text behind it. -/
def spans : Template → List (List Char × List Char)
  | text _ => []
  | substitution _ source rest => (source.runes, rest.head) :: rest.spans

end Template

end Jayess
