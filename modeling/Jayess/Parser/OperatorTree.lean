import Jayess.Parser.Expression

/-!
# Operator trees and how they are printed

The expressions that are built from literals and identifiers with operators alone, without positions,
and the tokens that print them under the precedence and associativity of JavaScript: an operand is
parenthesized exactly when its operator binds looser than its place asks for.
-/

namespace Jayess

/-- Literals and identifiers. A string has the text between its quotes, a template the text between
its backticks. -/
inductive Leaf where
  | identifier (name : String)
  | number (text : String)
  | bigInt (text : String)
  | string (text : String)
  | template (text : String)
  | boolean (value : Bool)
  | null
  | undefined
deriving DecidableEq, Repr

namespace Leaf

def isWord (unicode : Unicode) : List Char → Bool
  | [] => false
  | ch :: rest =>
      !isSpace ch && unicode.isIdentifierStart ch && rest.all unicode.isIdentifierPart

def isNumberText (unicode : Unicode) : Bool → List Char → Bool
  | _, [] => true
  | dotSeen, ch :: rest =>
      if unicode.isDigit ch then isNumberText unicode dotSeen rest
      else ch = '.' && !dotSeen && isNumberText unicode true rest

def startsNumber (unicode : Unicode) : List Char → Bool
  | [] => false
  | ch :: _ => !isSpace ch && unicode.isDigit ch && !unicode.isIdentifierStart ch

/-- A text that the quote closes right behind. -/
def isStringText (quote : Char) : List Char → Bool
  | [] => true
  | ch :: rest =>
      if ch = endRune ∨ ch = '\n' then false
      else if ch = '\\' then
        match rest with
        | [] => false
        | escaped :: rest => escaped ≠ endRune && escaped ≠ '\n' && isStringText quote rest
      else ch ≠ quote && isStringText quote rest

def isTemplateText : List Char → Bool
  | [] => true
  | ch :: rest =>
      ch ≠ endRune && ch ≠ '\x60' && !(ch = '$' && rest.head? = some '\x7b') && isTemplateText rest

/-- The leaf is written as a token of its kind: a reserved word is no identifier. -/
def IsToken (unicode : Unicode) : Leaf → Prop
  | identifier name => isWord unicode name.toList ∧ lookupIdent name = .tokenIdent
  | number text => startsNumber unicode text.toList ∧ isNumberText unicode false text.toList
  | bigInt text => startsNumber unicode text.toList ∧ text.toList.all unicode.isDigit
  | string text => isStringText '"' text.toList ∨ isStringText '\'' text.toList
  | template text => isTemplateText text.toList
  | boolean _ | null | undefined => True

instance (unicode : Unicode) : (leaf : Leaf) → Decidable (leaf.IsToken unicode)
  | identifier _ => inferInstanceAs (Decidable (_ ∧ _))
  | number _ => inferInstanceAs (Decidable (_ ∧ _))
  | bigInt _ => inferInstanceAs (Decidable (_ ∧ _))
  | string _ => inferInstanceAs (Decidable (_ ∨ _))
  | template _ => inferInstanceAs (Decidable (_ = true))
  | boolean _ | null | undefined => inferInstanceAs (Decidable True)

end Leaf

inductive PrefixOperator where
  | unary (operator : UnaryOperator)
  | typeof
  | await
deriving DecidableEq, Repr

inductive InfixOperator where
  | comma
  | nullish
  | logical (operator : LogicalOperator)
  | binary (operator : BinaryOperator)
  | comparison (operator : ComparisonOperator)
  | instanceof
deriving DecidableEq, Repr

/-- How tight an operator binds in JavaScript. The comma binds loosest; a conditional has level 2, a
prefix operator level 15 and a leaf level 16. -/
def InfixOperator.level : InfixOperator → Nat
  | comma => 1
  | nullish => 3
  | logical .or => 4
  | logical .and => 5
  | binary .bitOr => 6
  | binary .bitXor => 7
  | binary .bitAnd => 8
  | comparison .eq | comparison .ne | comparison .strictEq | comparison .strictNe => 9
  | comparison .lt | comparison .lte | comparison .gt | comparison .gte | comparison .in
  | instanceof => 10
  | binary .shl | binary .shr | binary .ushr => 11
  | binary .add | binary .sub => 12
  | binary .mul | binary .div | binary .mod => 13
  | binary .pow => 14

/-- An increment or decrement is taken of a name. -/
inductive OperatorTree where
  | leaf (leaf : Leaf)
  | update (operator : UpdateOperator) (name : String)
  | prefixed (operator : PrefixOperator) (operand : OperatorTree)
  | binary (operator : InfixOperator) (left right : OperatorTree)
  | conditional (condition consequent alternative : OperatorTree)
deriving DecidableEq, Repr

namespace OperatorTree

def level : OperatorTree → Nat
  | leaf _ => 16
  | update .. | prefixed .. => 15
  | binary operator .. => operator.level
  | conditional .. => 2

end OperatorTree

namespace InfixOperator

/-- How tight the left operand has to bind to stand without parentheses. `??` takes another `??` but
not `||` and `&&`, and `**` no prefix operator. -/
def leftMinimum (operator : InfixOperator) (left : OperatorTree) : Nat :=
  match operator with
  | nullish => if left.level = 3 then 3 else 6
  | binary .pow => 16
  | _ => operator.level

def rightMinimum : InfixOperator → Nat
  | nullish => 6
  | binary .pow => 14
  | operator => operator.level + 1

end InfixOperator

/-! ## Printing -/

structure Piece where
  type : TokenType
  literal : String
  source : List Char
deriving DecidableEq, Repr

namespace Piece

def verbatim (type : TokenType) (text : String) : Piece := ⟨type, text, text.toList⟩

def symbol (type : TokenType) : Piece := verbatim type type.text

end Piece

namespace Leaf

def quoteFor (text : List Char) : Char := if isStringText '"' text then '"' else '\''

def piece : Leaf → Piece
  | identifier name => .verbatim .tokenIdent name
  | number text => .verbatim .tokenNumber text
  | bigInt text => ⟨.tokenBigInt, text, text.toList ++ ['n']⟩
  | string text =>
      let quote := quoteFor text.toList
      ⟨.tokenString, text, quote :: (text.toList ++ [quote])⟩
  | template text => ⟨.tokenTemplate, text, '\x60' :: (text.toList ++ ['\x60'])⟩
  | boolean true => .verbatim .tokenTrue "true"
  | boolean false => .verbatim .tokenFalse "false"
  | null => .verbatim .tokenNull "null"
  | undefined => .verbatim .tokenUndefined "undefined"

end Leaf

def PrefixOperator.piece : PrefixOperator → Piece
  | unary .not => .symbol .tokenBang
  | unary .bitNot => .symbol .tokenBitNot
  | unary .negate => .symbol .tokenMinus
  | unary .positive => .symbol .tokenPlus
  | unary .void => .verbatim .tokenVoid "void"
  | unary .delete => .verbatim .tokenDelete "delete"
  | typeof => .verbatim .tokenTypeof "typeof"
  | await => .verbatim .tokenAwait "await"

def UpdateOperator.piece : UpdateOperator → Piece
  | increment => .symbol .tokenIncrement
  | decrement => .symbol .tokenDecrement

def InfixOperator.piece : InfixOperator → Piece
  | comma => .symbol .tokenComma
  | nullish => .symbol .tokenNullish
  | logical .and => .symbol .tokenAnd
  | logical .or => .symbol .tokenOr
  | binary .add => .symbol .tokenPlus
  | binary .sub => .symbol .tokenMinus
  | binary .mul => .symbol .tokenStar
  | binary .pow => .symbol .tokenPower
  | binary .div => .symbol .tokenSlash
  | binary .mod => .symbol .tokenPercent
  | binary .bitAnd => .symbol .tokenBitAnd
  | binary .bitOr => .symbol .tokenBitOr
  | binary .bitXor => .symbol .tokenBitXor
  | binary .shl => .symbol .tokenShiftLeft
  | binary .shr => .symbol .tokenShiftRight
  | binary .ushr => .symbol .tokenUnsignedShift
  | comparison .eq => .symbol .tokenEq
  | comparison .ne => .symbol .tokenNe
  | comparison .strictEq => .symbol .tokenStrictEq
  | comparison .strictNe => .symbol .tokenStrictNe
  | comparison .lt => .symbol .tokenLt
  | comparison .lte => .symbol .tokenLte
  | comparison .gt => .symbol .tokenGt
  | comparison .gte => .symbol .tokenGte
  | comparison .in => .verbatim .tokenIn "in"
  | instanceof => .verbatim .tokenInstanceof "instanceof"

namespace OperatorTree

def parenthesize (minimum : Nat) (operand : OperatorTree) (pieces : List Piece) : List Piece :=
  if operand.level < minimum then .symbol .tokenLParen :: (pieces ++ [.symbol .tokenRParen])
  else pieces

/-- The tokens of a tree with no parentheses around it. -/
def pieces : OperatorTree → List Piece
  | leaf token => [token.piece]
  | update operator name => [operator.piece, (Leaf.identifier name).piece]
  | prefixed operator operand => operator.piece :: parenthesize 15 operand operand.pieces
  | binary operator left right =>
      parenthesize (operator.leftMinimum left) left left.pieces ++
        operator.piece :: parenthesize operator.rightMinimum right right.pieces
  | conditional condition consequent alternative =>
      parenthesize 3 condition condition.pieces ++
        .symbol .tokenQuestion :: (parenthesize 2 consequent consequent.pieces ++
          .symbol .tokenColon :: parenthesize 2 alternative alternative.pieces)

def print (tree : OperatorTree) : List Char := tree.pieces.flatMap fun piece => piece.source ++ [' ']

/-- Every leaf is written as a token of its kind. -/
def IsWritten (unicode : Unicode) : OperatorTree → Prop
  | leaf token => token.IsToken unicode
  | update _ name => (Leaf.identifier name).IsToken unicode
  | prefixed _ operand => operand.IsWritten unicode
  | binary _ left right => left.IsWritten unicode ∧ right.IsWritten unicode
  | conditional condition consequent alternative =>
      condition.IsWritten unicode ∧ consequent.IsWritten unicode ∧ alternative.IsWritten unicode

instance decidableIsWritten (unicode : Unicode) :
    (tree : OperatorTree) → Decidable (tree.IsWritten unicode)
  | leaf token => inferInstanceAs (Decidable (token.IsToken unicode))
  | update _ name => inferInstanceAs (Decidable ((Leaf.identifier name).IsToken unicode))
  | prefixed _ operand => decidableIsWritten unicode operand
  | binary _ left right =>
      have := decidableIsWritten unicode left
      have := decidableIsWritten unicode right
      inferInstanceAs (Decidable (_ ∧ _))
  | conditional condition consequent alternative =>
      have := decidableIsWritten unicode condition
      have := decidableIsWritten unicode consequent
      have := decidableIsWritten unicode alternative
      inferInstanceAs (Decidable (_ ∧ _ ∧ _))

end OperatorTree

/-- The operator tree of an expression, whatever its positions. -/
def Expression.tree? : Expression → Option OperatorTree
  | .identifier _ name => some (.leaf (.identifier name))
  | .numberLiteral _ value => some (.leaf (.number value))
  | .bigIntLiteral _ value => some (.leaf (.bigInt value))
  | .stringLiteral _ value => some (.leaf (.string value))
  | .templateLiteral _ value [] => some (.leaf (.template value))
  | .booleanLiteral _ value => some (.leaf (.boolean value))
  | .nullLiteral _ => some (.leaf .null)
  | .undefinedLiteral _ => some (.leaf .undefined)
  | .update _ operator (.identifier _ name) true => some (.update operator name)
  | .unary _ operator right => return .prefixed (.unary operator) (← right.tree?)
  | .typeof _ value => return .prefixed .typeof (← value.tree?)
  | .await _ value => return .prefixed .await (← value.tree?)
  | .comma _ left right => return .binary .comma (← left.tree?) (← right.tree?)
  | .nullishCoalesce _ left right => return .binary .nullish (← left.tree?) (← right.tree?)
  | .logical _ operator left right =>
      return .binary (.logical operator) (← left.tree?) (← right.tree?)
  | .binary _ operator left right =>
      return .binary (.binary operator) (← left.tree?) (← right.tree?)
  | .comparison _ operator left right =>
      return .binary (.comparison operator) (← left.tree?) (← right.tree?)
  | .instanceof _ left right => return .binary .instanceof (← left.tree?) (← right.tree?)
  | .conditional _ condition consequent alternative =>
      return .conditional (← condition.tree?) (← consequent.tree?) (← alternative.tree?)
  | _ => none

/-- With enough fuel, parsing the printed tree gives an expression of this tree. -/
def OperatorTree.RoundTrips (parseBlockStatements : Productions → Parse (List Statement))
    (unicode : Unicode) (tree : OperatorTree) : Prop :=
  ∃ bound, ∀ fuel, bound ≤ fuel → ∃ expr,
    parseSource parseBlockStatements unicode fuel tree.print = .ok expr ∧ expr.tree? = some tree

namespace OperatorTree

def isEquality : InfixOperator → Bool
  | .comparison .eq | .comparison .ne | .comparison .strictEq | .comparison .strictNe => true
  | _ => false

/-- The operators `<`, `<=`, `>`, `>=`, `in` and `instanceof`. -/
def isRelational : InfixOperator → Bool
  | .comparison .lt | .comparison .lte | .comparison .gt | .comparison .gte | .comparison .in
  | .instanceof => true
  | _ => false

def comparesRelation : OperatorTree → Bool
  | binary operator .. => isRelational operator
  | _ => false

/-- No equality comparison has a relational comparison as its right operand. -/
def ComparesLeft : OperatorTree → Prop
  | leaf _ | update .. => True
  | prefixed _ operand => operand.ComparesLeft
  | binary operator left right =>
      (isEquality operator = true → right.comparesRelation = false) ∧ left.ComparesLeft ∧
        right.ComparesLeft
  | conditional condition consequent alternative =>
      condition.ComparesLeft ∧ consequent.ComparesLeft ∧ alternative.ComparesLeft

def joined : Option (InfixOperator × OperatorTree) → OperatorTree → OperatorTree
  | none, tree => tree
  | some (operator, left), tree => .binary operator left tree

/-- The tree the parser reads for the tokens of a tree, after the left operand of a comparison if one
was read before. Since the comparisons are one level, a relational comparison to the right of an
equality operator is taken apart: its left operand is compared with what was read before. -/
def readingFrom (before : Option (InfixOperator × OperatorTree)) : OperatorTree → OperatorTree
  | leaf token => joined before (.leaf token)
  | update operator name => joined before (.update operator name)
  | prefixed operator operand => joined before (.prefixed operator (operand.readingFrom none))
  | binary operator left right =>
      if isRelational operator then
        .binary operator (left.readingFrom before) (right.readingFrom none)
      else if isEquality operator then
        joined before (right.readingFrom (some (operator, left.readingFrom none)))
      else joined before (.binary operator (left.readingFrom none) (right.readingFrom none))
  | conditional condition consequent alternative =>
      joined before (.conditional (condition.readingFrom none) (consequent.readingFrom none)
        (alternative.readingFrom none))

def reading (tree : OperatorTree) : OperatorTree := tree.readingFrom none

end OperatorTree

end Jayess
