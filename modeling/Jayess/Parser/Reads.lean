import Jayess.Parser.Ahead

/-!
# What the productions read

`Reads parse level pieces tree` says that a production reads the tree from these tokens, whatever
follows that binds looser than the level.
-/

namespace Jayess

/-- How tight a token binds what stands before it, as an operator between two operands; a token that
ends an expression binds loosest, and one that cannot follow an operand has no place. -/
def TokenType.binds : TokenType → Nat
  | .tokenEOF | .tokenRParen | .tokenColon => 0
  | .tokenComma => 1
  | .tokenQuestion => 2
  | .tokenNullish => 3
  | .tokenOr => 4
  | .tokenAnd => 5
  | .tokenBitOr => 6
  | .tokenBitXor => 7
  | .tokenBitAnd => 8
  | .tokenEq | .tokenNe | .tokenStrictEq | .tokenStrictNe => 9
  | .tokenLt | .tokenLte | .tokenGt | .tokenGte | .tokenIn | .tokenInstanceof => 10
  | .tokenShiftLeft | .tokenShiftRight | .tokenUnsignedShift => 11
  | .tokenPlus | .tokenMinus => 12
  | .tokenStar | .tokenSlash | .tokenPercent => 13
  | .tokenPower => 14
  | _ => 17

theorem InfixOperator.binds_piece (operator : InfixOperator) :
    operator.piece.type.binds = operator.level := by
  cases operator with
  | comma | nullish | instanceof => rfl
  | logical operator | binary operator | comparison operator => cases operator <;> rfl

namespace Parser

def startsPrimary : TokenType → Bool
  | .tokenIdent | .tokenNumber | .tokenBigInt | .tokenString | .tokenTemplate | .tokenTrue
  | .tokenFalse | .tokenNull | .tokenUndefined | .tokenLParen => true
  | _ => false

section Reads

variable (parseBlockStatements : Productions → Parse (List Statement))

/-- The production reads the tree from these tokens. A token is left for each level of fuel and each
round of a loop. -/
def Reads (parse : Productions → Parse Expression) (level : Nat) (pieces : List Piece)
    (tree : OperatorTree) : Prop :=
  ∀ fuel p rest, p.Ahead (pieces ++ rest) → (pieces ++ rest).length + 1 < fuel →
    (nextType rest).binds < level →
    ∃ expr p', parse (grammar parseBlockStatements fuel) p = .ok (expr, p') ∧
      expr.tree? = some tree ∧ p'.Ahead rest

variable {parseBlockStatements}
variable {p : Parser} {pieces rest : List Piece} {tree : OperatorTree}

theorem parsePostfixLoop_stops (g : Productions) (rounds : Nat) (expr : Expression)
    (hahead : p.Ahead rest) (hstops : (nextType rest).binds < 16) :
    parsePostfixLoop g (rounds + 1) expr p = .ok (expr, p) := by
  rw [← hahead.type] at hstops
  have harrow : p.current.type ≠ .tokenArrow := hahead.type_ne rfl (by decide)
  have hident : p.current.type ≠ .tokenIdent := by
    intro htype
    rw [htype] at hstops
    exact absurd hstops (by decide)
  have hbang : p.current.type ≠ .tokenBang := by
    intro htype
    rw [htype] at hstops
    exact absurd hstops (by decide)
  have hround : parsePostfixLoop g (rounds + 1) expr p = (do
      let later ← hasLineTerminatorBeforeCurrent
      if p.current.type = .tokenArrow ∧ later then
        errorAtCurrent "line terminator before arrow is not allowed"
      if !later then unsupportedExpressionSuffixError
      return expr : Parse Expression) p := by
    rw [parsePostfixLoop, currentType_bind]
    refine congrFun ?_ p
    split
    all_goals
      first
        | rfl
        | (rename_i htype; rw [htype] at hstops; exact absurd hstops (by decide))
  rw [hround, bind_of_ok _ hasLineTerminatorBeforeCurrent_run]
  have hsuffix : unsupportedExpressionSuffixError p = .ok ((), p) := by
    simp [unsupportedExpressionSuffixError, hident, hbang]
  simp only [harrow, false_and, if_false, ite_run]
  split
  · rw [bind_of_ok _ hsuffix]
    rfl
  · rfl

theorem parseTemplateExpressionsLoop_plain (source : List Char → Except ParseError Expression)
    (rounds : Nat) (text : List Char) (htext : Leaf.isTemplateText text = true) :
    parseTemplateExpressionsLoop source rounds text = .ok [] := by
  induction rounds generalizing text with
  | zero => rw [parseTemplateExpressionsLoop]
  | succ rounds ih =>
      cases text with
      | nil => simp [parseTemplateExpressionsLoop]
      | cons ch rest =>
          have hrest : Leaf.isTemplateText rest = true := by
            simp only [Leaf.isTemplateText, Bool.and_eq_true] at htext
            exact htext.2
          rw [parseTemplateExpressionsLoop]
          · exact ih rest hrest
          · rintro after rfl rfl
            simp [Leaf.isTemplateText] at htext

theorem parseTemplateLiteral_plain (g : Productions) (token : Token)
    (htext : Leaf.isTemplateText token.literal.toList = true) :
    parseTemplateLiteral g token p =
      .ok (.templateLiteral (baseFrom token) token.literal [], p) := by
  have hrun : parseTemplateExpressions g p.unicode token.literal.toList = .ok [] :=
    parseTemplateExpressionsLoop_plain _ _ _ htext
  unfold parseTemplateLiteral
  rw [bind_run]
  simp only [get, getThe, MonadStateOf.get, StateT.get, pure, Except.pure, Except.bind, hrun]
  rfl

theorem parseToken_leaf (unicode : Unicode) (g : Productions) {leaf : Leaf} {token : Token}
    (hwritten : leaf.IsToken unicode) (htype : token.type = leaf.piece.type)
    (hliteral : token.literal = leaf.piece.literal) :
    ∃ expr, parseToken g token p = .ok (expr, p) ∧ expr.tree? = some (.leaf leaf) := by
  cases leaf with
  | template text =>
      have htext : Leaf.isTemplateText token.literal.toList = true := hliteral ▸ hwritten
      refine ⟨.templateLiteral (baseFrom token) token.literal [], ?_, ?_⟩
      · simp only [parseToken, htype, Leaf.piece]
        exact parseTemplateLiteral_plain g token htext
      · simp only [Expression.tree?, hliteral, Leaf.piece]
  | boolean value =>
      refine ⟨.booleanLiteral (baseFrom token) value, ?_, rfl⟩
      cases value <;> simp only [parseToken, htype, Leaf.piece, Piece.verbatim, pure_run]
  | identifier _ | number _ | bigInt _ | string _ | null | undefined =>
      simp only [parseToken, htype, Leaf.piece, Piece.verbatim, pure_run]
      refine ⟨_, rfl, ?_⟩
      simp only [Expression.tree?, hliteral, Leaf.piece, Piece.verbatim]

theorem startsPrimary_leaf (leaf : Leaf) : startsPrimary leaf.piece.type = true := by
  cases leaf with
  | boolean value => cases value <;> rfl
  | _ => rfl

theorem rounds_grammar {fuel : Nat} (hfuel : 0 < fuel) :
    (grammar parseBlockStatements fuel).rounds = fuel - 1 := by
  obtain ⟨fuel, rfl⟩ := Nat.exists_eq_add_one.mpr hfuel
  rfl

theorem parsePostfix_reads {fuel : Nat} {expr : Expression} {p' : Parser}
    (hahead : p.Ahead pieces) (hfuel : pieces.length + 1 < fuel)
    (hstarts : startsPrimary (nextType pieces) = true)
    (htoken : parseToken (grammar parseBlockStatements fuel) p.current p.advanced = .ok (expr, p'))
    (hahead' : p'.Ahead rest) (hstops : (nextType rest).binds < 16) :
    parsePostfix (grammar parseBlockStatements fuel) p = .ok (expr, p') := by
  have hrounds : (grammar parseBlockStatements fuel).rounds = fuel - 2 + 1 := by
    rw [rounds_grammar (by omega)]
    omega
  have hslash : p.current.type ≠ .tokenSlash := by
    intro htype
    rw [← hahead.type, htype] at hstarts
    exact Bool.false_ne_true hstarts
  have hlt : p.current.type ≠ .tokenLt := by
    intro htype
    rw [← hahead.type, htype] at hstarts
    exact Bool.false_ne_true hstarts
  have hprimary : parsePrimary (grammar parseBlockStatements fuel) p = .ok (expr, p') := by
    rw [parsePrimary_run _ hahead (by omega) hslash hlt, htoken]
  unfold parsePostfix
  rw [bind_of_ok _ hprimary, hrounds]
  exact parsePostfixLoop_stops _ _ expr hahead' hstops

theorem reads_leaf (unicode : Unicode) {leaf : Leaf} (hwritten : leaf.IsToken unicode) :
    Reads parseBlockStatements parsePostfix 16 [leaf.piece] (.leaf leaf) := by
  intro fuel p rest hahead hfuel hstops
  obtain ⟨expr, htoken, htree⟩ := parseToken_leaf (p := p.advanced) unicode
    (grammar parseBlockStatements fuel) hwritten hahead.1 hahead.2.1
  refine ⟨expr, p.advanced, ?_, htree, hahead.tail⟩
  exact parsePostfix_reads hahead hfuel (startsPrimary_leaf leaf) htoken hahead.tail hstops

theorem reads_parentheses (hinner : Reads parseBlockStatements parseSequence 1 pieces tree) :
    Reads parseBlockStatements parsePostfix 16
      (.symbol .tokenLParen :: (pieces ++ [.symbol .tokenRParen])) tree := by
  intro fuel p rest hahead hfuel hstops
  obtain ⟨fuel, rfl⟩ : ∃ below, fuel = below + 1 := ⟨fuel - 1, by omega⟩
  have hahead' : p.advanced.Ahead (pieces ++ (.symbol .tokenRParen :: rest)) := by
    simpa using hahead.tail
  obtain ⟨expr, p', hrun, htree, hclose⟩ := hinner fuel p.advanced _ hahead'
    (by simp at hfuel ⊢; omega) Nat.zero_lt_one
  refine ⟨expr, p'.advanced, ?_, htree, hclose.tail⟩
  apply parsePostfix_reads hahead hfuel rfl ?_ hclose.tail hstops
  have htype : p.current.type = .tokenLParen := hahead.1
  have hsequence : (grammar parseBlockStatements (fuel + 1)).parseSequence =
      parseSequence (grammar parseBlockStatements fuel) := rfl
  simp only [parseToken, htype, hsequence]
  have hexpect : expect .tokenRParen p' = .ok ((), p'.advanced) := expect_run hclose.1
  rw [bind_of_ok _ hrun, bind_of_ok _ hexpect]
  rfl

theorem parseUnary_primary (g : Productions) (hstarts : startsPrimary p.current.type = true) :
    parseUnary g p = parsePostfix g p := by
  unfold parseUnary
  rw [currentToken_bind]
  refine congrFun ?_ p
  split
  all_goals
    first
      | rfl
      | (rename_i htype; rw [htype] at hstarts; exact absurd hstarts Bool.false_ne_true)

theorem nextType_append (hne : pieces ≠ []) : nextType (pieces ++ rest) = nextType pieces := by
  cases pieces with
  | nil => contradiction
  | cons piece pieces => rfl

theorem reads_unary (hreads : Reads parseBlockStatements parsePostfix 16 pieces tree)
    (hne : pieces ≠ []) (hstarts : startsPrimary (nextType pieces) = true) :
    Reads parseBlockStatements parseUnary 15 pieces tree := by
  intro fuel p rest hahead hfuel hstops
  have htype : p.current.type = nextType pieces := hahead.type.trans (nextType_append hne)
  rw [parseUnary_primary _ (htype ▸ hstarts)]
  exact hreads fuel p rest hahead hfuel (by omega)

theorem parseUnary_prefixed (g : Productions) (operator : PrefixOperator)
    {value : Expression} {p' : Parser} (htype : p.current.type = operator.piece.type)
    (hvalue : g.parseUnary p.advanced = .ok (value, p')) (htree : value.tree? = some tree) :
    ∃ expr, parseUnary g p = .ok (expr, p') ∧ expr.tree? = some (.prefixed operator tree) := by
  unfold parseUnary
  rw [currentToken_bind]
  cases operator with
  | unary operator =>
      refine ⟨.unary (baseFrom p.current) operator value, ?_, by simp [Expression.tree?, htree]⟩
      cases operator <;>
        simp only [htype, PrefixOperator.piece, Piece.symbol, Piece.verbatim, parseUnaryOperator,
          advance_bind, bind_of_ok _ hvalue, pure_run]
  | typeof =>
      refine ⟨.typeof (baseFrom p.current) value, ?_, by simp [Expression.tree?, htree]⟩
      simp only [htype, PrefixOperator.piece, Piece.verbatim, advance_bind, bind_of_ok _ hvalue,
        pure_run]
  | await =>
      refine ⟨.await (baseFrom p.current) value, ?_, by simp [Expression.tree?, htree]⟩
      simp only [htype, PrefixOperator.piece, Piece.verbatim, parseAwaitExpression, advance_bind,
        bind_of_ok _ hvalue, pure_run]

theorem reads_prefixed (operator : PrefixOperator)
    (hreads : Reads parseBlockStatements parseUnary 15 pieces tree) :
    Reads parseBlockStatements parseUnary 15 (operator.piece :: pieces)
      (.prefixed operator tree) := by
  intro fuel p rest hahead hfuel hstops
  obtain ⟨fuel, rfl⟩ : ∃ below, fuel = below + 1 := ⟨fuel - 1, by omega⟩
  obtain ⟨value, p', hrun, htree, hahead'⟩ := hreads fuel p.advanced rest hahead.tail
    (by simp at hfuel ⊢; omega) hstops
  obtain ⟨expr, hexpr, htree'⟩ := parseUnary_prefixed (grammar parseBlockStatements (fuel + 1))
    operator hahead.1 hrun htree
  exact ⟨expr, p', hexpr, htree', hahead'⟩

theorem identifier_of_tree? {expr : Expression} {name : String}
    (htree : expr.tree? = some (.leaf (.identifier name))) : ∃ pos, expr = .identifier pos name := by
  cases expr with
  | identifier pos name' =>
      simp only [Expression.tree?, Option.some.injEq, OperatorTree.leaf.injEq,
        Leaf.identifier.injEq] at htree
      exact ⟨pos, by rw [htree]⟩
  | templateLiteral pos value expressions =>
      cases expressions <;> simp [Expression.tree?] at htree
  | update pos operator target isPrefix =>
      unfold Expression.tree? at htree
      split at htree <;> simp_all
  | _ =>
      simp [Expression.tree?, Option.bind_eq_some_iff] at htree

theorem reads_update (operator : UpdateOperator) (name : String)
    (hreads : Reads parseBlockStatements parseUnary 15 pieces (.leaf (.identifier name))) :
    Reads parseBlockStatements parseUnary 15 (operator.piece :: pieces)
      (.update operator name) := by
  intro fuel p rest hahead hfuel hstops
  obtain ⟨fuel, rfl⟩ : ∃ below, fuel = below + 1 := ⟨fuel - 1, by omega⟩
  obtain ⟨target, p', hrun, htree, hahead'⟩ := hreads fuel p.advanced rest hahead.tail
    (by simp at hfuel ⊢; omega) hstops
  obtain ⟨pos, rfl⟩ := identifier_of_tree? htree
  have hunary : (grammar parseBlockStatements (fuel + 1)).parseUnary p.advanced =
      .ok (.identifier pos name, p') := hrun
  have htype : p.current.type = operator.piece.type := hahead.1
  refine ⟨.update (baseFrom p.current) operator (.identifier pos name) true, p', ?_, rfl, hahead'⟩
  unfold parseUnary
  rw [currentToken_bind]
  cases operator <;>
    simp [htype, UpdateOperator.piece, Piece.symbol, Piece.verbatim, parsePrefixUpdate,
      bind_of_ok _ hunary, isAssignmentTarget, updateOperator]

theorem matchToken_stops {type : TokenType} (hahead : p.Ahead rest)
    (hstops : (nextType rest).binds < type.binds) : matchToken type p = .ok (false, p) := by
  have htype : p.current.type ≠ type := by
    intro htype
    rw [← hahead.type, htype] at hstops
    exact absurd hstops (Nat.lt_irrefl _)
  rw [matchToken_run, if_neg htype]

theorem reads_exponentiation (hreads : Reads parseBlockStatements parseUnary 15 pieces tree) :
    Reads parseBlockStatements parseExponentiation 14 pieces tree := by
  intro fuel p rest hahead hfuel hstops
  obtain ⟨expr, p', hrun, htree, hahead'⟩ := hreads fuel p rest hahead hfuel (by omega)
  have hmatch : matchToken .tokenPower p' = .ok (false, p') := matchToken_stops hahead' hstops
  refine ⟨expr, p', ?_, htree, hahead'⟩
  unfold parseExponentiation
  rw [bind_of_ok _ hrun, bind_of_ok _ hmatch]
  rfl

theorem reads_pow {base exponent : List Piece} {left right : OperatorTree}
    (hbase : Reads parseBlockStatements parseUnary 15 base left)
    (hexponent : Reads parseBlockStatements parseExponentiation 14 exponent right) :
    Reads parseBlockStatements parseExponentiation 14
      (base ++ (InfixOperator.binary .pow).piece :: exponent) (.binary (.binary .pow) left right) := by
  intro fuel p rest hahead hfuel hstops
  obtain ⟨fuel, rfl⟩ : ∃ below, fuel = below + 1 := ⟨fuel - 1, by omega⟩
  rw [List.append_assoc, List.cons_append] at hahead hfuel
  have hpower : (TokenType.tokenPower).binds < 15 := by decide
  obtain ⟨leftExpr, p₁, hleft, hleftTree, hahead₁⟩ := hbase (fuel + 1) p _ hahead hfuel hpower
  have hmatch : matchToken .tokenPower p₁ = .ok (true, p₁.advanced) := by
    rw [matchToken_run]
    exact if_pos hahead₁.1
  obtain ⟨rightExpr, p₂, hright, hrightTree, hahead₂⟩ := hexponent fuel p₁.advanced rest
    hahead₁.tail (by simp at hfuel ⊢; omega) hstops
  have hrecursive : (grammar parseBlockStatements (fuel + 1)).parseExponentiation p₁.advanced =
      .ok (rightExpr, p₂) := hright
  refine ⟨.binary leftExpr.pos .pow leftExpr rightExpr, p₂, ?_, ?_, hahead₂⟩
  · unfold parseExponentiation
    rw [bind_of_ok _ hleft, bind_of_ok _ hmatch]
    simp only [Bool.not_true, Bool.false_eq_true, if_false]
    rw [bind_of_ok _ hrecursive]
    rfl
  · simp [Expression.tree?, hleftTree, hrightTree]

end Reads

end Parser

end Jayess
