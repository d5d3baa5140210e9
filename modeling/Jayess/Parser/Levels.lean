import Jayess.Parser.Reads

/-!
# The levels that associate to the left
-/

namespace Jayess.Parser

open OperatorTree

/-- A level whose operators associate to the left: its production, the production of its operands,
and the range of levels its operators have in JavaScript. -/
structure LeftLevel where
  parse : Productions → Parse Expression
  next : Productions → Parse Expression
  continues : TokenType → Bool
  build : TokenType → Expression → Expression → Expression
  low : Nat
  high : Nat
  low_le_high : low ≤ high
  parse_eq : ∀ g, parse g = parseLeft g (next g) continues build
  continues_iff : ∀ type : TokenType, continues type = true ↔ low ≤ type.binds ∧ type.binds ≤ high
  tree_build : ∀ (operator : InfixOperator) (left right : Expression) (l r : OperatorTree),
    low ≤ operator.level → operator.level ≤ high → left.tree? = some l → right.tree? = some r →
      (build operator.piece.type left right).tree? = some (.binary operator l r)

theorem binaryOperator_piece (operator : BinaryOperator) :
    binaryOperator (InfixOperator.binary operator).piece.type = operator := by
  cases operator <;> rfl

theorem binary_of_level {operator : InfixOperator}
    (hlevel : 6 ≤ operator.level ∧ operator.level ≤ 8 ∨ 11 ≤ operator.level) :
    ∃ arithmetic, operator = .binary arithmetic := by
  cases operator with
  | binary arithmetic => exact ⟨arithmetic, rfl⟩
  | logical operator => cases operator <;> simp [InfixOperator.level] at hlevel
  | comparison operator => cases operator <;> simp [InfixOperator.level] at hlevel
  | comma | nullish | instanceof => simp [InfixOperator.level] at hlevel

theorem eq_of_level {operator only : InfixOperator} (honly : only.level ≤ 5)
    (hlevel : operator.level = only.level) : operator = only := by
  have hloose : operator.level ≤ 5 := hlevel ▸ honly
  have hcases : ∀ loose : InfixOperator, loose.level ≤ 5 →
      loose = .comma ∨ loose = .nullish ∨ loose = .logical .or ∨ loose = .logical .and := by
    intro loose hle
    cases loose with
    | comma => exact .inl rfl
    | nullish => exact .inr (.inl rfl)
    | logical loose =>
        cases loose with
        | or => exact .inr (.inr (.inl rfl))
        | and => exact .inr (.inr (.inr rfl))
    | binary loose => cases loose <;> simp [InfixOperator.level] at hle
    | comparison loose => cases loose <;> simp [InfixOperator.level] at hle
    | instanceof => simp [InfixOperator.level] at hle
  rcases hcases operator hloose with rfl | rfl | rfl | rfl <;>
    rcases hcases only honly with rfl | rfl | rfl | rfl <;>
    first | rfl | (simp [InfixOperator.level] at hlevel)

theorem comparison_of_level {operator : InfixOperator} (hlow : 9 ≤ operator.level)
    (hhigh : operator.level ≤ 10) :
    operator = .instanceof ∨ ∃ comparison, operator = .comparison comparison := by
  cases operator with
  | instanceof => exact .inl rfl
  | comparison comparison => exact .inr ⟨comparison, rfl⟩
  | logical operator => cases operator <;> simp [InfixOperator.level] at hlow
  | binary operator => cases operator <;> simp [InfixOperator.level] at hlow hhigh
  | comma | nullish => simp [InfixOperator.level] at hlow

theorem comparisonOperator_piece (operator : ComparisonOperator) :
    comparisonOperator (InfixOperator.comparison operator).piece.type = operator ∧
      (InfixOperator.comparison operator).piece.type ≠ .tokenInstanceof := by
  cases operator <;> exact ⟨rfl, by decide⟩

namespace LeftLevel

/-- A level made by `parseBinaryLeft`. -/
def ofBinary (parse next : Productions → Parse Expression) (tokenTypes : List TokenType) (low : Nat)
    (hlow : 6 ≤ low ∧ low ≤ 8 ∨ 11 ≤ low)
    (hparse : ∀ g, parse g = parseBinaryLeft g (next g) tokenTypes)
    (hcontinues : ∀ type, tokenTypes.contains type = decide (type.binds = low)) : LeftLevel where
  parse
  next
  continues token := tokenTypes.contains token
  build operator left right := .binary left.pos (binaryOperator operator) left right
  low
  high := low
  low_le_high := Nat.le_refl _
  parse_eq := hparse
  continues_iff type := by
    rw [hcontinues, decide_eq_true_iff]
    omega
  tree_build operator left right l r hge hle hleft hright := by
    have hlevel : 6 ≤ operator.level ∧ operator.level ≤ 8 ∨ 11 ≤ operator.level := by omega
    obtain ⟨arithmetic, rfl⟩ := binary_of_level hlevel
    rw [binaryOperator_piece]
    simp [Expression.tree?, hleft, hright]

def multiplicative : LeftLevel :=
  ofBinary parseMultiplicative parseExponentiation [.tokenStar, .tokenSlash, .tokenPercent] 13
    (by decide) (fun _ => rfl) (fun type => by cases type <;> rfl)

def additive : LeftLevel :=
  ofBinary parseAdditive parseMultiplicative [.tokenPlus, .tokenMinus] 12 (by decide)
    (fun _ => rfl) (fun type => by cases type <;> rfl)

def shift : LeftLevel :=
  ofBinary parseShift parseAdditive [.tokenShiftLeft, .tokenShiftRight, .tokenUnsignedShift] 11
    (by decide) (fun _ => rfl) (fun type => by cases type <;> rfl)

def bitwiseAnd : LeftLevel :=
  ofBinary parseBitwiseAnd parseComparison [.tokenBitAnd] 8 (by decide) (fun _ => rfl)
    (fun type => by cases type <;> rfl)

def bitwiseXor : LeftLevel :=
  ofBinary parseBitwiseXor parseBitwiseAnd [.tokenBitXor] 7 (by decide) (fun _ => rfl)
    (fun type => by cases type <;> rfl)

def bitwiseOr : LeftLevel :=
  ofBinary parseBitwiseOr parseBitwiseXor [.tokenBitOr] 6 (by decide) (fun _ => rfl)
    (fun type => by cases type <;> rfl)

/-- A level with one operator. -/
def ofOperator (parse next : Productions → Parse Expression) (token : TokenType)
    (build : Expression → Expression → Expression) (only : InfixOperator) (hlevel : only.level ≤ 5)
    (hparse : ∀ g, parse g = parseLeft g (next g) (· = token) fun _ left right => build left right)
    (hbinds : ∀ type, decide (type = token) = decide (type.binds = only.level))
    (htree : ∀ left right l r, left.tree? = some l → right.tree? = some r →
      (build left right).tree? = some (.binary only l r)) : LeftLevel where
  parse
  next
  continues type := type = token
  build _ left right := build left right
  low := only.level
  high := only.level
  low_le_high := Nat.le_refl _
  parse_eq := hparse
  continues_iff type := by
    rw [hbinds, decide_eq_true_iff]
    omega
  tree_build operator left right l r hge hle hleft hright := by
    rw [eq_of_level hlevel (by omega : operator.level = only.level)]
    exact htree left right l r hleft hright

def logicalAnd : LeftLevel :=
  ofOperator parseLogicalAnd parseBitwiseOr .tokenAnd
    (fun left right => .logical left.pos .and left right) (.logical .and) (by decide) (fun _ => rfl)
    (fun type => by cases type <;> rfl)
    (fun left right l r hleft hright => by simp [Expression.tree?, hleft, hright])

def logicalOr : LeftLevel :=
  ofOperator parseLogicalOr parseLogicalAnd .tokenOr
    (fun left right => .logical left.pos .or left right) (.logical .or) (by decide) (fun _ => rfl)
    (fun type => by cases type <;> rfl)
    (fun left right l r hleft hright => by simp [Expression.tree?, hleft, hright])

def nullish : LeftLevel :=
  ofOperator parseNullish parseLogicalOr .tokenNullish
    (fun left right => .nullishCoalesce left.pos left right) .nullish (by decide) (fun _ => rfl)
    (fun type => by cases type <;> rfl)
    (fun left right l r hleft hright => by simp [Expression.tree?, hleft, hright])

def sequence : LeftLevel :=
  ofOperator parseSequence parseConditional .tokenComma
    (fun left right => .comma left.pos left right) .comma (by decide) (fun _ => rfl)
    (fun type => by cases type <;> rfl)
    (fun left right l r hleft hright => by simp [Expression.tree?, hleft, hright])

/-- Both the equality and the relational operators. -/
def comparison : LeftLevel where
  parse := parseComparison
  next := parseShift
  continues := isComparisonToken
  build operator left right :=
    if operator = .tokenInstanceof then .instanceof left.pos left right
    else .comparison left.pos (comparisonOperator operator) left right
  low := 9
  high := 10
  low_le_high := by decide
  parse_eq _ := rfl
  continues_iff type := by
    have hcontinues : isComparisonToken type = decide (9 ≤ type.binds ∧ type.binds ≤ 10) := by
      cases type <;> rfl
    rw [hcontinues, decide_eq_true_iff]
  tree_build operator left right l r hge hle hleft hright := by
    rcases comparison_of_level hge hle with rfl | ⟨comparison, rfl⟩
    · simp [Expression.tree?, hleft, hright, InfixOperator.piece, Piece.verbatim]
    · obtain ⟨hoperator, hinstanceof⟩ := comparisonOperator_piece comparison
      simp [Expression.tree?, hleft, hright, hoperator, hinstanceof]

end LeftLevel

section Folds

variable {parseBlockStatements : Productions → Parse (List Statement)}

/-- The run is where the loop of the level goes on with an expression of the tree, after at most this
many rounds. -/
def Reaches (level : LeftLevel) (g : Productions)
    (result : Except ParseError (Expression × Parser)) (rounds spent : Nat) (tree : OperatorTree)
    (rest : List Piece) : Prop :=
  ∃ expr p' left,
    result = parseLeftLoop (level.next g) level.continues level.build left expr p' ∧
      rounds ≤ left + spent ∧ expr.tree? = some tree ∧ p'.Ahead rest

/-- The loop reads the tree from these tokens when it has read the left operand of an operator, if
any, before. -/
def Folds (parseBlockStatements : Productions → Parse (List Statement)) (level : LeftLevel)
    (before : Option (InfixOperator × OperatorTree)) (pieces : List Piece) (tree : OperatorTree) :
    Prop :=
  ∀ fuel rounds (combine : Expression → Expression) p rest,
    (∀ expr operand, expr.tree? = some operand →
      (combine expr).tree? = some (joined before operand)) →
    p.Ahead (pieces ++ rest) → (pieces ++ rest).length + 1 < fuel →
    (pieces ++ rest).length < rounds → (nextType rest).binds ≤ level.high →
    Reaches level (grammar parseBlockStatements fuel)
      ((level.next (grammar parseBlockStatements fuel) >>= fun operand =>
        parseLeftLoop (level.next (grammar parseBlockStatements fuel)) level.continues level.build
          rounds (combine operand)) p) rounds pieces.length tree rest

variable {level : LeftLevel} {before : Option (InfixOperator × OperatorTree)}
variable {pieces operandPieces : List Piece} {tree operand : OperatorTree} {operator : InfixOperator}

theorem folds_operand (hreads : Reads parseBlockStatements level.next (level.high + 1) pieces tree) :
    Folds parseBlockStatements level before pieces (joined before tree) := by
  intro fuel rounds combine p rest hcombine hahead hfuel hrounds hstops
  obtain ⟨expr, p', hrun, htree, hahead'⟩ := hreads fuel p rest hahead hfuel (by omega)
  refine ⟨combine expr, p', rounds, ?_, by omega, hcombine expr tree htree, hahead'⟩
  rw [bind_of_ok _ hrun]

theorem parseLeftLoop_continues (g : Productions) (rounds : Nat) (left : Expression) {p : Parser}
    {rest : List Piece} (hlow : level.low ≤ operator.level) (hhigh : operator.level ≤ level.high)
    (hahead : p.Ahead (operator.piece :: rest)) :
    parseLeftLoop (level.next g) level.continues level.build (rounds + 1) left p =
      (level.next g >>= fun right =>
        parseLeftLoop (level.next g) level.continues level.build rounds
          (level.build operator.piece.type left right)) p.advanced := by
  have htype : p.current.type = operator.piece.type := hahead.1
  have hcontinues : level.continues operator.piece.type = true := by
    rw [level.continues_iff, operator.binds_piece]
    exact ⟨hlow, hhigh⟩
  rw [parseLeftLoop, currentType_bind, htype, hcontinues]
  rfl

theorem parseLeftLoop_stops (g : Productions) (rounds : Nat) (left : Expression) {p : Parser}
    {rest : List Piece} (hahead : p.Ahead rest) (hstops : (nextType rest).binds < level.low) :
    parseLeftLoop (level.next g) level.continues level.build (rounds + 1) left p = .ok (left, p) := by
  have hcontinues : level.continues p.current.type = false := by
    rw [Bool.eq_false_iff, ne_eq, level.continues_iff, hahead.type]
    omega
  rw [parseLeftLoop, currentType_bind, hcontinues]
  rfl

theorem folds_binary {left right : OperatorTree} (hlow : level.low ≤ operator.level)
    (hhigh : operator.level ≤ level.high)
    (hleft : Folds parseBlockStatements level before pieces left)
    (hright : Folds parseBlockStatements level (some (operator, left)) operandPieces right) :
    Folds parseBlockStatements level before (pieces ++ operator.piece :: operandPieces) right := by
  intro fuel rounds combine p rest hcombine hahead hfuel hrounds hstops
  rw [List.append_assoc, List.cons_append] at hahead hfuel hrounds
  have hbinds : (nextType (operator.piece :: (operandPieces ++ rest))).binds ≤ level.high := by
    rw [nextType, operator.binds_piece]
    exact hhigh
  obtain ⟨leftExpr, p₁, left₁, hrun, hspent, hleftTree, hahead₁⟩ :=
    hleft fuel rounds combine p _ hcombine hahead hfuel hrounds hbinds
  simp only [List.length_append, List.length_cons] at hfuel hrounds
  obtain ⟨left₁, rfl⟩ : ∃ below, left₁ = below + 1 := ⟨left₁ - 1, by omega⟩
  have hcombine' : ∀ expr operand, expr.tree? = some operand →
      (level.build operator.piece.type leftExpr expr).tree? =
        some (joined (some (operator, left)) operand) :=
    fun expr operand hoperand =>
      level.tree_build operator leftExpr expr left operand hlow hhigh hleftTree hoperand
  obtain ⟨expr, p₂, left₂, hrun₂, hspent₂, htree, hahead₂⟩ :=
    hright fuel left₁ _ p₁.advanced rest hcombine' hahead₁.tail
      (by simp only [List.length_append]; omega) (by simp only [List.length_append]; omega) hstops
  refine ⟨expr, p₂, left₂, ?_, ?_, htree, hahead₂⟩
  · rw [hrun, parseLeftLoop_continues _ left₁ leftExpr hlow hhigh hahead₁, hrun₂]
  · simp only [List.length_append, List.length_cons]
    omega

theorem reads_of_folds (hfolds : Folds parseBlockStatements level none pieces tree) :
    Reads parseBlockStatements level.parse level.low pieces tree := by
  intro fuel p rest hahead hfuel hstops
  have hle := level.low_le_high
  have hrounds : (grammar parseBlockStatements fuel).rounds = fuel - 1 := rounds_grammar (by omega)
  obtain ⟨expr, p', left, hrun, hspent, htree, hahead'⟩ :=
    hfolds fuel (fuel - 1) id p rest (fun _ _ h => h) hahead hfuel (by omega) (by omega)
  simp only [List.length_append] at hfuel
  obtain ⟨left, rfl⟩ : ∃ below, left = below + 1 := ⟨left - 1, by omega⟩
  refine ⟨expr, p', ?_, htree, hahead'⟩
  rw [level.parse_eq, parseLeft, hrounds]
  exact hrun.trans (parseLeftLoop_stops _ left expr hahead' hstops)

theorem reads_level (level : LeftLevel)
    (hreads : Reads parseBlockStatements level.next (level.high + 1) pieces tree) :
    Reads parseBlockStatements level.parse level.low pieces tree :=
  reads_of_folds (folds_operand hreads)

end Folds

end Jayess.Parser
