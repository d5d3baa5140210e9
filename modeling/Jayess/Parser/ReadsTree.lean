import Jayess.Parser.Levels
import Mathlib.Tactic.IntervalCases

/-!
# Reading a printed tree

By induction on a tree: from its printed tokens the parser reads `reading`, at every level that is as
loose as the place it is printed for.
-/

namespace Jayess.Parser

open OperatorTree

section ReadsTree

variable {parseBlockStatements : Productions → Parse (List Statement)}
variable {pieces : List Piece} {tree : OperatorTree}

theorem reads_conditional (hreads : Reads parseBlockStatements parseNullish 3 pieces tree) :
    Reads parseBlockStatements parseConditional 2 pieces tree := by
  intro fuel p rest hahead hfuel hstops
  obtain ⟨expr, p', hrun, htree, hahead'⟩ := hreads fuel p rest hahead hfuel (by omega)
  have hmatch : matchToken .tokenQuestion p' = .ok (false, p') := matchToken_stops hahead' hstops
  refine ⟨expr, p', ?_, htree, hahead'⟩
  unfold parseConditional
  rw [bind_of_ok _ hrun, bind_of_ok _ hmatch]
  rfl

theorem reads_ternary {condition consequent alternative : List Piece} {c t e : OperatorTree}
    (hcondition : Reads parseBlockStatements parseNullish 3 condition c)
    (hconsequent : Reads parseBlockStatements parseConditional 2 consequent t)
    (halternative : Reads parseBlockStatements parseConditional 2 alternative e) :
    Reads parseBlockStatements parseConditional 2
      (condition ++ .symbol .tokenQuestion ::
        (consequent ++ .symbol .tokenColon :: alternative)) (.conditional c t e) := by
  intro fuel p rest hahead hfuel hstops
  obtain ⟨fuel, rfl⟩ : ∃ below, fuel = below + 1 := ⟨fuel - 1, by omega⟩
  simp only [List.append_assoc, List.cons_append] at hahead hfuel
  obtain ⟨cExpr, p₁, hc, hcTree, hahead₁⟩ := hcondition (fuel + 1) p _ hahead hfuel
    (by exact Nat.lt_succ_self 2)
  have hmatch : matchToken .tokenQuestion p₁ = .ok (true, p₁.advanced) := by
    rw [matchToken_run]
    exact if_pos hahead₁.1
  simp only [List.length_append, List.length_cons] at hfuel
  obtain ⟨tExpr, p₂, ht, htTree, hahead₂⟩ := hconsequent fuel p₁.advanced _ hahead₁.tail
    (by simp only [List.length_append, List.length_cons]; omega) (by exact Nat.zero_lt_succ 1)
  have hexpect : expect .tokenColon p₂ = .ok ((), p₂.advanced) := expect_run hahead₂.1
  obtain ⟨eExpr, p₃, he, heTree, hahead₃⟩ := halternative fuel p₂.advanced rest hahead₂.tail
    (by simp only [List.length_append]; omega) hstops
  have hthen : (grammar parseBlockStatements (fuel + 1)).parseConditional p₁.advanced =
      .ok (tExpr, p₂) := ht
  have helse : (grammar parseBlockStatements (fuel + 1)).parseConditional p₂.advanced =
      .ok (eExpr, p₃) := he
  refine ⟨.conditional cExpr.pos cExpr tExpr eExpr, p₃, ?_, ?_, hahead₃⟩
  · unfold parseConditional
    rw [bind_of_ok _ hc, bind_of_ok _ hmatch]
    simp only [Bool.not_true, Bool.false_eq_true, if_false]
    rw [bind_of_ok _ hthen, bind_of_ok _ hexpect, bind_of_ok _ helse]
    rfl
  · simp [Expression.tree?, hcTree, htTree, heTree]

/-- What is read at a level of the operators of JavaScript. -/
def ReadsAt (parseBlockStatements : Productions → Parse (List Statement)) (level : Nat)
    (pieces : List Piece) (tree : OperatorTree) : Prop :=
  match level with
  | 1 => Reads parseBlockStatements parseSequence 1 pieces tree
  | 2 => Reads parseBlockStatements parseConditional 2 pieces tree
  | 3 => Reads parseBlockStatements parseNullish 3 pieces tree
  | 4 => Reads parseBlockStatements parseLogicalOr 4 pieces tree
  | 5 => Reads parseBlockStatements parseLogicalAnd 5 pieces tree
  | 6 => Reads parseBlockStatements parseBitwiseOr 6 pieces tree
  | 7 => Reads parseBlockStatements parseBitwiseXor 7 pieces tree
  | 8 => Reads parseBlockStatements parseBitwiseAnd 8 pieces tree
  | 9 | 10 => Reads parseBlockStatements parseComparison 9 pieces tree
  | 11 => Reads parseBlockStatements parseShift 11 pieces tree
  | 12 => Reads parseBlockStatements parseAdditive 12 pieces tree
  | 13 => Reads parseBlockStatements parseMultiplicative 13 pieces tree
  | 14 => Reads parseBlockStatements parseExponentiation 14 pieces tree
  | 15 => Reads parseBlockStatements parseUnary 15 pieces tree
  | 16 => Reads parseBlockStatements parsePostfix 16 pieces tree ∧
      pieces ≠ [] ∧ startsPrimary (nextType pieces) = true
  | _ => False

theorem ReadsAt.looser {level : Nat} (hpos : 0 < level)
    (hreads : ReadsAt parseBlockStatements (level + 1) pieces tree) :
    ReadsAt parseBlockStatements level pieces tree := by
  match level, hpos with
  | 1, _ => exact reads_level .sequence hreads
  | 2, _ => exact reads_conditional hreads
  | 3, _ => exact reads_level .nullish hreads
  | 4, _ => exact reads_level .logicalOr hreads
  | 5, _ => exact reads_level .logicalAnd hreads
  | 6, _ => exact reads_level .bitwiseOr hreads
  | 7, _ => exact reads_level .bitwiseXor hreads
  | 8, _ => exact reads_level .bitwiseAnd hreads
  | 9, _ => exact hreads
  | 10, _ => exact reads_level .comparison hreads
  | 11, _ => exact reads_level .shift hreads
  | 12, _ => exact reads_level .additive hreads
  | 13, _ => exact reads_level .multiplicative hreads
  | 14, _ => exact reads_exponentiation hreads
  | 15, _ => exact reads_unary hreads.1 hreads.2.1 hreads.2.2
  | level + 16, _ => exact hreads.elim

theorem ReadsAt.of_le {level tight : Nat} (hpos : 0 < level) (hle : level ≤ tight)
    (hreads : ReadsAt parseBlockStatements tight pieces tree) :
    ReadsAt parseBlockStatements level pieces tree := by
  induction hle with
  | refl => exact hreads
  | step hle ih => exact ih (hreads.looser (Nat.lt_of_lt_of_le hpos hle))

/-- The level of the parser that a level of JavaScript belongs to, where it associates to the
left. -/
def leftLevel : Nat → LeftLevel
  | 1 => .sequence
  | 3 => .nullish
  | 4 => .logicalOr
  | 5 => .logicalAnd
  | 6 => .bitwiseOr
  | 7 => .bitwiseXor
  | 8 => .bitwiseAnd
  | 9 | 10 => .comparison
  | 11 => .shift
  | 12 => .additive
  | _ => .multiplicative

/-- The levels that associate to the left: all but the conditional, `**` and what is tighter. -/
def IsLeft (level : Nat) : Prop := 0 < level ∧ level ≠ 2 ∧ level ≤ 13

theorem leftLevel_range {level : Nat} (hleft : IsLeft level) :
    (leftLevel level).low ≤ level ∧ level ≤ (leftLevel level).high ∧
      0 < (leftLevel level).low ∧ (leftLevel level).high ≤ 13 := by
  obtain ⟨hpos, hne, hle⟩ := hleft
  interval_cases level <;>
    first | contradiction | exact ⟨by decide, by decide, by decide, by decide⟩

theorem IsLeft.of_range {level other : Nat} (hleft : IsLeft level)
    (hlow : (leftLevel level).low ≤ other) (hhigh : other ≤ (leftLevel level).high) :
    IsLeft other := by
  obtain ⟨-, -, hpos, hle⟩ := leftLevel_range hleft
  refine ⟨by omega, ?_, by omega⟩
  rintro rfl
  obtain ⟨hpos', hne', hle'⟩ := hleft
  interval_cases level <;> contradiction

theorem leftLevel_eq {level other : Nat} (hleft : IsLeft level)
    (hlow : (leftLevel level).low ≤ other) (hhigh : other ≤ (leftLevel level).high) :
    leftLevel other = leftLevel level := by
  obtain ⟨hpos, hne, hle⟩ := hleft
  by_cases hcomparison : level = 9 ∨ level = 10
  · have hcases : other = 9 ∨ other = 10 := by
      rcases hcomparison with rfl | rfl
      all_goals
        change 9 ≤ other at hlow
        change other ≤ 10 at hhigh
        omega
    rcases hcomparison with rfl | rfl <;> rcases hcases with rfl | rfl <;> rfl
  · -- every other level stands alone
    have hsame : other = level := by
      interval_cases level <;>
        first | contradiction | omega | exact Nat.le_antisymm hhigh hlow
    rw [hsame]

theorem ReadsAt.next {level : Nat} (hleft : IsLeft level)
    (hreads : ReadsAt parseBlockStatements ((leftLevel level).high + 1) pieces tree) :
    Reads parseBlockStatements (leftLevel level).next ((leftLevel level).high + 1) pieces tree := by
  obtain ⟨hpos, hne, hle⟩ := hleft
  interval_cases level <;> first | contradiction | exact hreads

theorem ReadsAt.of_folds {level : Nat} (hleft : IsLeft level)
    (hfolds : Folds parseBlockStatements (leftLevel level) none pieces tree) :
    ReadsAt parseBlockStatements level pieces tree := by
  have hreads := reads_of_folds hfolds
  obtain ⟨hpos, hne, hle⟩ := hleft
  interval_cases level <;> first | contradiction | exact hreads

theorem InfixOperator.level_range (operator : InfixOperator) :
    0 < operator.level ∧ operator.level ≤ 14 := by
  cases operator with
  | comma | nullish | instanceof => exact ⟨by decide, by decide⟩
  | logical operator | binary operator | comparison operator =>
      cases operator <;> exact ⟨by decide, by decide⟩

theorem level_pos (tree : OperatorTree) : 0 < tree.level := by
  cases tree with
  | binary operator left right => exact (InfixOperator.level_range operator).1
  | _ => simp [OperatorTree.level]

theorem isRelational_iff (operator : InfixOperator) :
    isRelational operator = true ↔ operator.level = 10 := by
  cases operator with
  | comma | nullish | instanceof => decide
  | logical operator | binary operator | comparison operator => cases operator <;> decide

theorem isEquality_iff (operator : InfixOperator) :
    isEquality operator = true ↔ operator.level = 9 := by
  cases operator with
  | comma | nullish | instanceof => decide
  | logical operator | binary operator | comparison operator => cases operator <;> decide

theorem comparesRelation_iff (tree : OperatorTree) :
    tree.comparesRelation = true ↔ tree.level = 10 := by
  cases tree with
  | binary operator left right => exact isRelational_iff operator
  | _ => simp [comparesRelation, OperatorTree.level]

theorem leftMinimum_ge (operator : InfixOperator) (left : OperatorTree) :
    operator.level ≤ operator.leftMinimum left := by
  cases operator with
  | nullish =>
      simp only [InfixOperator.leftMinimum, InfixOperator.level]
      split <;> omega
  | binary operator => cases operator <;> simp [InfixOperator.leftMinimum, InfixOperator.level]
  | comma | logical _ | comparison _ | instanceof => exact Nat.le_refl _

/-- An operand to the right of an operator that associates to the left is tighter than the level of
the parser, but for the relational comparisons to the right of an equality operator. -/
theorem rightMinimum_gt {operator : InfixOperator} (hleft : IsLeft operator.level)
    (hequality : operator.level ≠ 9) :
    (leftLevel operator.level).high < operator.rightMinimum := by
  cases operator with
  | comma | nullish | instanceof => decide
  | logical operator => cases operator <;> decide
  | binary operator => cases operator <;> decide
  | comparison operator => cases operator <;> first | decide | contradiction

theorem readsAt_parenthesize {level minimum : Nat}
    (hreads : ReadsAt parseBlockStatements tree.level tree.pieces tree.reading) (hpos : 0 < level)
    (hle : level ≤ 16) (htight : tree.level < minimum ∨ level ≤ tree.level) :
    ReadsAt parseBlockStatements level (parenthesize minimum tree tree.pieces) tree.reading := by
  unfold parenthesize
  split
  · have hinner : ReadsAt parseBlockStatements 1 tree.pieces tree.reading :=
      hreads.of_le Nat.zero_lt_one (level_pos tree)
    have hparens : ReadsAt parseBlockStatements 16
        (.symbol .tokenLParen :: (tree.pieces ++ [.symbol .tokenRParen])) tree.reading :=
      ⟨reads_parentheses hinner, List.cons_ne_nil _ _, rfl⟩
    exact hparens.of_le hpos hle
  · exact hreads.of_le hpos (by omega)

theorem readingFrom_joined (before : Option (InfixOperator × OperatorTree))
    (hlevel : tree.level ≠ 10) : tree.readingFrom before = joined before tree.reading := by
  unfold reading
  cases tree with
  | binary operator left right =>
      have hrelational : isRelational operator = false :=
        Bool.eq_false_iff.mpr fun h => hlevel ((isRelational_iff operator).mp h)
      cases hequality : isEquality operator <;>
        simp [readingFrom, hrelational, hequality, joined]
  | _ => simp [readingFrom, joined]

/-- The tree is read at its own level; the loop of its level, if it has one, comes to it; and after
the left operand of a comparison it is read as `readingFrom` says. -/
structure ReadsPrinted (parseBlockStatements : Productions → Parse (List Statement))
    (tree : OperatorTree) : Prop where
  reads : ReadsAt parseBlockStatements tree.level tree.pieces tree.reading
  folds : IsLeft tree.level →
    Folds parseBlockStatements (leftLevel tree.level) none tree.pieces tree.reading
  compares : ∀ before, Folds parseBlockStatements .comparison before
    (parenthesize 10 tree tree.pieces) (tree.readingFrom before)

theorem compares_operand
    (hreads : ReadsAt parseBlockStatements tree.level tree.pieces tree.reading)
    (hlevel : tree.level ≠ 10) (before : Option (InfixOperator × OperatorTree)) :
    Folds parseBlockStatements .comparison before (parenthesize 10 tree tree.pieces)
      (tree.readingFrom before) := by
  rw [readingFrom_joined before hlevel]
  apply folds_operand
  exact readsAt_parenthesize hreads (by decide) (by decide) (by omega : _ ∨ 11 ≤ tree.level)

theorem readsPrinted_of_reads
    (hreads : ReadsAt parseBlockStatements tree.level tree.pieces tree.reading)
    (hleft : ¬IsLeft tree.level) : ReadsPrinted parseBlockStatements tree where
  reads := hreads
  folds h := absurd h hleft
  compares := compares_operand hreads fun hlevel => hleft (hlevel ▸ ⟨by decide, by decide, by decide⟩)

theorem ReadsPrinted.operand (hprinted : ReadsPrinted parseBlockStatements tree) {minimum : Nat}
    (hpos : 0 < minimum) (hle : minimum ≤ 16) :
    ReadsAt parseBlockStatements minimum (parenthesize minimum tree tree.pieces) tree.reading :=
  readsAt_parenthesize hprinted.reads hpos hle (Nat.lt_or_ge _ _)

section Binary

variable {operator : InfixOperator} {left right : OperatorTree}

theorem isLeft_of_ne_pow (hpow : operator ≠ .binary .pow) : IsLeft operator.level := by
  cases operator with
  | comma | nullish | instanceof => exact ⟨by decide, by decide, by decide⟩
  | logical operator | comparison operator =>
      cases operator <;> exact ⟨by decide, by decide, by decide⟩
  | binary operator =>
      cases operator <;> first | exact ⟨by decide, by decide, by decide⟩ | contradiction

theorem ReadsPrinted.leftOperand (hprinted : ReadsPrinted parseBlockStatements left)
    (hleft : IsLeft operator.level) :
    Folds parseBlockStatements (leftLevel operator.level) none
      (parenthesize (operator.leftMinimum left) left left.pieces) left.reading := by
  obtain ⟨hlow, hhigh, hpos, hle⟩ := leftLevel_range hleft
  have hminimum := leftMinimum_ge operator left
  by_cases hbare : operator.leftMinimum left ≤ left.level ∧
      left.level ≤ (leftLevel operator.level).high
  · have hsame : leftLevel left.level = leftLevel operator.level :=
      leftLevel_eq hleft (by omega) hbare.2
    have hpieces : parenthesize (operator.leftMinimum left) left left.pieces = left.pieces :=
      if_neg (by omega)
    rw [hpieces, ← hsame]
    exact hprinted.folds (hleft.of_range (by omega) hbare.2)
  · apply folds_operand
    apply ReadsAt.next hleft
    exact readsAt_parenthesize hprinted.reads (by omega) (by omega) (by omega)

theorem leftLevel_comparison (hlevel : operator.level = 9 ∨ operator.level = 10) :
    leftLevel operator.level = .comparison := by
  rcases hlevel with h | h <;> rw [h] <;> rfl

theorem minimum_of_comparison (left : OperatorTree)
    (hlevel : operator.level = 9 ∨ operator.level = 10) :
    operator.leftMinimum left = operator.level ∧ operator.rightMinimum = operator.level + 1 := by
  rcases comparison_of_level (by omega : 9 ≤ operator.level) (by omega) with rfl | ⟨comparison, rfl⟩
  · exact ⟨rfl, rfl⟩
  · cases comparison <;> exact ⟨rfl, rfl⟩

theorem ReadsPrinted.rightOperand (hprinted : ReadsPrinted parseBlockStatements right)
    (hleft : IsLeft operator.level) (before : OperatorTree) :
    Folds parseBlockStatements (leftLevel operator.level) (some (operator, before))
      (parenthesize operator.rightMinimum right right.pieces)
      (if isEquality operator then right.readingFrom (some (operator, before))
        else .binary operator before right.reading) := by
  obtain ⟨hlow, hhigh, hpos, hle⟩ := leftLevel_range hleft
  by_cases hlevel : operator.level = 9
  · rw [if_pos ((isEquality_iff operator).mpr hlevel), leftLevel_comparison (.inl hlevel)]
    rw [(minimum_of_comparison before (.inl hlevel)).2, hlevel]
    exact hprinted.compares _
  · rw [if_neg (mt (isEquality_iff operator).mp hlevel)]
    apply folds_operand
    apply ReadsAt.next hleft
    have hminimum := rightMinimum_gt hleft hlevel
    exact readsAt_parenthesize hprinted.reads (by omega) (by omega) (by omega)

theorem reading_binary (operator : InfixOperator) (left right : OperatorTree) :
    (OperatorTree.binary operator left right).reading =
      if isEquality operator then right.readingFrom (some (operator, left.reading))
      else .binary operator left.reading right.reading := by
  unfold reading
  by_cases hrelational : isRelational operator = true
  · have hequality : ¬isEquality operator = true := by
      rw [isEquality_iff, (isRelational_iff operator).mp hrelational]
      decide
    simp [readingFrom, hrelational, hequality]
  · simp only [readingFrom, hrelational, joined]
    rfl

theorem readsPrinted_binary (hleft : ReadsPrinted parseBlockStatements left)
    (hright : ReadsPrinted parseBlockStatements right) (hlevel : IsLeft operator.level) :
    ReadsPrinted parseBlockStatements (.binary operator left right) := by
  obtain ⟨hlow, hhigh, -, -⟩ := leftLevel_range hlevel
  have hfolds : Folds parseBlockStatements (leftLevel operator.level) none
      (OperatorTree.binary operator left right).pieces
      (OperatorTree.binary operator left right).reading := by
    rw [reading_binary]
    exact folds_binary hlow hhigh (hleft.leftOperand hlevel) (hright.rightOperand hlevel left.reading)
  have hreads : ReadsAt parseBlockStatements operator.level
      (OperatorTree.binary operator left right).pieces
      (OperatorTree.binary operator left right).reading := .of_folds hlevel hfolds
  refine ⟨hreads, fun _ => hfolds, fun before => ?_⟩
  by_cases hrelational : operator.level = 10
  · have hoperator : isRelational operator = true := (isRelational_iff operator).mpr hrelational
    have hreading : (OperatorTree.binary operator left right).readingFrom before =
        .binary operator (left.readingFrom before) right.reading := by
      simp [readingFrom, hoperator, reading]
    obtain ⟨hminimum, hminimum'⟩ := minimum_of_comparison left (.inr hrelational)
    have hpieces : parenthesize 10 (.binary operator left right)
        (OperatorTree.binary operator left right).pieces =
          parenthesize 10 left left.pieces ++
            operator.piece :: parenthesize 11 right right.pieces := by
      have hbare : ¬(OperatorTree.binary operator left right).level < 10 := by
        simp [OperatorTree.level, hrelational]
      rw [parenthesize, if_neg hbare, pieces, hminimum, hminimum', hrelational]
    rw [hreading, hpieces]
    have hoperand : Folds parseBlockStatements .comparison (some (operator, left.readingFrom before))
        (parenthesize 11 right right.pieces)
        (.binary operator (left.readingFrom before) right.reading) :=
      folds_operand (hright.operand (by decide : 0 < 11) (by decide))
    have hcomparison : LeftLevel.comparison.low ≤ operator.level ∧
        operator.level ≤ LeftLevel.comparison.high := by
      rw [hrelational]
      exact ⟨by decide, by decide⟩
    exact folds_binary hcomparison.1 hcomparison.2 (hleft.compares before) hoperand
  · have hlevel : (OperatorTree.binary operator left right).level ≠ 10 := hrelational
    exact compares_operand hreads hlevel before

theorem readsPrinted_pow (hleft : ReadsPrinted parseBlockStatements left)
    (hright : ReadsPrinted parseBlockStatements right) :
    ReadsPrinted parseBlockStatements (.binary (.binary .pow) left right) := by
  have hbase : ReadsAt parseBlockStatements 15 (parenthesize 16 left left.pieces) left.reading :=
    (hleft.operand (by decide) (Nat.le_refl 16)).looser (by decide)
  have hexponent : ReadsAt parseBlockStatements 14 (parenthesize 14 right right.pieces)
      right.reading := hright.operand (by decide) (by decide)
  apply readsPrinted_of_reads
  · exact reads_pow hbase hexponent
  · intro hlevel
    exact absurd hlevel.2.2 (show ¬(14 ≤ 13) by decide)

end Binary

theorem readsPrinted (unicode : Unicode) (tree : OperatorTree) (hwritten : tree.IsWritten unicode) :
    ReadsPrinted parseBlockStatements tree := by
  induction tree with
  | leaf leaf =>
      apply readsPrinted_of_reads
      · exact ⟨reads_leaf unicode hwritten, List.cons_ne_nil _ _, startsPrimary_leaf leaf⟩
      · exact fun hlevel => absurd hlevel.2.2 (show ¬(16 ≤ 13) by decide)
  | update operator name =>
      have hname : ReadsAt parseBlockStatements 16 [(Leaf.identifier name).piece]
          (.leaf (.identifier name)) :=
        ⟨reads_leaf unicode hwritten, List.cons_ne_nil _ _, rfl⟩
      have hunary : ReadsAt parseBlockStatements 15 [(Leaf.identifier name).piece]
          (.leaf (.identifier name)) := hname.looser (by decide)
      apply readsPrinted_of_reads
      · exact reads_update operator name hunary
      · exact fun hlevel => absurd hlevel.2.2 (show ¬(15 ≤ 13) by decide)
  | prefixed operator operand ih =>
      have hoperand : ReadsAt parseBlockStatements 15 (parenthesize 15 operand operand.pieces)
          operand.reading := (ih hwritten).operand (by decide) (by decide)
      apply readsPrinted_of_reads
      · exact reads_prefixed operator hoperand
      · exact fun hlevel => absurd hlevel.2.2 (show ¬(15 ≤ 13) by decide)
  | binary operator left right ihl ihr =>
      have hleft := ihl hwritten.1
      have hright := ihr hwritten.2
      by_cases hpow : operator = .binary .pow
      · rw [hpow]
        exact readsPrinted_pow hleft hright
      · exact readsPrinted_binary hleft hright (isLeft_of_ne_pow hpow)
  | conditional condition consequent alternative ihc iht ihe =>
      have hcondition : ReadsAt parseBlockStatements 3 (parenthesize 3 condition condition.pieces)
          condition.reading := (ihc hwritten.1).operand (by decide) (by decide)
      have hconsequent : ReadsAt parseBlockStatements 2 (parenthesize 2 consequent consequent.pieces)
          consequent.reading := (iht hwritten.2.1).operand (by decide) (by decide)
      have halternative : ReadsAt parseBlockStatements 2
          (parenthesize 2 alternative alternative.pieces) alternative.reading :=
        (ihe hwritten.2.2).operand (by decide) (by decide)
      apply readsPrinted_of_reads
      · exact reads_ternary hcondition hconsequent halternative
      · exact fun hlevel => absurd hlevel.2.1 (by decide : ¬(2 ≠ 2))

end ReadsTree

end Jayess.Parser
