import Jayess.Parser.Spelling

/-!
# Printing and parsing

Parsing the printed text of a tree gives its `reading`, which is the tree itself exactly when no
equality comparison has a relational one as its right operand.
-/

namespace Jayess.Parser

open OperatorTree

variable (parseBlockStatements : Productions → Parse (List Statement)) {unicode : Unicode}
variable {tree : OperatorTree}

theorem pieces_cons (tree : OperatorTree) : ∃ piece rest, tree.pieces = piece :: rest := by
  cases hpieces : tree.pieces with
  | cons piece rest => exact ⟨piece, rest, rfl⟩
  | nil => cases tree <;> simp [OperatorTree.pieces] at hpieces

theorem parseSource_print (hwritten : tree.IsWritten unicode) :
    ∃ bound, ∀ fuel, bound ≤ fuel → ∃ expr,
      parseSource parseBlockStatements unicode fuel tree.print = .ok expr ∧
        expr.tree? = some tree.reading := by
  refine ⟨tree.pieces.length + 3, fun fuel hfuel => ?_⟩
  obtain ⟨fuel, rfl⟩ : ∃ below, fuel = below + 1 := ⟨fuel - 1, by omega⟩
  obtain ⟨piece, rest, hpieces⟩ := pieces_cons tree
  have hahead : (Parser.new unicode tree.print).Ahead (tree.pieces ++ []) := by
    have hprint : tree.print = Lexer.spaced (piece :: rest) := by rw [← hpieces]; rfl
    rw [List.append_nil, hpieces, hprint]
    exact ahead_new (hpieces ▸ Lexer.printable_tree hwritten)
  have hreads : ReadsAt parseBlockStatements 1 tree.pieces tree.reading :=
    (readsPrinted unicode tree hwritten).reads.of_le Nat.zero_lt_one (level_pos tree)
  obtain ⟨expr, p', hrun, htree, hend⟩ := hreads fuel _ [] hahead
    (by rw [List.append_nil]; omega) Nat.zero_lt_one
  refine ⟨expr, ?_, htree⟩
  have hsequence : (grammar parseBlockStatements (fuel + 1)).parseSequence
      (Parser.new unicode tree.print) = .ok (expr, p') := hrun
  have hcurrent : p'.current.type = .tokenEOF := hend
  unfold parseSource parseExpression
  rw [bind_of_ok _ hsequence, currentType_bind, hcurrent]
  rfl

theorem reading_of_comparesLeft (hcompares : tree.ComparesLeft) : tree.reading = tree := by
  induction tree with
  | leaf | update => rfl
  | prefixed operator operand ih =>
      have hoperand : operand.readingFrom none = operand := ih hcompares
      simp [reading, readingFrom, joined, hoperand]
  | conditional condition consequent alternative ihc iht ihe =>
      have hc : condition.readingFrom none = condition := ihc hcompares.1
      have ht : consequent.readingFrom none = consequent := iht hcompares.2.1
      have he : alternative.readingFrom none = alternative := ihe hcompares.2.2
      simp [reading, readingFrom, joined, hc, ht, he]
  | binary operator left right ihl ihr =>
      obtain ⟨hright, hleft', hright'⟩ := hcompares
      rw [reading_binary, ihl hleft', ihr hright']
      split
      · rename_i hequality
        have hlevel : right.level ≠ 10 := by
          rw [ne_eq, ← comparesRelation_iff, hright hequality]
          exact Bool.false_ne_true
        rw [readingFrom_joined _ hlevel, ihr hright']
        rfl
      · rfl

theorem readingFrom_ne (before : Option (InfixOperator × OperatorTree)) (hlevel : tree.level = 10)
    {operator : InfixOperator} (hequality : isEquality operator = true) {left right : OperatorTree} :
    tree.readingFrom before ≠ .binary operator left right := by
  cases tree with
  | binary relational l r =>
      have hrelational : isRelational relational = true := (isRelational_iff relational).mpr hlevel
      intro hreading
      simp only [readingFrom, hrelational, if_true, OperatorTree.binary.injEq] at hreading
      rw [hreading.1, isRelational_iff, (isEquality_iff operator).mp hequality] at hrelational
      exact absurd hrelational (by decide)
  | leaf | update | prefixed | conditional => simp [OperatorTree.level] at hlevel

theorem comparesLeft_of_reading (hreading : tree.reading = tree) : tree.ComparesLeft := by
  induction tree with
  | leaf | update => trivial
  | prefixed operator operand ih =>
      simp only [reading, readingFrom, joined, prefixed.injEq, true_and] at hreading
      exact ih hreading
  | conditional condition consequent alternative ihc iht ihe =>
      simp only [reading, readingFrom, joined, conditional.injEq] at hreading
      exact ⟨ihc hreading.1, iht hreading.2.1, ihe hreading.2.2⟩
  | binary operator left right ihl ihr =>
      rw [reading_binary] at hreading
      by_cases hequality : isEquality operator = true
      · rw [if_pos hequality] at hreading
        have hlevel : right.level ≠ 10 := by
          intro hlevel
          exact readingFrom_ne (some (operator, left.reading)) hlevel hequality hreading
        rw [readingFrom_joined _ hlevel] at hreading
        simp only [joined, OperatorTree.binary.injEq, true_and] at hreading
        refine ⟨fun _ => ?_, ihl hreading.1, ihr hreading.2⟩
        rw [Bool.eq_false_iff, ne_eq, comparesRelation_iff]
        exact hlevel
      · rw [if_neg hequality] at hreading
        simp only [OperatorTree.binary.injEq, true_and] at hreading
        exact ⟨fun h => absurd h hequality, ihl hreading.1, ihr hreading.2⟩

theorem reading_of_roundTrips (hwritten : tree.IsWritten unicode)
    (hround : tree.RoundTrips parseBlockStatements unicode) : tree.reading = tree := by
  obtain ⟨bound, hparses⟩ := parseSource_print parseBlockStatements hwritten
  obtain ⟨bound', hround⟩ := hround
  obtain ⟨expr, hexpr, htree⟩ := hparses (max bound bound') (Nat.le_max_left _ _)
  obtain ⟨expr', hexpr', htree'⟩ := hround (max bound bound') (Nat.le_max_right _ _)
  rw [hexpr, Except.ok.injEq] at hexpr'
  rwa [← hexpr', htree, Option.some.injEq] at htree'

/-- **Printing and parsing give the tree back** exactly for the trees in which no equality comparison
has a relational comparison as its right operand. The grammar of statements, which expressions enter
only through the body of a function, may be any. -/
theorem roundTrips_iff (hwritten : tree.IsWritten unicode) :
    tree.RoundTrips parseBlockStatements unicode ↔ tree.ComparesLeft := by
  constructor
  · intro hround
    exact comparesLeft_of_reading (reading_of_roundTrips parseBlockStatements hwritten hround)
  · intro hcompares
    obtain ⟨bound, hparses⟩ := parseSource_print parseBlockStatements hwritten
    refine ⟨bound, fun fuel hfuel => ?_⟩
    obtain ⟨expr, hexpr, htree⟩ := hparses fuel hfuel
    exact ⟨expr, hexpr, by rw [htree, reading_of_comparesLeft hcompares]⟩

/-- A grammar without statements. -/
def noStatements (_ : Productions) : Parse (List Statement) :=
  errorAtCurrent "statements are not supported"

/-- `(a < b) == c`, printed without parentheses. -/
def relationEquals : OperatorTree :=
  .binary (.comparison .eq)
    (.binary (.comparison .lt) (.leaf (.identifier "a")) (.leaf (.identifier "b")))
    (.leaf (.identifier "c"))

theorem relationEquals_roundTrips_iff :
    relationEquals.RoundTrips noStatements asciiUnicode ↔ relationEquals.ComparesLeft := by
  apply roundTrips_iff
  decide

/-- `a == (b < c)`, printed without parentheses too. -/
def equalsRelation : OperatorTree :=
  .binary (.comparison .eq) (.leaf (.identifier "a"))
    (.binary (.comparison .lt) (.leaf (.identifier "b")) (.leaf (.identifier "c")))

/-- Its text `a == b < c` is read as `(a == b) < c`. -/
theorem equalsRelation_misread : ¬equalsRelation.RoundTrips noStatements asciiUnicode := by
  intro hround
  have hwritten : equalsRelation.IsWritten asciiUnicode := by decide
  have hreading := reading_of_roundTrips noStatements hwritten hround
  exact absurd hreading (by decide)

end Jayess.Parser
