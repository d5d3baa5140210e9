import Jayess.Lexer.Coverage

/-!
# The positions of the lexer
-/

namespace Jayess

/-- What `Snapshot` keeps of a lexer. -/
structure LexerState where
  pos : Nat
  line : Nat
  column : Nat

namespace Lexer

def snapshot (l : Lexer) : LexerState := ⟨l.pos, l.line, l.column⟩

def restore (l : Lexer) (state : LexerState) : Lexer :=
  { l with pos := state.pos, line := state.line, column := state.column }

/-- A lexer of a text after calls of `NextToken` and returns to snapshots of its own. -/
inductive Reached (unicode : Unicode) (input : List Char) : Lexer → Prop
  | start : Reached unicode input (new input)
  | nextToken {l : Lexer} (hreached : Reached unicode input l) :
      Reached unicode input (l.nextToken unicode).2
  | restore {l earlier : Lexer} (hreached : Reached unicode input l)
      (hearlier : Reached unicode input earlier) : Reached unicode input (l.restore earlier.snapshot)

section Advancing

variable {unicode : Unicode} {l start : Lexer}

theorem readIdentifier_advances (unicode : Unicode) (l : Lexer) :
    l.Advances (l.readIdentifier unicode).2 := by
  have hloop : ∀ rounds (l : Lexer), l.Advances (readIdentifierLoop unicode rounds l) := by
    intro rounds
    induction rounds with
    | zero => exact Advances.refl
    | succ rounds ih =>
        intro l
        rw [readIdentifierLoop]
        split
        · exact (ih l.advance).step
        · exact .refl l
  exact hloop l.remaining l

theorem readNumber_advances (unicode : Unicode) (l : Lexer) :
    l.Advances (l.readNumber unicode).2 := by
  have hloop : ∀ rounds dotSeen (l' : Lexer),
      l'.Advances (readNumberLoop unicode l rounds dotSeen l').2 := by
    intro rounds
    induction rounds with
    | zero => exact fun _ => Advances.refl
    | succ rounds ih =>
        intro dotSeen l'
        rw [readNumberLoop]
        split
        · exact (ih dotSeen l'.advance).step
        split
        · exact (ih true l'.advance).step
        split
        · exact (Advances.refl _).step
        · exact .refl l'
  exact hloop l.remaining false l

theorem readString_advances (l : Lexer) (quote : Char) : l.Advances (l.readString quote).2 := by
  have hloop : ∀ rounds (l' : Lexer), l'.Advances (readStringLoop l quote rounds l').2 := by
    intro rounds
    induction rounds with
    | zero => exact Advances.refl
    | succ rounds ih =>
        intro l'
        rw [readStringLoop]
        split
        · exact .refl l'
        split
        · split
          · exact (Advances.refl _).step
          · exact (ih l'.advance.advance).step.step
        split
        · exact (Advances.refl _).step
        · exact (ih l'.advance).step
  exact hloop l.remaining l

theorem readTemplate_advances (l : Lexer) : l.Advances l.readTemplate.2 := by
  have hloop : ∀ rounds depth (l' : Lexer), l'.Advances (readTemplateLoop l rounds depth l').2 := by
    intro rounds
    induction rounds with
    | zero => exact fun _ => Advances.refl
    | succ rounds ih =>
        intro depth l'
        rw [readTemplateLoop]
        split
        · exact .refl l'
        split
        · exact (Advances.refl _).step
        split
        · exact (ih (depth + 1) l'.advance.advance).step.step
        · exact (ih _ l'.advance).step
  exact hloop l.remaining 0 l

theorem readToken_advances (unicode : Unicode) (l : Lexer) :
    l.Advances (l.readToken unicode).2 := by
  unfold readToken
  split
  · exact .refl l
  split
  · exact readIdentifier_advances unicode l
  split
  · exact readNumber_advances unicode l
  split
  · have hstring := (readString_advances l.advance l.current).step
    split <;> rename_i hresult <;> rw [hresult] at hstring <;> exact hstring
  split
  · have htemplate := (readTemplate_advances l.advance).step
    split <;> rename_i hresult <;> rw [hresult] at htemplate <;> exact htemplate
  split
  · rename_i hresult
    obtain ⟨found, -, rfl⟩ := Option.map_eq_some_iff.mp hresult
    exact ⟨found.2.length, rfl⟩
  · exact (Advances.refl _).step

theorem nextToken_advances (unicode : Unicode) (l : Lexer) :
    ∃ start, l.Advances start ∧ start.Advances (l.nextToken unicode).2 ∧ start.Unskipped ∧
      (l.nextToken unicode).1.line = start.line ∧ (l.nextToken unicode).1.column = start.column ∧
      ∃ ignored text, l.Reads ignored start ∧ start.Reads text (l.nextToken unicode).2 ∧
        Ignored l.pos ignored (text ++ (l.nextToken unicode).2.rest) ∧
        (l.nextToken unicode).1.Spells text := by
  obtain ⟨start, hstart, hunskipped, hline, hcolumn, hstop, ignored, text, hignored, htext, hbetween, hspells,
    -⟩ := nextToken_starts unicode l
  refine ⟨start, hstart, ?_, hunskipped, hline, hcolumn, ignored, text, hignored, htext, hbetween, hspells⟩
  rcases hstop with ⟨skipped, hskipped, heq⟩ | heq
  · rw [heq]
    exact hskipped
  · rw [heq]
    exact readToken_advances unicode start

end Advancing

end Lexer

def lineOf (text : List Char) : Nat := text.count '\n' + 1

def columnOf (text : List Char) : Nat := (text.reverse.takeWhile (· ≠ '\n')).length + 1

theorem lineOf_newline (text : List Char) : lineOf (text ++ ['\n']) = lineOf text + 1 := by
  rw [lineOf, lineOf, List.count_append, List.count_singleton_self]

theorem columnOf_newline (text : List Char) : columnOf (text ++ ['\n']) = 1 := by
  simp [columnOf]

section Other

variable {ch : Char}

theorem lineOf_other (text : List Char) (hother : ch ≠ '\n') :
    lineOf (text ++ [ch]) = lineOf text := by
  rw [lineOf, lineOf, List.count_append, List.count_singleton, if_neg (by simpa using hother),
    Nat.add_zero]

theorem columnOf_other (text : List Char) (hother : ch ≠ '\n') :
    columnOf (text ++ [ch]) = columnOf text + 1 := by
  simp [columnOf, hother]

end Other

namespace Lexer

structure Placed (input : List Char) (l : Lexer) : Prop where
  input_eq : l.input = input
  pos_le : l.pos ≤ input.length
  line_eq : l.line = lineOf (input.take l.pos)
  column_eq : l.column = columnOf (input.take l.pos)

variable {unicode : Unicode} {input : List Char} {l l' : Lexer}

theorem Placed.new (input : List Char) : Placed input (new input) :=
  ⟨rfl, Nat.zero_le _, rfl, rfl⟩

theorem Placed.advance (hplaced : Placed input l) : Placed input l.advance := by
  obtain ⟨rfl, hle, hline, hcolumn⟩ := hplaced
  rw [Lexer.advance]
  by_cases hend : l.input.length ≤ l.pos
  · rw [if_pos hend]
    exact ⟨rfl, hle, hline, hcolumn⟩
  rw [if_neg hend]
  rw [Nat.not_le] at hend
  have htake : l.input.take (l.pos + 1) = l.input.take l.pos ++ [l.current] := by
    rw [List.take_succ_eq_append_getElem hend, current, List.getD_eq_getElem?_getD,
      List.getElem?_eq_getElem hend, Option.getD_some]
  by_cases hnewline : l.current = '\n'
  · rw [if_pos hnewline]
    rw [hnewline] at htake
    refine ⟨rfl, hend, ?_, ?_⟩
    · rw [htake, lineOf_newline, hline]
    · rw [htake, columnOf_newline]
  · rw [if_neg hnewline]
    refine ⟨rfl, hend, ?_, ?_⟩
    · rw [htake, lineOf_other _ hnewline, hline]
    · rw [htake, columnOf_other _ hnewline, hcolumn]

theorem Placed.advances (hplaced : Placed input l) (hadvances : l.Advances l') :
    Placed input l' := by
  obtain ⟨count, rfl⟩ := hadvances
  induction count generalizing l with
  | zero => exact hplaced
  | succ count ih => exact ih hplaced.advance

theorem Placed.restore {earlier : Lexer} (hplaced : Placed input l)
    (hearlier : Placed input earlier) : Placed input (l.restore earlier.snapshot) :=
  ⟨hplaced.input_eq, hearlier.pos_le, hearlier.line_eq, hearlier.column_eq⟩

theorem Reached.placed (hreached : Reached unicode input l) : Placed input l := by
  induction hreached with
  | start => exact .new input
  | @nextToken l hreached ih =>
      obtain ⟨start, hstart, hstop, -⟩ := nextToken_advances unicode l
      exact ih.advances (hstart.trans hstop)
  | restore hreached hearlier ih ihearlier => exact ih.restore ihearlier

end Lexer

end Jayess
