import Mathlib.Data.List.Basic
import Jayess.Lexer.Lexer

/-!
# What the lexer reads

Every call of `NextToken` reads white space and comments and then the text of its token, and never
reads a rune 0: there it takes the input to be over.
-/

namespace Jayess

/-! ## Reading -/

namespace Lexer

variable {l middle l' : Lexer} {text text' : List Char}

/-- The runes that are not read yet. -/
def rest (l : Lexer) : List Char := l.input.drop l.pos

theorem getD_pos_add (l : Lexer) (offset : Nat) :
    l.input.getD (l.pos + offset) endRune = l.rest.getD offset endRune := by
  simp [rest, List.getD_eq_getElem?_getD, List.getElem?_drop]

theorem current_eq (l : Lexer) : l.current = l.rest.getD 0 endRune := l.getD_pos_add 0

theorem peek_eq (l : Lexer) : l.peek = l.rest.getD 1 endRune := l.getD_pos_add 1

theorem peekSecond_eq (l : Lexer) : l.peekSecond = l.rest.getD 2 endRune := l.getD_pos_add 2

theorem peekThird_eq (l : Lexer) : l.peekThird = l.rest.getD 3 endRune := l.getD_pos_add 3

theorem remaining_eq (l : Lexer) : l.remaining = l.rest.length := by
  simp [remaining, rest]

structure Reads (l : Lexer) (text : List Char) (l' : Lexer) : Prop where
  input : l'.input = l.input
  pos : l'.pos = l.pos + text.length
  rest : l.rest = text ++ l'.rest
  clean : endRune ∉ text

theorem Reads.refl (l : Lexer) : l.Reads [] l := ⟨rfl, rfl, rfl, List.not_mem_nil⟩

theorem Reads.trans (hfirst : l.Reads text middle) (hsecond : middle.Reads text' l') :
    l.Reads (text ++ text') l' where
  input := hsecond.input.trans hfirst.input
  pos := by rw [hsecond.pos, hfirst.pos, List.length_append, Nat.add_assoc]
  rest := by rw [hfirst.rest, hsecond.rest, List.append_assoc]
  clean := by simp [hfirst.clean, hsecond.clean]

theorem Reads.textUntil (hreads : l.Reads text l') : l.textUntil l' = text := by
  have hrest : l.input.drop l.pos = text ++ l'.rest := hreads.rest
  rw [Lexer.textUntil, hrest, hreads.pos, Nat.add_sub_cancel_left, List.take_left]

theorem rest_of_current (hcurrent : l.current ≠ endRune) :
    l.rest = l.current :: l.input.drop (l.pos + 1) := by
  have hlt : l.pos < l.input.length := by
    by_contra hle
    rw [Nat.not_lt] at hle
    exact hcurrent (by simp [current, List.getD_eq_getElem?_getD, List.getElem?_eq_none hle])
  rw [rest, List.drop_eq_getElem_cons hlt]
  simp [current, List.getD_eq_getElem?_getD, List.getElem?_eq_getElem hlt]

theorem reads_advance (hcurrent : l.current ≠ endRune) : l.Reads [l.current] l.advance := by
  have hrest := rest_of_current hcurrent
  have hlt : ¬ l.input.length ≤ l.pos := by
    intro hle
    rw [rest, List.drop_eq_nil_of_le hle] at hrest
    exact absurd hrest (by simp)
  have hadvance : l.advance.input = l.input ∧ l.advance.pos = l.pos + 1 := by
    rw [advance, if_neg hlt]
    split <;> exact ⟨rfl, rfl⟩
  refine ⟨hadvance.1, hadvance.2, ?_, ?_⟩
  · rw [hrest, rest, hadvance.1, hadvance.2, List.singleton_append]
  · simpa using Ne.symm hcurrent

theorem current_of_remaining (hremaining : l.remaining = 0) : l.current = endRune := by
  rw [remaining_eq, List.length_eq_zero_iff] at hremaining
  rw [current_eq, hremaining]
  rfl

theorem Reads.remaining (hreads : l.Reads text l') : l.remaining = text.length + l'.remaining := by
  rw [remaining_eq, remaining_eq, hreads.rest, List.length_append]

theorem peek_of_reads (hcurrent : l.current ≠ endRune) : l.advance.current = l.peek := by
  have hrest := (reads_advance hcurrent).rest
  rw [current_eq, peek_eq, hrest]
  rfl

/-- Some calls of `advance` later. -/
def Advances (l l' : Lexer) : Prop := ∃ count, l' = l.advanceBy count

theorem Advances.refl (l : Lexer) : l.Advances l := ⟨0, rfl⟩

theorem Advances.trans (hfirst : l.Advances middle) (hsecond : middle.Advances l') : l.Advances l' := by
  obtain ⟨count, rfl⟩ := hfirst
  obtain ⟨count', rfl⟩ := hsecond
  refine ⟨count + count', ?_⟩
  induction count generalizing l with
  | zero => rw [Nat.zero_add, advanceBy]
  | succ count ih => rw [advanceBy, ih, Nat.add_right_comm, advanceBy]

theorem Advances.step (hrest : l.advance.Advances l') : l.Advances l' := by
  obtain ⟨count, rfl⟩ := hrest
  exact ⟨count + 1, rfl⟩

theorem skipLineComment_advances (l : Lexer) : l.Advances l.skipLineComment := by
  have hloop : ∀ rounds (l : Lexer), l.Advances (skipLineCommentLoop rounds l) := by
    intro rounds
    induction rounds with
    | zero => exact Advances.refl
    | succ rounds ih =>
        intro l
        rw [skipLineCommentLoop]
        split
        · exact (ih l.advance).step
        · exact .refl l
  exact hloop l.remaining l

theorem skipBlockComment_advances (l : Lexer) : l.Advances l.skipBlockComment.2 := by
  have hloop : ∀ rounds (l : Lexer), l.Advances (skipBlockCommentLoop rounds l).2 := by
    intro rounds
    induction rounds with
    | zero => exact Advances.refl
    | succ rounds ih =>
        intro l
        rw [skipBlockCommentLoop]
        split
        · exact .refl l
        · split
          · exact (Advances.refl _).step.step
          · exact (ih l.advance).step
  exact (hloop _ l.advance.advance).step.step

theorem skipLineCommentLoop_reads (rounds : Nat) (l : Lexer) (hrounds : l.remaining ≤ rounds) :
    ∃ body, l.Reads body (skipLineCommentLoop rounds l) ∧ '\n' ∉ body ∧
      ((skipLineCommentLoop rounds l).current = endRune ∨
        (skipLineCommentLoop rounds l).current = '\n') := by
  induction rounds generalizing l with
  | zero =>
      have hend := current_of_remaining (Nat.le_zero.mp hrounds)
      exact ⟨[], .refl l, List.not_mem_nil, Or.inl hend⟩
  | succ rounds ih =>
      rw [skipLineCommentLoop]
      by_cases hcontinue : l.current ≠ endRune ∧ l.current ≠ '\n'
      · rw [if_pos hcontinue]
        have hreads := reads_advance hcontinue.1
        have hremaining := hreads.remaining
        rw [List.length_singleton] at hremaining
        obtain ⟨body, hbody, hline, hstop⟩ := ih l.advance (by omega)
        refine ⟨l.current :: body, hreads.trans hbody, ?_, hstop⟩
        simpa [Ne.symm hcontinue.2] using hline
      · rw [if_neg hcontinue]
        refine ⟨[], .refl l, List.not_mem_nil, ?_⟩
        by_contra hstop
        exact hcontinue (not_or.mp hstop)

theorem skipBlockCommentLoop_reads (rounds : Nat) (l : Lexer) :
    ∃ body, l.Reads body (skipBlockCommentLoop rounds l).2 ∧
      ((skipBlockCommentLoop rounds l).1 = true → ['*', '/'] <:+ body) := by
  induction rounds generalizing l with
  | zero => exact ⟨[], .refl l, by simp [skipBlockCommentLoop]⟩
  | succ rounds ih =>
      rw [skipBlockCommentLoop]
      by_cases hend : l.current = endRune
      · rw [if_pos hend]
        exact ⟨[], .refl l, by simp⟩
      · rw [if_neg hend]
        have hreads := reads_advance hend
        by_cases hclose : l.current = '*' ∧ l.peek = '/'
        · rw [if_pos hclose]
          have hslash : l.advance.current = '/' := (peek_of_reads hend).trans hclose.2
          have hreads' := reads_advance (l := l.advance) (by rw [hslash]; decide)
          rw [hclose.1] at hreads
          rw [hslash] at hreads'
          exact ⟨['*', '/'], hreads.trans hreads', fun _ => List.suffix_rfl⟩
        · rw [if_neg hclose]
          obtain ⟨body, hbody, hclosed⟩ := ih l.advance
          exact ⟨l.current :: body, hreads.trans hbody,
            fun htrue => (hclosed htrue).trans (List.suffix_cons _ _)⟩

end Lexer

/-- The text between tokens: white space, comments up to a line end, and comments that end with
`*/`. The text after it decides where the last comment may end; a shebang line stands at the start
of the source. -/
inductive Ignored : Nat → List Char → List Char → Prop
  | nil {pos : Nat} {after : List Char} : Ignored pos [] after
  | space {pos : Nat} {ch : Char} {text after : List Char} (hspace : isSpace ch = true)
      (htext : Ignored (pos + 1) text after) : Ignored pos ([ch] ++ text) after
  | line {pos : Nat} {comment text after : List Char}
      (hopen : ['/', '/'] <+: comment ∨ pos = 0 ∧ ['#', '!'] <+: comment)
      (hline : '\n' ∉ comment)
      (hstop : (text ++ after).getD 0 endRune = endRune ∨ (text ++ after).getD 0 endRune = '\n')
      (htext : Ignored (pos + comment.length) text after) : Ignored pos (comment ++ text) after
  | block {pos : Nat} {body text after : List Char} (hclosed : ['*', '/'] <:+ body)
      (htext : Ignored (pos + body.length + 2) text after) :
      Ignored pos (['/', '*'] ++ body ++ text) after

namespace Lexer

variable {l middle l' : Lexer} {text text' : List Char}

theorem skipLineComment_reads {first second : Char} (hfirst : l.current = first)
    (hsecond : l.peek = second) (hne : first ≠ endRune ∧ second ≠ endRune)
    (hline : first ≠ '\n' ∧ second ≠ '\n') :
    ∃ comment, l.Reads comment l.skipLineComment ∧ [first, second] <+: comment ∧
      '\n' ∉ comment ∧
      (l.skipLineComment.current = endRune ∨ l.skipLineComment.current = '\n') := by
  obtain ⟨comment, hreads, hcomment, hstop⟩ := skipLineCommentLoop_reads l.remaining l (Nat.le_refl _)
  refine ⟨comment, hreads, ?_, hcomment, hstop⟩
  have hrest := hreads.rest
  have hstop' : l.skipLineComment.rest.getD 0 endRune = endRune ∨
      l.skipLineComment.rest.getD 0 endRune = '\n' := by
    rw [← current_eq]
    exact hstop
  rw [current_eq, hrest] at hfirst
  rw [peek_eq, hrest] at hsecond
  obtain _ | ⟨ch, _ | ⟨ch', comment⟩⟩ := comment
  · rw [List.nil_append] at hfirst
    rw [skipLineComment, hfirst] at hstop'
    exact (hstop'.elim hne.1 hline.1).elim
  · rw [List.singleton_append, List.getD_cons_succ] at hsecond
    rw [skipLineComment, hsecond] at hstop'
    exact (hstop'.elim hne.2 hline.2).elim
  · obtain rfl : ch = first := hfirst
    obtain rfl : ch' = second := hsecond
    exact ⟨comment, rfl⟩

theorem skipBlockComment_reads (hfirst : l.current = '/') (hsecond : l.peek = '*') :
    ∃ body, l.Reads (['/', '*'] ++ body) l.skipBlockComment.2 ∧
      (l.skipBlockComment.1 = true → ['*', '/'] <:+ body) := by
  have hne : l.current ≠ endRune := by
    rw [hfirst]
    decide
  have hopen := reads_advance hne
  have hstar : l.advance.current = '*' := (peek_of_reads hne).trans hsecond
  have hopen' := reads_advance (l := l.advance) (by rw [hstar]; decide)
  rw [hfirst] at hopen
  rw [hstar] at hopen'
  obtain ⟨body, hbody, hclosed⟩ :=
    skipBlockCommentLoop_reads l.advance.advance.remaining l.advance.advance
  exact ⟨body, (hopen.trans hopen').trans hbody, hclosed⟩

def Unskipped (l : Lexer) : Prop :=
  l.current = endRune ∨
    ¬ (l.pos = 0 ∧ l.current = '#' ∧ l.peek = '!') ∧ isSpace l.current = false ∧
      ¬ (l.current = '/' ∧ l.peek = '/') ∧
      (l.current = '/' ∧ l.peek = '*' → l.skipBlockComment.1 = false)

/-- What `skipIgnored` reads: ignored text, and from where the next token starts the beginning of a comment
that has no end. -/
def Opens (l start : Lexer) (illegal : Option Token) (l' : Lexer) : Prop :=
  l.Advances start ∧ start.Advances l' ∧ start.Unskipped ∧
    ∃ text comment, l.Reads text start ∧ start.Reads comment l' ∧
    Ignored l.pos text (comment ++ l'.rest) ∧ (illegal = none → start = l' ∧ comment = []) ∧
      ∀ token, illegal = some token → comment ≠ [] ∧ token.type = .tokenIllegal ∧
        token.line = start.line ∧ token.column = start.column

theorem Opens.none (hunskipped : l.Unskipped) : l.Opens l none l :=
  ⟨.refl l, .refl l, hunskipped, [], [], .refl l, .refl l, .nil, fun _ => ⟨rfl, rfl⟩, by simp⟩

theorem Opens.prepend {start : Lexer} {illegal : Option Token} (hadvances : l.Advances middle)
    (hreads : l.Reads text middle) (hopens : middle.Opens start illegal l')
    (hignored : ∀ following after, middle.rest = following ++ after →
      Ignored middle.pos following after → Ignored l.pos (text ++ following) after) :
    l.Opens start illegal l' := by
  obtain ⟨hstart, hstop, hunskipped, following, comment, hfollowing, hcomment, hignored', hnone, hsome⟩ :=
    hopens
  refine ⟨hadvances.trans hstart, hstop, hunskipped, text ++ following, comment, hreads.trans hfollowing,
    hcomment, hignored _ _ ?_ hignored', hnone, hsome⟩
  rw [hfollowing.rest, hcomment.rest]

theorem skipIgnoredLoop_opens (rounds : Nat) (l : Lexer) (hrounds : l.remaining ≤ rounds) :
    ∃ start, l.Opens start (skipIgnoredLoop rounds l).1 (skipIgnoredLoop rounds l).2 := by
  induction rounds generalizing l with
  | zero => exact ⟨l, Opens.none (.inl (current_of_remaining (Nat.le_zero.mp hrounds)))⟩
  | succ rounds ih =>
      have hfewer : ∀ {text : List Char} {next : Lexer}, l.Reads text next → text ≠ [] →
          next.remaining ≤ rounds := by
        intro text next hreads hne
        have hremaining := hreads.remaining
        have hpos := List.length_pos_iff.mpr hne
        omega
      have hlineComment : ∀ first second : Char, l.current = first → l.peek = second →
          (first ≠ endRune ∧ second ≠ endRune) → (first ≠ '\n' ∧ second ≠ '\n') →
          ([first, second] = ['/', '/'] ∨ l.pos = 0 ∧ [first, second] = ['#', '!']) →
          ∃ start, l.Opens start (skipIgnoredLoop rounds l.skipLineComment).1
            (skipIgnoredLoop rounds l.skipLineComment).2 := by
        intro first second hfirst hsecond hne hnewline hopen
        obtain ⟨comment, hreads, hstarts, hline, hstop⟩ :=
          skipLineComment_reads hfirst hsecond hne hnewline
        have hne' : comment ≠ [] := by
          rintro rfl
          simp at hstarts
        obtain ⟨start, hopens⟩ := ih _ (hfewer hreads hne')
        refine ⟨start, hopens.prepend (skipLineComment_advances l) hreads fun following after hrest htext => ?_⟩
        rw [current_eq, hrest] at hstop
        refine .line ?_ hline hstop (hreads.pos ▸ htext)
        rcases hopen with hopen | ⟨hpos, hopen⟩
        · exact Or.inl (hopen ▸ hstarts)
        · exact Or.inr ⟨hpos, hopen ▸ hstarts⟩
      rw [skipIgnoredLoop]
      by_cases hend : l.current = endRune
      · rw [if_pos hend]
        exact ⟨l, Opens.none (.inl hend)⟩
      rw [if_neg hend]
      by_cases hshebang : l.pos = 0 ∧ l.current = '#' ∧ l.peek = '!'
      · rw [if_pos hshebang]
        exact hlineComment '#' '!' hshebang.2.1 hshebang.2.2 (by decide) (by decide)
          (Or.inr ⟨hshebang.1, rfl⟩)
      rw [if_neg hshebang]
      by_cases hspace : isSpace l.current = true
      · rw [if_pos hspace]
        have hreads := reads_advance hend
        obtain ⟨start, hopens⟩ := ih _ (hfewer hreads (by simp))
        refine ⟨start, hopens.prepend (Advances.refl _).step hreads fun _ _ _ htext => ?_⟩
        exact .space hspace (hreads.pos ▸ htext)
      rw [if_neg hspace]
      by_cases hslashes : l.current = '/' ∧ l.peek = '/'
      · rw [if_pos hslashes]
        exact hlineComment '/' '/' hslashes.1 hslashes.2 (by decide) (by decide) (Or.inl rfl)
      rw [if_neg hslashes]
      by_cases hblock : l.current = '/' ∧ l.peek = '*'
      · rw [if_pos hblock]
        obtain ⟨body, hreads, hclosed⟩ := skipBlockComment_reads hblock.1 hblock.2
        have hadvances := skipBlockComment_advances l
        match hresult : l.skipBlockComment with
        | (true, skipped) =>
            rw [hresult] at hreads hclosed hadvances
            obtain ⟨start, hopens⟩ := ih _ (hfewer hreads (by simp))
            refine ⟨start, hopens.prepend hadvances hreads fun _ _ _ htext => ?_⟩
            have hpos : skipped.pos = l.pos + body.length + 2 := by
              rw [hreads.pos, List.length_append, List.length_cons, List.length_singleton]
              omega
            exact .block (hclosed rfl) (hpos ▸ htext)
        | (false, skipped) =>
            rw [hresult] at hreads hadvances
            have hunskipped : l.Unskipped := .inr
              ⟨hshebang, Bool.not_eq_true _ ▸ hspace, hslashes, fun _ => congrArg Prod.fst hresult⟩
            refine ⟨l, .refl l, hadvances, hunskipped, [], ['/', '*'] ++ body, .refl l, hreads, .nil,
              by simp, ?_⟩
            rintro token ⟨rfl⟩
            exact ⟨by simp, rfl, rfl, rfl⟩
      · rw [if_neg hblock]
        exact ⟨l, Opens.none (.inr
          ⟨hshebang, Bool.not_eq_true _ ▸ hspace, hslashes, fun hopen => absurd hopen hblock⟩)⟩

/-! ## Tokens -/

end Lexer

/-- The source text of a token. -/
def Token.Spells (token : Token) (text : List Char) : Prop :=
  match token.type with
  | .tokenEOF => text = []
  | .tokenIllegal => text ≠ []
  | .tokenBigInt => text = token.literal.toList ++ ['n']
  | .tokenString => ∃ quote, (quote = '"' ∨ quote = '\'') ∧
      text = [quote] ++ token.literal.toList ++ [quote]
  | .tokenTemplate => text = ['\x60'] ++ token.literal.toList ++ ['\x60']
  | _ => text ≠ [] ∧ text = token.literal.toList

def TokenType.isVerbatim : TokenType → Bool
  | .tokenEOF | .tokenIllegal | .tokenBigInt | .tokenString | .tokenTemplate => false
  | _ => true

theorem Token.spells_verbatim {token : Token} {text : List Char}
    (hverbatim : token.type.isVerbatim = true) (hne : text ≠ [])
    (htext : text = token.literal.toList) : token.Spells text := by
  unfold Token.Spells
  split <;> simp_all [TokenType.isVerbatim]

theorem lookupIdent_isVerbatim (literal : String) : (lookupIdent literal).isVerbatim = true := by
  unfold lookupIdent
  split <;> rfl

theorem punctuation_prefix {first second third fourth : Char} {type : TokenType} {literal : String}
    (hpunctuation : Lexer.punctuation first second third fourth = some (type, literal)) :
    literal.toList <+: [first, second, third, fourth] ∧ literal.toList ≠ [] ∧
      endRune ∉ literal.toList ∧ type.isVerbatim = true := by
  unfold Lexer.punctuation at hpunctuation
  split at hpunctuation
  all_goals
    (repeat' split at hpunctuation)
    all_goals
      simp only [Option.some.injEq, Prod.mk.injEq, reduceCtorEq] at hpunctuation
  all_goals
    obtain ⟨rfl, rfl⟩ := hpunctuation
    simp_all [TokenType.isVerbatim, endRune]

namespace Lexer

variable {unicode : Unicode} {l start middle l' : Lexer} {text text' : List Char}

theorem ofList_textUntil (hreads : l.Reads text l') :
    (String.ofList (l.textUntil l')).toList = text := by
  rw [hreads.textUntil, String.toList_ofList]

theorem endRune_isIdentifierPart : unicode.isIdentifierPart endRune = false := by
  have hletter := unicode.isLetter_ascii endRune (by decide)
  have hdigit := unicode.isDigit_ascii endRune (by decide)
  rw [Unicode.isIdentifierPart, Unicode.isIdentifierStart, hletter, hdigit]
  decide

theorem endRune_isDigit : unicode.isDigit endRune = false := by
  rw [unicode.isDigit_ascii endRune (by decide)]
  decide

theorem readIdentifierLoop_reads (unicode : Unicode) (rounds : Nat) (l : Lexer) :
    ∃ text, l.Reads text (readIdentifierLoop unicode rounds l) := by
  induction rounds generalizing l with
  | zero => exact ⟨[], .refl l⟩
  | succ rounds ih =>
      rw [readIdentifierLoop]
      by_cases hpart : unicode.isIdentifierPart l.current = true
      · rw [if_pos hpart]
        have hcurrent : l.current ≠ endRune := by
          intro heq
          rw [heq, endRune_isIdentifierPart] at hpart
          exact absurd hpart (by decide)
        obtain ⟨text, htext⟩ := ih l.advance
        exact ⟨[l.current] ++ text, (reads_advance hcurrent).trans htext⟩
      · rw [if_neg hpart]
        exact ⟨[], .refl l⟩

theorem readIdentifier_reads (hcurrent : l.current ≠ endRune)
    (hstart : unicode.isIdentifierStart l.current = true) :
    ∃ text, l.Reads text (l.readIdentifier unicode).2 ∧ text ≠ [] ∧
      text = (l.readIdentifier unicode).1.toList := by
  have hremaining : ∃ rounds, l.remaining = rounds + 1 := by
    refine Nat.exists_eq_succ_of_ne_zero fun hzero => ?_
    exact hcurrent (current_of_remaining hzero)
  obtain ⟨rounds, hrounds⟩ := hremaining
  have hpart : unicode.isIdentifierPart l.current = true := by
    rw [Unicode.isIdentifierPart, hstart, Bool.true_or]
  obtain ⟨text, htext⟩ := readIdentifierLoop_reads unicode rounds l.advance
  have hreads : l.Reads ([l.current] ++ text) (l.readIdentifier unicode).2 := by
    rw [readIdentifier, hrounds, readIdentifierLoop, if_pos hpart]
    exact (reads_advance hcurrent).trans htext
  exact ⟨[l.current] ++ text, hreads, by simp, (ofList_textUntil hreads).symm⟩

theorem readNumberLoop_reads (unicode : Unicode) (rounds : Nat) (dotSeen : Bool) (l : Lexer)
    (hbefore : start.Reads text l) :
    ∃ literal, ((readNumberLoop unicode start rounds dotSeen l).1.1).toList = literal ∧
      start.Reads (literal ++
          (if (readNumberLoop unicode start rounds dotSeen l).1.2 then ['n'] else []))
        (readNumberLoop unicode start rounds dotSeen l).2 ∧ text <+: literal := by
  induction rounds generalizing dotSeen l text with
  | zero =>
      refine ⟨text, ofList_textUntil hbefore, ?_, List.prefix_rfl⟩
      simpa [readNumberLoop] using hbefore
  | succ rounds ih =>
      have hnext : ∀ dotSeen', l.current ≠ endRune →
          ∃ literal, ((readNumberLoop unicode start rounds dotSeen' l.advance).1.1).toList =
              literal ∧
            start.Reads (literal ++
                (if (readNumberLoop unicode start rounds dotSeen' l.advance).1.2 then ['n'] else []))
              (readNumberLoop unicode start rounds dotSeen' l.advance).2 ∧ text <+: literal := by
        intro dotSeen' hcurrent
        obtain ⟨literal, hliteral, hreads, hstarts⟩ :=
          ih dotSeen' l.advance (hbefore.trans (reads_advance hcurrent))
        exact ⟨literal, hliteral, hreads, (List.prefix_append _ _).trans hstarts⟩
      rw [readNumberLoop]
      by_cases hdigit : unicode.isDigit l.current = true
      · rw [if_pos hdigit]
        refine hnext dotSeen fun hend => ?_
        rw [hend, endRune_isDigit] at hdigit
        exact absurd hdigit (by decide)
      rw [if_neg hdigit]
      by_cases hdot : l.current = '.' ∧ (!dotSeen) = true
      · rw [if_pos hdot]
        refine hnext true ?_
        rw [hdot.1]
        decide
      rw [if_neg hdot]
      by_cases hbig : l.current = 'n' ∧ (!dotSeen) = true
      · rw [if_pos hbig]
        have hcurrent : l.current ≠ endRune := by
          rw [hbig.1]
          decide
        have hreads := reads_advance hcurrent
        rw [hbig.1] at hreads
        exact ⟨text, ofList_textUntil hbefore, hbefore.trans hreads, List.prefix_rfl⟩
      · rw [if_neg hbig]
        refine ⟨text, ofList_textUntil hbefore, ?_, List.prefix_rfl⟩
        simpa using hbefore

theorem readNumber_reads (hcurrent : l.current ≠ endRune)
    (hdigit : unicode.isDigit l.current = true) :
    ∃ literal, ((l.readNumber unicode).1.1).toList = literal ∧ literal ≠ [] ∧
      l.Reads (literal ++ (if (l.readNumber unicode).1.2 then ['n'] else []))
        (l.readNumber unicode).2 := by
  have hremaining : ∃ rounds, l.remaining = rounds + 1 := by
    refine Nat.exists_eq_succ_of_ne_zero fun hzero => ?_
    exact hcurrent (current_of_remaining hzero)
  obtain ⟨rounds, hrounds⟩ := hremaining
  have hnumber : l.readNumber unicode = readNumberLoop unicode l rounds false l.advance := by
    rw [readNumber, hrounds, readNumberLoop, if_pos hdigit]
  obtain ⟨literal, hliteral, hreads, hstarts⟩ :=
    readNumberLoop_reads unicode rounds false l.advance (reads_advance hcurrent)
  rw [hnumber]
  refine ⟨literal, hliteral, ?_, hreads⟩
  rintro rfl
  simp at hstarts

theorem readStringLoop_reads (quote : Char) (rounds : Nat) (l : Lexer)
    (hbefore : start.Reads text l) :
    ∃ text', start.Reads text' (readStringLoop start quote rounds l).2 ∧
      ∀ literal, (readStringLoop start quote rounds l).1 = some literal →
        text' = literal.toList ++ [quote] := by
  induction rounds generalizing l text with
  | zero => exact ⟨text, hbefore, by simp [readStringLoop]⟩
  | succ rounds ih =>
      rw [readStringLoop]
      by_cases hend : l.current = endRune ∨ l.current = '\n'
      · rw [if_pos hend]
        exact ⟨text, hbefore, by simp⟩
      rw [if_neg hend]
      have hreads := hbefore.trans (reads_advance (not_or.mp hend).1)
      by_cases hescape : l.current = '\\'
      · rw [if_pos hescape]
        by_cases hend' : l.advance.current = endRune ∨ l.advance.current = '\n'
        · rw [if_pos hend']
          exact ⟨_, hreads, by simp⟩
        · rw [if_neg hend']
          exact ih _ (hreads.trans (reads_advance (not_or.mp hend').1))
      rw [if_neg hescape]
      by_cases hclose : l.current = quote
      · rw [if_pos hclose]
        refine ⟨_, hreads, ?_⟩
        rintro literal ⟨rfl⟩
        rw [ofList_textUntil hbefore, hclose]
      · rw [if_neg hclose]
        exact ih _ hreads

theorem readTemplateLoop_reads (rounds depth : Nat) (l : Lexer) (hbefore : start.Reads text l) :
    ∃ text', start.Reads text' (readTemplateLoop start rounds depth l).2 ∧
      ∀ literal, (readTemplateLoop start rounds depth l).1 = some literal →
        text' = literal.toList ++ ['\x60'] := by
  induction rounds generalizing depth l text with
  | zero => exact ⟨text, hbefore, by simp [readTemplateLoop]⟩
  | succ rounds ih =>
      rw [readTemplateLoop]
      by_cases hend : l.current = endRune
      · rw [if_pos hend]
        exact ⟨text, hbefore, by simp⟩
      rw [if_neg hend]
      have hreads := hbefore.trans (reads_advance hend)
      by_cases hclose : l.current = '\x60' ∧ depth = 0
      · rw [if_pos hclose]
        refine ⟨_, hreads, ?_⟩
        rintro literal ⟨rfl⟩
        rw [ofList_textUntil hbefore, hclose.1]
      rw [if_neg hclose]
      by_cases hopen : l.current = '$' ∧ l.peek = '\x7b'
      · rw [if_pos hopen]
        have hbrace : l.advance.current = '\x7b' := (peek_of_reads hend).trans hopen.2
        exact ih _ _ (hreads.trans (reads_advance (by rw [hbrace]; decide)))
      · rw [if_neg hopen]
        exact ih _ _ hreads

theorem advanceBy_reads (text after : List Char) (l : Lexer) (hrest : l.rest = text ++ after)
    (hclean : endRune ∉ text) : l.Reads text (l.advanceBy text.length) := by
  induction text generalizing l with
  | nil => exact .refl l
  | cons ch text ih =>
      have hcurrent : l.current = ch := by
        rw [current_eq, hrest]
        rfl
      have hreads := reads_advance (l := l) (by
        rw [hcurrent]
        rintro rfl
        exact hclean List.mem_cons_self)
      rw [hcurrent] at hreads
      have hrest' : l.advance.rest = text ++ after := by
        have hsplit := hreads.rest
        rw [hrest] at hsplit
        exact (List.cons_inj_right ch).mp hsplit.symm
      refine hreads.trans (ih l.advance hrest' fun hmem => ?_)
      exact hclean (List.mem_cons_of_mem _ hmem)

theorem prefix_of_ahead {text rest : List Char} {count : Nat}
    (hahead : text <+: (List.range count).map fun offset => rest.getD offset endRune)
    (hclean : endRune ∉ text) : text <+: rest := by
  induction text generalizing rest count with
  | nil => exact List.nil_prefix
  | cons ch text ih =>
      obtain ⟨hne, hclean⟩ := List.ne_and_not_mem_of_not_mem_cons hclean
      obtain _ | count := count
      · simp at hahead
      · rw [List.range_succ_eq_map, List.map_cons, List.map_map, List.cons_prefix_cons] at hahead
        obtain ⟨hfirst, hahead⟩ := hahead
        obtain _ | ⟨first, rest⟩ := rest
        · exact absurd hfirst.symm hne
        · rw [List.cons_prefix_cons]
          exact ⟨hfirst, ih hahead hclean⟩

theorem rest_of_prefix {text : List Char}
    (hstarts : text <+: [l.current, l.peek, l.peekSecond, l.peekThird]) (hclean : endRune ∉ text) :
    ∃ after, l.rest = text ++ after := by
  rw [current_eq, peek_eq, peekSecond_eq, peekThird_eq] at hstarts
  have hahead : text <+: (List.range 4).map fun offset => l.rest.getD offset endRune := hstarts
  obtain ⟨after, hafter⟩ := prefix_of_ahead hahead hclean
  exact ⟨after, hafter.symm⟩

theorem readPunctuation_reads {line column : Nat} {token : Token}
    (hpunctuation : l.readPunctuation line column = some (token, l')) :
    ∃ text, l.Reads text l' ∧ text ≠ [] ∧ token.Spells text := by
  rw [readPunctuation, Option.map_eq_some_iff] at hpunctuation
  obtain ⟨⟨type, literal⟩, hfound, heq⟩ := hpunctuation
  simp only [Prod.mk.injEq] at heq
  obtain ⟨rfl, rfl⟩ := heq
  obtain ⟨hstarts, hne, hclean, hverbatim⟩ := punctuation_prefix hfound
  obtain ⟨after, hrest⟩ := rest_of_prefix hstarts hclean
  have hreads := advanceBy_reads literal.toList after l hrest hclean
  rw [String.length_toList] at hreads
  exact ⟨literal.toList, hreads, hne, Token.spells_verbatim hverbatim hne rfl⟩

theorem readToken_reads (unicode : Unicode) (l : Lexer) :
    ∃ text, l.Reads text (l.readToken unicode).2 ∧ (l.readToken unicode).1.Spells text ∧
      ((l.readToken unicode).1.type ≠ .tokenEOF → text ≠ []) ∧
      ((l.readToken unicode).1.type = .tokenEOF → (l.readToken unicode).2.current = endRune) := by
  have hdone : ∀ (token : Token) (text : List Char), text ≠ [] → token.Spells text →
      token.type ≠ .tokenEOF := by
    intro token text hne hspells heof
    rw [Token.Spells, heof] at hspells
    exact hne hspells
  rw [readToken]
  by_cases hend : l.current = endRune
  · rw [if_pos hend]
    exact ⟨[], .refl l, rfl, fun hne => absurd rfl hne, fun _ => hend⟩
  rw [if_neg hend]
  by_cases hstart : unicode.isIdentifierStart l.current = true
  · rw [if_pos hstart]
    obtain ⟨text, hreads, hne, htext⟩ := readIdentifier_reads hend hstart
    have hspells : Token.Spells ⟨lookupIdent (l.readIdentifier unicode).1,
        (l.readIdentifier unicode).1, l.line, l.column⟩ text :=
      Token.spells_verbatim (lookupIdent_isVerbatim _) hne htext
    exact ⟨text, hreads, hspells, fun _ => hne, fun heof => absurd heof (hdone _ _ hne hspells)⟩
  rw [if_neg hstart]
  by_cases hdigit : unicode.isDigit l.current = true
  · rw [if_pos hdigit]
    obtain ⟨text, htext, hne, hreads⟩ := readNumber_reads hend hdigit
    generalize l.readNumber unicode = number at htext hreads
    obtain ⟨⟨literal, big⟩, stop⟩ := number
    cases big with
    | true => exact ⟨text ++ ['n'], hreads, by simpa [Token.Spells] using htext.symm, by simp, by simp⟩
    | false =>
        have hreads' : l.Reads text stop := by simpa using hreads
        exact ⟨text, hreads', ⟨hne, htext.symm⟩, fun _ => hne, by simp⟩
  rw [if_neg hdigit]
  by_cases hquote : l.current = '"' ∨ l.current = '\''
  · rw [if_pos hquote]
    obtain ⟨text, hreads, hclosed⟩ :=
      readStringLoop_reads l.current l.advance.remaining l.advance (.refl l.advance)
    have hall := (reads_advance hend).trans hreads
    rw [readString]
    generalize readStringLoop l.advance l.current l.advance.remaining l.advance = string at *
    obtain ⟨_ | literal, stop⟩ := string
    · exact ⟨_, hall, by simp [Token.Spells], by simp, by simp⟩
    · rw [hclosed literal rfl] at hall
      refine ⟨_, hall, ⟨l.current, hquote, ?_⟩, by simp, by simp⟩
      rw [List.append_assoc]
  rw [if_neg hquote]
  by_cases htemplate : l.current = '\x60'
  · rw [if_pos htemplate]
    obtain ⟨text, hreads, hclosed⟩ :=
      readTemplateLoop_reads l.advance.remaining 0 l.advance (.refl l.advance)
    have hall := (reads_advance hend).trans hreads
    rw [htemplate] at hall
    rw [readTemplate]
    generalize readTemplateLoop l.advance l.advance.remaining 0 l.advance = template at *
    obtain ⟨_ | literal, stop⟩ := template
    · exact ⟨_, hall, by simp [Token.Spells], by simp, by simp⟩
    · rw [hclosed literal rfl] at hall
      refine ⟨_, hall, ?_, by simp, by simp⟩
      exact (List.append_assoc ..).symm
  rw [if_neg htemplate]
  match hpunctuation : l.readPunctuation l.line l.column with
  | some (token, stop) =>
      obtain ⟨text, hreads, hne, hspells⟩ := readPunctuation_reads hpunctuation
      exact ⟨text, hreads, hspells, fun _ => hne, fun heof => absurd heof (hdone _ _ hne hspells)⟩
  | none =>
      exact ⟨[l.current], reads_advance hend, by simp [Token.Spells], by simp, by simp⟩

/-- What one call of `NextToken` reads: ignored text and the text of its token. Only where the input
seems to be over is the token an end, and only then is nothing read. -/
structure ReadsToken (l : Lexer) (token : Token) (l' : Lexer) : Prop where
  covered : ∃ ignored text, l.Reads (ignored ++ text) l' ∧
    Ignored l.pos ignored (text ++ l'.rest) ∧ token.Spells text ∧
    (token.type ≠ .tokenEOF → text ≠ [])
  ended : token.type = .tokenEOF → l'.current = endRune

theorem readToken_position (unicode : Unicode) (l : Lexer) :
    (l.readToken unicode).1.line = l.line ∧ (l.readToken unicode).1.column = l.column := by
  unfold readToken
  split
  · exact ⟨rfl, rfl⟩
  split
  · exact ⟨rfl, rfl⟩
  split
  · exact ⟨rfl, rfl⟩
  split
  · split <;> exact ⟨rfl, rfl⟩
  split
  · split <;> exact ⟨rfl, rfl⟩
  split
  · rename_i result hresult
    obtain ⟨found, -, rfl⟩ := Option.map_eq_some_iff.mp hresult
    exact ⟨rfl, rfl⟩
  · exact ⟨rfl, rfl⟩

theorem nextToken_starts (unicode : Unicode) (l : Lexer) :
    ∃ start, l.Advances start ∧ start.Unskipped ∧ (l.nextToken unicode).1.line = start.line ∧
      (l.nextToken unicode).1.column = start.column ∧
      ((∃ skipped, start.Advances skipped ∧ (l.nextToken unicode).2 = skipped) ∨
        (l.nextToken unicode).2 = (start.readToken unicode).2) ∧
      ∃ ignored text, l.Reads ignored start ∧ start.Reads text (l.nextToken unicode).2 ∧
        Ignored l.pos ignored (text ++ (l.nextToken unicode).2.rest) ∧
        (l.nextToken unicode).1.Spells text ∧
        ((l.nextToken unicode).1.type ≠ .tokenEOF → text ≠ []) ∧
        ((l.nextToken unicode).1.type = .tokenEOF → (l.nextToken unicode).2.current = endRune) := by
  obtain ⟨start, hstart, hstop, hunskipped, ignored, comment, hreads, hcomment, hignored, hnone, hsome⟩ :=
    skipIgnoredLoop_opens l.remaining l (Nat.le_refl _)
  match hskipped : skipIgnoredLoop l.remaining l with
  | (some illegal, stop) =>
      rw [hskipped] at hstop hcomment hignored hsome
      obtain ⟨hne, htype, hline, hcolumn⟩ := hsome illegal rfl
      have hspells : illegal.Spells comment := by
        rw [Token.Spells, htype]
        exact hne
      rw [nextToken, skipIgnored, hskipped]
      refine ⟨start, hstart, hunskipped, hline, hcolumn, .inl ⟨stop, hstop, rfl⟩, ignored, comment, hreads,
        hcomment, hignored, hspells, fun _ => hne, fun heof => ?_⟩
      rw [htype] at heof
      exact absurd heof (by decide)
  | (none, stop) =>
      rw [hskipped] at hstop hcomment hignored hnone
      obtain ⟨rfl, rfl⟩ := hnone rfl
      rw [List.nil_append] at hignored
      obtain ⟨text, htext, hspells, hne, hended⟩ := readToken_reads unicode start
      have hposition := readToken_position unicode start
      rw [nextToken, skipIgnored, hskipped]
      refine ⟨start, hstart, hunskipped, hposition.1, hposition.2, .inr rfl, ignored, text, hreads, htext, ?_,
        hspells, hne, hended⟩
      rw [← htext.rest]
      exact hignored

theorem nextToken_reads (unicode : Unicode) (l : Lexer) :
    l.ReadsToken (l.nextToken unicode).1 (l.nextToken unicode).2 := by
  obtain ⟨start, -, -, -, -, -, ignored, text, hignored, htext, hbetween, hspells, hne, hended⟩ :=
    nextToken_starts unicode l
  exact ⟨⟨ignored, text, hignored.trans htext, hbetween, hspells, hne⟩, hended⟩

end Lexer

/-- The lexer after some calls of `NextToken`. -/
def Lexer.after (unicode : Unicode) (l : Lexer) : Nat → Lexer
  | 0 => l
  | calls + 1 => ((l.after unicode calls).nextToken unicode).2

def Lexer.token (unicode : Unicode) (l : Lexer) (calls : Nat) : Token :=
  ((l.after unicode calls).nextToken unicode).1

/-- The calls of `NextToken` read the whole source: they come to an end token, only at the end of
the source; each one before it moves on; and what a call reads is white space, comments and the text
of its token. -/
structure CoversSource (unicode : Unicode) (input : List Char) : Prop where
  ends : ∃ calls, ((Lexer.new input).token unicode calls).type = .tokenEOF
  complete : ∀ calls, ((Lexer.new input).token unicode calls).type = .tokenEOF →
    ((Lexer.new input).after unicode (calls + 1)).pos = input.length
  advances : ∀ calls, ((Lexer.new input).token unicode calls).type ≠ .tokenEOF →
    ((Lexer.new input).after unicode calls).pos <
      ((Lexer.new input).after unicode (calls + 1)).pos
  covered : ∀ calls, ∃ ignored text,
    ((Lexer.new input).after unicode calls).textUntil
        ((Lexer.new input).after unicode (calls + 1)) = ignored ++ text ∧
      Ignored ((Lexer.new input).after unicode calls).pos ignored
        (text ++ input.drop ((Lexer.new input).after unicode (calls + 1)).pos) ∧
      ((Lexer.new input).token unicode calls).Spells text

namespace Lexer

variable {unicode : Unicode} {input : List Char}

theorem after_reads (unicode : Unicode) (input : List Char) (calls : Nat) :
    ∃ text, (new input).Reads text ((new input).after unicode calls) := by
  induction calls with
  | zero => exact ⟨[], .refl _⟩
  | succ calls ih =>
      obtain ⟨text, htext⟩ := ih
      obtain ⟨ignored, text', hreads, -⟩ :=
        (nextToken_reads unicode ((new input).after unicode calls)).covered
      exact ⟨text ++ (ignored ++ text'), htext.trans hreads⟩

theorem after_advances (calls : Nat)
    (hne : ((new input).token unicode calls).type ≠ .tokenEOF) :
    ((new input).after unicode calls).pos < ((new input).after unicode (calls + 1)).pos := by
  obtain ⟨ignored, text, hreads, -, -, htext⟩ :=
    (nextToken_reads unicode ((new input).after unicode calls)).covered
  have hpos := hreads.pos
  have hlength := List.length_pos_iff.mpr (htext hne)
  rw [List.length_append] at hpos
  show _ < (nextToken unicode ((new input).after unicode calls)).2.pos
  omega

/-- Each call before an end token moves on by at least one rune, so there are not more calls than
runes. -/
theorem token_ends (unicode : Unicode) (input : List Char) :
    ∃ calls, ((new input).token unicode calls).type = .tokenEOF := by
  by_contra hnever
  have hpos : ∀ calls, calls ≤ ((new input).after unicode calls).pos := by
    intro calls
    induction calls with
    | zero => exact Nat.zero_le _
    | succ calls ih =>
        have hadvances := after_advances calls fun heof => hnever ⟨calls, heof⟩
        omega
  obtain ⟨text, htext⟩ := after_reads unicode input (input.length + 1)
  have hlength : text.length ≤ input.length := by
    have hrest : input = text ++ _ := htext.rest
    rw [hrest, List.length_append]
    exact Nat.le_add_right _ _
  have hafter := hpos (input.length + 1)
  rw [htext.pos] at hafter
  have hzero : (new input).pos = 0 := rfl
  omega

end Lexer

/-- The calls of `NextToken` read the whole source if and only if it holds no rune 0. -/
theorem coversSource_iff (unicode : Unicode) (input : List Char) :
    CoversSource unicode input ↔ endRune ∉ input := by
  constructor
  · intro hcovers hmem
    obtain ⟨calls, heof⟩ := hcovers.ends
    obtain ⟨text, hreads⟩ := Lexer.after_reads unicode input (calls + 1)
    have hcomplete := hcovers.complete calls heof
    have hrest : input = text ++ ((Lexer.new input).after unicode (calls + 1)).rest := hreads.rest
    have hnil : ((Lexer.new input).after unicode (calls + 1)).rest = [] := by
      rw [Lexer.rest, hcomplete, hreads.input]
      exact List.drop_length
    rw [hnil, List.append_nil] at hrest
    exact hreads.clean (hrest ▸ hmem)
  · intro hclean
    refine ⟨Lexer.token_ends unicode input, fun calls heof => ?_,
      fun calls hne => Lexer.after_advances calls hne, fun calls => ?_⟩
    · obtain ⟨text, hreads⟩ := Lexer.after_reads unicode input (calls + 1)
      have hended := (Lexer.nextToken_reads unicode ((Lexer.new input).after unicode calls)).ended
        heof
      have hrest : input = text ++ ((Lexer.new input).after unicode (calls + 1)).rest := hreads.rest
      have hnil : ((Lexer.new input).after unicode (calls + 1)).rest = [] := by
        by_contra hne
        have hcurrent := Lexer.current_eq ((Lexer.new input).after unicode (calls + 1))
        obtain ⟨ch, rest, hcons⟩ := List.exists_cons_of_ne_nil hne
        rw [hcons] at hcurrent hrest
        have hch : ch = endRune := hcurrent.symm.trans hended
        refine hclean ?_
        rw [hrest, hch]
        simp
      have hpos : ((Lexer.new input).after unicode (calls + 1)).pos = 0 + text.length := hreads.pos
      rw [hnil, List.append_nil] at hrest
      rw [hpos, hrest, Nat.zero_add]
    · obtain ⟨ignored, text, hreads, hignored, hspells, -⟩ :=
        (Lexer.nextToken_reads unicode ((Lexer.new input).after unicode calls)).covered
      refine ⟨ignored, text, hreads.textUntil, ?_, hspells⟩
      obtain ⟨_, hafter⟩ := Lexer.after_reads unicode input (calls + 1)
      have hinput : ((Lexer.new input).after unicode (calls + 1)).input = input := hafter.input
      have hrest : ((Lexer.new input).after unicode (calls + 1)).rest =
          input.drop ((Lexer.new input).after unicode (calls + 1)).pos := by
        rw [Lexer.rest, hinput]
      rw [← hrest]
      exact hignored

/-- Unicode tables with nothing but ASCII. -/
def asciiUnicode : Unicode where
  isLetter := Char.isAlpha
  isDigit := Char.isDigit
  quote ch := "'" ++ toString ch ++ "'"
  isLetter_ascii _ _ := rfl
  isDigit_ascii _ _ := rfl

/-- After `a` the rune 0 reads as the end of the input, so `b` is never read. -/
theorem nulSource_dropped : ¬ CoversSource asciiUnicode ['a', '\x00', 'b'] := by
  intro hcovers
  have hcomplete := hcovers.complete 1 (by decide +kernel)
  revert hcomplete
  decide +kernel

end Jayess
