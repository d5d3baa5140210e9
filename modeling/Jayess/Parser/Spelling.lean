import Jayess.Lexer.Coverage
import Jayess.Parser.ReadsTree

/-!
# Lexing a printed tree
-/

namespace Jayess

namespace Lexer

variable {unicode : Unicode} {l start : Lexer} {ch : Char} {text before after : List Char}

theorem current_of_rest (hrest : l.rest = ch :: after) : l.current = ch := by
  rw [current_eq, hrest]
  rfl

theorem rest_advance (hrest : l.rest = ch :: after) (hclean : ch ≠ endRune) :
    l.Reads [ch] l.advance ∧ l.advance.rest = after := by
  have hcurrent := current_of_rest hrest
  have hreads := reads_advance (l := l) (by rwa [hcurrent])
  rw [hcurrent] at hreads
  have hsplit := hreads.rest
  rw [hrest] at hsplit
  exact ⟨hreads, ((List.cons_inj_right ch).mp hsplit).symm⟩

theorem Reads.rest_eq {l' : Lexer} (hreads : l.Reads text l') (hrest : l.rest = text ++ after) :
    l'.rest = after :=
  List.append_cancel_left (hreads.rest.symm.trans hrest)

section Unicode

theorem space_isIdentifierPart : unicode.isIdentifierPart ' ' = false := by
  have hletter := unicode.isLetter_ascii ' ' (by decide)
  have hdigit := unicode.isDigit_ascii ' ' (by decide)
  rw [Unicode.isIdentifierPart, Unicode.isIdentifierStart, hletter, hdigit]
  decide

theorem isDigit_of_ascii (hascii : ch.toNat < 128) (hdigit : ch.isDigit = false) :
    unicode.isDigit ch = false := by
  rw [unicode.isDigit_ascii ch hascii, hdigit]

theorem isIdentifierStart_of_ascii (hascii : ch.toNat < 128) (halpha : ch.isAlpha = false)
    (hunderscore : ch ≠ '_') (hdollar : ch ≠ '$') : unicode.isIdentifierStart ch = false := by
  rw [Unicode.isIdentifierStart, unicode.isLetter_ascii ch hascii, halpha]
  simp [hunderscore, hdollar]

end Unicode

theorem readIdentifierLoop_word (rounds : Nat) (l : Lexer) (hrest : l.rest = text ++ ' ' :: after)
    (hparts : text.all unicode.isIdentifierPart = true) (hrounds : text.length < rounds) :
    l.Reads text (readIdentifierLoop unicode rounds l) := by
  induction rounds generalizing l text with
  | zero => omega
  | succ rounds ih =>
      rw [readIdentifierLoop]
      cases text with
      | nil =>
          rw [current_of_rest hrest, space_isIdentifierPart]
          exact .refl l
      | cons ch text =>
          rw [List.all_cons, Bool.and_eq_true] at hparts
          have hclean : ch ≠ endRune := by
            rintro rfl
            rw [endRune_isIdentifierPart] at hparts
            exact Bool.false_ne_true hparts.1
          obtain ⟨hreads, hrest'⟩ := rest_advance hrest hclean
          rw [current_of_rest hrest, hparts.1]
          exact hreads.trans (ih l.advance hrest' hparts.2 (by simp at hrounds; omega))

theorem readNumberLoop_number (rounds : Nat) (dotSeen : Bool) (l : Lexer)
    (hbefore : start.Reads before l) (hrest : l.rest = text ++ ' ' :: after)
    (htext : Leaf.isNumberText unicode dotSeen text = true) (hrounds : text.length < rounds) :
    ∃ l', readNumberLoop unicode start rounds dotSeen l =
        ((String.ofList (before ++ text), false), l') ∧ start.Reads (before ++ text) l' := by
  induction rounds generalizing dotSeen l text before with
  | zero => omega
  | succ rounds ih =>
      rw [readNumberLoop]
      cases text with
      | nil =>
          have hspace : unicode.isDigit ' ' = false := isDigit_of_ascii (by decide) (by decide)
          have hcurrent : l.current = ' ' := current_of_rest hrest
          refine ⟨l, ?_, by simpa using hbefore⟩
          simp [hcurrent, hspace, hbefore.textUntil]
      | cons ch text =>
          have hcurrent : l.current = ch := current_of_rest hrest
          have hclean : ch ≠ endRune := by
            rintro rfl
            simp only [Leaf.isNumberText, endRune_isDigit] at htext
            exact absurd htext (by simp [endRune])
          obtain ⟨hreads, hrest'⟩ := rest_advance hrest hclean
          have hbefore' := hbefore.trans hreads
          simp only [List.length_cons] at hrounds
          rw [hcurrent]
          rw [Leaf.isNumberText] at htext
          by_cases hdigit : unicode.isDigit ch = true
          · rw [if_pos hdigit] at htext ⊢
            simpa using ih dotSeen l.advance hbefore' hrest' htext (by omega)
          · rw [if_neg hdigit] at htext ⊢
            simp only [Bool.and_eq_true, decide_eq_true_eq] at htext
            rw [if_pos htext.1]
            simpa using ih true l.advance hbefore' hrest' htext.2 (by omega)

theorem readNumberLoop_bigInt (rounds : Nat) (l : Lexer)
    (hbefore : start.Reads before l) (hrest : l.rest = text ++ 'n' :: after)
    (htext : text.all unicode.isDigit = true) (hrounds : text.length < rounds) :
    ∃ l', readNumberLoop unicode start rounds false l =
        ((String.ofList (before ++ text), true), l') ∧ start.Reads (before ++ (text ++ ['n'])) l' := by
  induction rounds generalizing l text before with
  | zero => omega
  | succ rounds ih =>
      rw [readNumberLoop]
      cases text with
      | nil =>
          have hn : unicode.isDigit 'n' = false := isDigit_of_ascii (by decide) (by decide)
          have hcurrent : l.current = 'n' := current_of_rest hrest
          refine ⟨l.advance, ?_, hbefore.trans (rest_advance hrest (by decide)).1⟩
          simp [hcurrent, hn, hbefore.textUntil]
      | cons ch text =>
          rw [List.all_cons, Bool.and_eq_true] at htext
          have hclean : ch ≠ endRune := by
            rintro rfl
            rw [endRune_isDigit] at htext
            exact Bool.false_ne_true htext.1
          obtain ⟨hreads, hrest'⟩ := rest_advance hrest hclean
          simp only [List.length_cons] at hrounds
          rw [current_of_rest hrest, if_pos htext.1]
          simpa using ih l.advance (hbefore.trans hreads) hrest' htext.2 (by omega)

theorem readStringLoop_string {quote : Char} (rounds : Nat) (l : Lexer)
    (hquote : quote = '"' ∨ quote = '\'') (hbefore : start.Reads before l)
    (hrest : l.rest = text ++ quote :: after) (htext : Leaf.isStringText quote text = true)
    (hrounds : text.length < rounds) :
    ∃ l', readStringLoop start quote rounds l = (some (String.ofList (before ++ text)), l') ∧
      start.Reads (before ++ (text ++ [quote])) l' := by
  induction rounds generalizing l text before with
  | zero => omega
  | succ rounds ih =>
      rw [readStringLoop]
      cases text with
      | nil =>
          have hcurrent : l.current = quote := current_of_rest hrest
          have hplain : quote ≠ endRune ∧ quote ≠ '\n' ∧ quote ≠ '\\' := by
            rcases hquote with rfl | rfl <;> decide
          refine ⟨l.advance, ?_, hbefore.trans (rest_advance hrest hplain.1).1⟩
          simp [hcurrent, hplain, hbefore.textUntil]
      | cons ch text =>
          rw [Leaf.isStringText.eq_def] at htext
          dsimp only at htext
          by_cases hstop : ch = endRune ∨ ch = '\n'
          · rw [if_pos hstop] at htext
            exact absurd htext Bool.false_ne_true
          rw [if_neg hstop] at htext
          obtain ⟨hreads, hrest'⟩ := rest_advance hrest fun h => hstop (.inl h)
          simp only [List.length_cons] at hrounds
          rw [current_of_rest hrest, if_neg hstop]
          by_cases hescape : ch = '\\'
          · rw [if_pos hescape] at htext ⊢
            cases text with
            | nil => exact absurd htext Bool.false_ne_true
            | cons escaped text =>
                simp only [Bool.and_eq_true, decide_eq_true_eq] at htext
                obtain ⟨⟨hend, hline⟩, htext⟩ := htext
                obtain ⟨hreads₂, hrest₂⟩ := rest_advance hrest' hend
                simp only [List.length_cons] at hrounds
                rw [current_of_rest hrest', if_neg (by simp [hend, hline])]
                simpa using ih l.advance.advance (hbefore.trans (hreads.trans hreads₂)) hrest₂ htext
                  (by omega)
          · rw [if_neg hescape] at htext ⊢
            simp only [Bool.and_eq_true, decide_eq_true_eq] at htext
            rw [if_neg htext.1]
            simpa using ih l.advance (hbefore.trans hreads) hrest' htext.2 (by omega)

theorem readTemplateLoop_template (rounds : Nat) (l : Lexer) (hbefore : start.Reads before l)
    (hrest : l.rest = text ++ '\x60' :: after) (htext : Leaf.isTemplateText text = true)
    (hrounds : text.length < rounds) :
    ∃ l', readTemplateLoop start rounds 0 l = (some (String.ofList (before ++ text)), l') ∧
      start.Reads (before ++ (text ++ ['\x60'])) l' := by
  induction rounds generalizing l text before with
  | zero => omega
  | succ rounds ih =>
      rw [readTemplateLoop]
      cases text with
      | nil =>
          have hcurrent : l.current = '\x60' := current_of_rest hrest
          refine ⟨l.advance, ?_, hbefore.trans (rest_advance hrest (by decide)).1⟩
          simp [hcurrent, hbefore.textUntil, endRune]
      | cons ch text =>
          rw [Leaf.isTemplateText] at htext
          simp only [Bool.and_eq_true, decide_eq_true_eq] at htext
          obtain ⟨⟨⟨hclean, hbacktick⟩, hdollar⟩, htext⟩ := htext
          obtain ⟨hreads, hrest'⟩ := rest_advance hrest hclean
          simp only [List.length_cons] at hrounds
          have hopen : ¬(ch = '$' ∧ l.peek = '\x7b') := by
            rintro ⟨rfl, hpeek⟩
            rw [peek_eq, hrest] at hpeek
            cases text with
            | nil =>
                change '\x60' = '\x7b' at hpeek
                exact absurd hpeek (by decide)
            | cons next text =>
                have hnext : next = '\x7b' := hpeek
                simp [hnext] at hdollar
          rw [current_of_rest hrest, if_neg hclean, if_neg (fun h => hbacktick h.1), if_neg hopen]
          simpa using ih l.advance (hbefore.trans hreads) hrest' htext (by omega)

def Spells (unicode : Unicode) (piece : Piece) : Prop :=
  ∀ (l : Lexer) (after : List Char), l.rest = piece.source ++ ' ' :: after →
    ∃ l', l.readToken unicode = (⟨piece.type, piece.literal, l.line, l.column⟩, l') ∧
      l.Reads piece.source l'

def Solid (text : List Char) : Prop :=
  ∃ ch rest, text = ch :: rest ∧ ch ≠ endRune ∧ isSpace ch = false ∧ ch ≠ '#' ∧
    (ch = '/' → rest = [])

theorem spells_word (unicode : Unicode) (word : String)
    (hword : Leaf.isWord unicode word.toList = true) :
    Spells unicode (.verbatim (lookupIdent word) word) := by
  intro l after hrest
  have hrest' : l.rest = word.toList ++ ' ' :: after := hrest
  obtain ⟨ch, text, htext⟩ : ∃ ch text, word.toList = ch :: text := by
    cases hlist : word.toList with
    | nil => simp [hlist, Leaf.isWord] at hword
    | cons ch text => exact ⟨ch, text, rfl⟩
  simp only [htext, Leaf.isWord, Bool.and_eq_true] at hword
  obtain ⟨⟨-, hstart⟩, hrest₂⟩ := hword
  have hcurrent : l.current = ch := current_of_rest (by rw [hrest', htext]; rfl)
  have hpart : unicode.isIdentifierPart ch = true := by
    rw [Unicode.isIdentifierPart, hstart, Bool.true_or]
  have hreads : l.Reads word.toList (readIdentifierLoop unicode l.remaining l) := by
    apply readIdentifierLoop_word _ l hrest'
    · rw [htext, List.all_cons, hpart, hrest₂]
      rfl
    · rw [remaining_eq, hrest']
      simp
  have hclean : ch ≠ endRune := by
    rintro rfl
    rw [endRune_isIdentifierPart] at hpart
    exact Bool.false_ne_true hpart
  refine ⟨readIdentifierLoop unicode l.remaining l, ?_, hreads⟩
  rw [readToken, hcurrent, if_neg hclean, if_pos hstart, readIdentifier, hreads.textUntil]
  simp [Piece.verbatim]

theorem startsNumber_cons (htext : Leaf.startsNumber unicode text = true) :
    ∃ ch rest, text = ch :: rest ∧ unicode.isDigit ch = true ∧
      unicode.isIdentifierStart ch = false ∧ ch ≠ endRune := by
  cases text with
  | nil => simp [Leaf.startsNumber] at htext
  | cons ch rest =>
      simp only [Leaf.startsNumber, Bool.and_eq_true, Bool.not_eq_true'] at htext
      refine ⟨ch, rest, rfl, htext.1.2, htext.2, ?_⟩
      rintro rfl
      rw [endRune_isDigit] at htext
      exact Bool.false_ne_true htext.1.2

theorem spells_number (unicode : Unicode) (text : String)
    (hstarts : Leaf.startsNumber unicode text.toList = true)
    (htext : Leaf.isNumberText unicode false text.toList = true) :
    Spells unicode (.verbatim .tokenNumber text) := by
  intro l after hrest
  have hrest' : l.rest = text.toList ++ ' ' :: after := hrest
  obtain ⟨ch, rest, hlist, hdigit, hstart, hclean⟩ := startsNumber_cons hstarts
  have hcurrent : l.current = ch := current_of_rest (by rw [hrest', hlist]; rfl)
  obtain ⟨l', hrun, hreads⟩ := readNumberLoop_number l.remaining false l (.refl l) hrest' htext
    (by rw [remaining_eq, hrest']; simp)
  refine ⟨l', ?_, hreads⟩
  rw [readToken, hcurrent, if_neg hclean, hstart, if_neg Bool.false_ne_true, if_pos hdigit,
    readNumber, hrun]
  simp [Piece.verbatim]

theorem spells_bigInt (unicode : Unicode) (text : String)
    (hstarts : Leaf.startsNumber unicode text.toList = true)
    (htext : text.toList.all unicode.isDigit = true) :
    Spells unicode ⟨.tokenBigInt, text, text.toList ++ ['n']⟩ := by
  intro l after hrest
  have hrest' : l.rest = text.toList ++ 'n' :: ' ' :: after := by simpa using hrest
  obtain ⟨ch, rest, hlist, hdigit, hstart, hclean⟩ := startsNumber_cons hstarts
  have hcurrent : l.current = ch := current_of_rest (by rw [hrest', hlist]; rfl)
  obtain ⟨l', hrun, hreads⟩ := readNumberLoop_bigInt l.remaining l (.refl l) hrest' htext
    (by rw [remaining_eq, hrest']; simp)
  refine ⟨l', ?_, hreads⟩
  rw [readToken, hcurrent, if_neg hclean, hstart, if_neg Bool.false_ne_true, if_pos hdigit,
    readNumber, hrun]
  simp

theorem isMark (unicode : Unicode) (hascii : ch.toNat < 128) (halphanum : ch.isAlphanum = false)
    (hother : ch ≠ '_' ∧ ch ≠ '$') :
    unicode.isIdentifierStart ch = false ∧ unicode.isDigit ch = false := by
  rw [Char.isAlphanum, Bool.or_eq_false_iff] at halphanum
  exact ⟨isIdentifierStart_of_ascii hascii halphanum.1 hother.1 hother.2,
    isDigit_of_ascii hascii halphanum.2⟩

theorem spells_string (unicode : Unicode) (text : String) {quote : Char}
    (hquote : quote = '"' ∨ quote = '\'') (htext : Leaf.isStringText quote text.toList = true) :
    Spells unicode ⟨.tokenString, text, quote :: (text.toList ++ [quote])⟩ := by
  intro l after hrest
  have hclean : quote ≠ endRune := by rcases hquote with rfl | rfl <;> decide
  obtain ⟨hstart, hdigit⟩ : unicode.isIdentifierStart quote = false ∧
      unicode.isDigit quote = false := by
    rcases hquote with rfl | rfl <;> exact isMark unicode (by decide) (by decide) (by decide)
  have hcurrent : l.current = quote := current_of_rest hrest
  obtain ⟨hreads, hrest'⟩ := rest_advance hrest hclean
  have hrest'' : l.advance.rest = text.toList ++ quote :: ' ' :: after := by simpa using hrest'
  obtain ⟨l', hrun, hreads'⟩ := readStringLoop_string l.advance.remaining l.advance hquote
    (.refl _) hrest'' htext (by rw [remaining_eq, hrest'']; simp)
  refine ⟨l', ?_, hreads.trans hreads'⟩
  rw [readToken, hcurrent, if_neg hclean, hstart, if_neg Bool.false_ne_true, hdigit,
    if_neg Bool.false_ne_true, if_pos hquote, readString, hrun]
  simp

theorem spells_template (unicode : Unicode) (text : String)
    (htext : Leaf.isTemplateText text.toList = true) :
    Spells unicode ⟨.tokenTemplate, text, '\x60' :: (text.toList ++ ['\x60'])⟩ := by
  intro l after hrest
  obtain ⟨hstart, hdigit⟩ : unicode.isIdentifierStart '\x60' = false ∧
      unicode.isDigit '\x60' = false := isMark unicode (by decide) (by decide) (by decide)
  have hcurrent : l.current = '\x60' := current_of_rest hrest
  obtain ⟨hreads, hrest'⟩ := rest_advance hrest (by decide)
  have hrest'' : l.advance.rest = text.toList ++ '\x60' :: ' ' :: after := by simpa using hrest'
  obtain ⟨l', hrun, hreads'⟩ := readTemplateLoop_template l.advance.remaining l.advance
    (.refl _) hrest'' htext (by rw [remaining_eq, hrest'']; simp)
  refine ⟨l', ?_, hreads.trans hreads'⟩
  rw [readToken, hcurrent, if_neg (by decide), hstart, if_neg Bool.false_ne_true, hdigit,
    if_neg Bool.false_ne_true, if_neg (by decide), if_pos rfl, readTemplate, hrun]
  simp

/-- The tokens of the operators and parentheses of trees that are written with punctuation. -/
def isSymbol : TokenType → Bool
  | .tokenLParen | .tokenRParen | .tokenQuestion | .tokenColon | .tokenComma | .tokenNullish
  | .tokenAnd | .tokenOr | .tokenPlus | .tokenMinus | .tokenStar | .tokenPower | .tokenSlash
  | .tokenPercent | .tokenBitAnd | .tokenBitOr | .tokenBitXor | .tokenShiftLeft | .tokenShiftRight
  | .tokenUnsignedShift | .tokenEq | .tokenNe | .tokenStrictEq | .tokenStrictNe | .tokenLt
  | .tokenLte | .tokenGt | .tokenGte | .tokenBang | .tokenBitNot | .tokenIncrement
  | .tokenDecrement => true
  | _ => false

variable {type : TokenType}

theorem punctuation_symbol (hsymbol : isSymbol type = true) (after : List Char) :
    punctuation ((type.text.toList ++ ' ' :: after).getD 0 endRune)
      ((type.text.toList ++ ' ' :: after).getD 1 endRune)
      ((type.text.toList ++ ' ' :: after).getD 2 endRune)
      ((type.text.toList ++ ' ' :: after).getD 3 endRune) = some (type, type.text) := by
  cases type <;> first | rfl | exact absurd hsymbol Bool.false_ne_true

theorem symbol_starts (hsymbol : isSymbol type = true) :
    ∃ ch text, type.text.toList = ch :: text ∧ ch.toNat < 128 ∧ ch.isAlphanum = false ∧
      (ch ≠ '_' ∧ ch ≠ '$') ∧ ch ≠ endRune ∧ ch ≠ '"' ∧ ch ≠ '\'' ∧ ch ≠ '\x60' ∧
      endRune ∉ type.text.toList := by
  cases type <;>
    first
      | exact absurd hsymbol Bool.false_ne_true
      | exact ⟨_, _, rfl, by decide, by decide, by decide, by decide, by decide, by decide,
          by decide, by decide⟩

theorem spells_symbol (unicode : Unicode) (hsymbol : isSymbol type = true) :
    Spells unicode (.symbol type) := by
  intro l after hrest
  have hrest' : l.rest = type.text.toList ++ ' ' :: after := hrest
  obtain ⟨ch, text, htext, hascii, halphanum, hother, hclean, hdouble, hsingle, hbacktick, hfree⟩ :=
    symbol_starts hsymbol
  obtain ⟨hstart, hdigit⟩ := isMark unicode hascii halphanum hother
  have hcurrent : l.current = ch := current_of_rest (by rw [hrest', htext]; rfl)
  have hpunctuation : punctuation l.current l.peek l.peekSecond l.peekThird =
      some (type, type.text) := by
    rw [current_eq, peek_eq, peekSecond_eq, peekThird_eq, hrest']
    exact punctuation_symbol hsymbol after
  have hreads := advanceBy_reads type.text.toList (' ' :: after) l hrest' hfree
  rw [String.length_toList] at hreads
  refine ⟨l.advanceBy type.text.length, ?_, hreads⟩
  rw [readToken, hcurrent, if_neg hclean, hstart, if_neg Bool.false_ne_true, hdigit,
    if_neg Bool.false_ne_true, if_neg (by simp [hdouble, hsingle]), if_neg hbacktick,
    readPunctuation, hpunctuation]
  rfl

theorem solid_word (hword : Leaf.isWord unicode text = true) : Solid text := by
  cases text with
  | nil => exact absurd hword Bool.false_ne_true
  | cons ch rest =>
      simp only [Leaf.isWord, Bool.and_eq_true, Bool.not_eq_true'] at hword
      obtain ⟨⟨hspace, hstart⟩, -⟩ := hword
      have hother : ∀ mark : Char, mark.toNat < 128 → mark.isAlphanum = false →
          mark ≠ '_' ∧ mark ≠ '$' → ch ≠ mark := by
        rintro mark hascii halphanum hmark rfl
        rw [(isMark unicode hascii halphanum hmark).1] at hstart
        exact Bool.false_ne_true hstart
      refine ⟨ch, rest, rfl, ?_, hspace, ?_, fun h => absurd h ?_⟩
      · exact hother endRune (by decide) (by decide) (by decide)
      · exact hother '#' (by decide) (by decide) (by decide)
      · exact hother '/' (by decide) (by decide) (by decide)

theorem solid_number (htext : Leaf.startsNumber unicode text = true) (after : List Char) :
    Solid (text ++ after) := by
  cases text with
  | nil => exact absurd htext Bool.false_ne_true
  | cons ch rest =>
      simp only [Leaf.startsNumber, Bool.and_eq_true, Bool.not_eq_true'] at htext
      obtain ⟨⟨hspace, hdigit⟩, -⟩ := htext
      have hother : ∀ mark : Char, mark.toNat < 128 → mark.isAlphanum = false →
          mark ≠ '_' ∧ mark ≠ '$' → ch ≠ mark := by
        rintro mark hascii halphanum hmark rfl
        rw [(isMark unicode hascii halphanum hmark).2] at hdigit
        exact Bool.false_ne_true hdigit
      refine ⟨ch, rest ++ after, rfl, ?_, hspace, ?_, fun h => absurd h ?_⟩
      · exact hother endRune (by decide) (by decide) (by decide)
      · exact hother '#' (by decide) (by decide) (by decide)
      · exact hother '/' (by decide) (by decide) (by decide)

theorem isWord_of_ascii (unicode : Unicode) (hne : text ≠ [])
    (hletters : ∀ ch ∈ text, ch.toNat < 128 ∧ ch.isAlpha = true ∧ isSpace ch = false) :
    Leaf.isWord unicode text = true := by
  have hstart : ∀ ch ∈ text, unicode.isIdentifierStart ch = true := by
    intro ch hmem
    obtain ⟨hascii, halpha, -⟩ := hletters ch hmem
    rw [Unicode.isIdentifierStart, unicode.isLetter_ascii ch hascii, halpha]
    simp
  cases text with
  | nil => contradiction
  | cons ch rest =>
      have hrest : rest.all unicode.isIdentifierPart = true := by
        rw [List.all_eq_true]
        intro part hmem
        rw [Unicode.isIdentifierPart, hstart part (List.mem_cons_of_mem _ hmem), Bool.true_or]
      rw [Leaf.isWord, hstart ch List.mem_cons_self, (hletters ch List.mem_cons_self).2.2, hrest]
      rfl

def isAsciiLetter (ch : Char) : Bool :=
  decide (ch.toNat < 128 ∧ ch.isAlpha = true ∧ isSpace ch = false)

theorem spells_keyword (unicode : Unicode) (word : String) (hne : word.toList ≠ [])
    (hletters : word.toList.all isAsciiLetter = true) :
    Spells unicode (.verbatim (lookupIdent word) word) ∧ Solid word.toList := by
  have hword := isWord_of_ascii unicode hne fun ch hch =>
    of_decide_eq_true (List.all_eq_true.mp hletters ch hch)
  exact ⟨spells_word unicode word hword, solid_word hword⟩

theorem solid_symbol (hsymbol : isSymbol type = true) :
    Solid type.text.toList := by
  cases type <;>
    first
      | exact absurd hsymbol Bool.false_ne_true
      | exact ⟨_, _, rfl, by decide, by decide, by decide, by decide⟩

theorem quoteFor_spec (htext : Leaf.isStringText '"' text = true ∨ Leaf.isStringText '\'' text = true) :
    (Leaf.quoteFor text = '"' ∨ Leaf.quoteFor text = '\'') ∧
      Leaf.isStringText (Leaf.quoteFor text) text = true := by
  unfold Leaf.quoteFor
  split
  · rename_i hdouble
    exact ⟨.inl rfl, hdouble⟩
  · rename_i hdouble
    exact ⟨.inr rfl, htext.resolve_left hdouble⟩

theorem spells_leaf {leaf : Leaf} (hleaf : leaf.IsToken unicode) :
    Spells unicode leaf.piece ∧ Solid leaf.piece.source := by
  cases leaf with
  | identifier name =>
      have hspells := spells_word unicode name hleaf.1
      rw [hleaf.2] at hspells
      exact ⟨hspells, solid_word hleaf.1⟩
  | number text =>
      refine ⟨spells_number unicode text hleaf.1 hleaf.2, ?_⟩
      simpa [Leaf.piece, Piece.verbatim] using solid_number hleaf.1 []
  | bigInt text => exact ⟨spells_bigInt unicode text hleaf.1 hleaf.2, solid_number hleaf.1 ['n']⟩
  | string text =>
      obtain ⟨hquote, htext⟩ := quoteFor_spec hleaf
      refine ⟨spells_string unicode text hquote htext, _, _, rfl, ?_⟩
      rcases hquote with h | h <;> rw [h] <;>
        exact ⟨by decide, by decide, by decide, fun h => absurd h (by decide)⟩
  | template text =>
      refine ⟨spells_template unicode text hleaf, _, _, rfl, ?_⟩
      exact ⟨by decide, by decide, by decide, fun h => absurd h (by decide)⟩
  | boolean value =>
      cases value
      · exact spells_keyword unicode "false" (by decide) (by decide)
      · exact spells_keyword unicode "true" (by decide) (by decide)
  | null => exact spells_keyword unicode "null" (by decide) (by decide)
  | undefined => exact spells_keyword unicode "undefined" (by decide) (by decide)

theorem spells_prefix (unicode : Unicode) (operator : PrefixOperator) :
    Spells unicode operator.piece ∧ Solid operator.piece.source := by
  cases operator with
  | unary operator =>
      cases operator with
      | void => exact spells_keyword unicode "void" (by decide) (by decide)
      | delete => exact spells_keyword unicode "delete" (by decide) (by decide)
      | not | bitNot | negate | positive => exact ⟨spells_symbol unicode rfl, solid_symbol rfl⟩
  | typeof => exact spells_keyword unicode "typeof" (by decide) (by decide)
  | await => exact spells_keyword unicode "await" (by decide) (by decide)

theorem spells_infix (unicode : Unicode) (operator : InfixOperator) :
    Spells unicode operator.piece ∧ Solid operator.piece.source := by
  cases operator with
  | comma | nullish => exact ⟨spells_symbol unicode rfl, solid_symbol rfl⟩
  | instanceof => exact spells_keyword unicode "instanceof" (by decide) (by decide)
  | comparison operator =>
      cases operator with
      | «in» => exact spells_keyword unicode "in" (by decide) (by decide)
      | _ => exact ⟨spells_symbol unicode rfl, solid_symbol rfl⟩
  | logical operator | binary operator =>
      cases operator <;> exact ⟨spells_symbol unicode rfl, solid_symbol rfl⟩

def Printable (unicode : Unicode) (piece : Piece) : Prop :=
  Spells unicode piece ∧ Solid piece.source ∧ piece.type.isPlain = true

theorem printable_symbol (unicode : Unicode) (hsymbol : isSymbol type = true)
    (hplain : type.isPlain = true) : Printable unicode (.symbol type) :=
  ⟨spells_symbol unicode hsymbol, solid_symbol hsymbol, hplain⟩

theorem printable_parenthesize {minimum : Nat} {tree : OperatorTree} {pieces : List Piece}
    (hpieces : ∀ piece ∈ pieces, Printable unicode piece) :
    ∀ piece ∈ OperatorTree.parenthesize minimum tree pieces, Printable unicode piece := by
  intro piece hmem
  unfold OperatorTree.parenthesize at hmem
  split at hmem
  · simp only [List.mem_cons, List.mem_append, List.not_mem_nil, or_false] at hmem
    rcases hmem with rfl | hmem | rfl
    · exact printable_symbol unicode rfl rfl
    · exact hpieces piece hmem
    · exact printable_symbol unicode rfl rfl
  · exact hpieces piece hmem

theorem printable_leaf {leaf : Leaf} (hleaf : leaf.IsToken unicode) :
    Printable unicode leaf.piece := by
  obtain ⟨hspells, hsolid⟩ := spells_leaf hleaf
  refine ⟨hspells, hsolid, ?_⟩
  cases leaf with
  | boolean value => cases value <;> rfl
  | _ => rfl

theorem printable_tree {tree : OperatorTree} (htree : tree.IsWritten unicode) :
    ∀ piece ∈ tree.pieces, Printable unicode piece := by
  induction tree with
  | leaf leaf =>
      intro piece hmem
      rw [List.mem_singleton.mp hmem]
      exact printable_leaf htree
  | update operator name =>
      intro piece hmem
      simp only [OperatorTree.pieces, List.mem_cons, List.not_mem_nil, or_false] at hmem
      rcases hmem with rfl | rfl
      · cases operator <;> exact printable_symbol unicode rfl rfl
      · exact printable_leaf htree
  | prefixed operator operand ih =>
      intro piece hmem
      simp only [OperatorTree.pieces, List.mem_cons] at hmem
      rcases hmem with rfl | hmem
      · obtain ⟨hspells, hsolid⟩ := spells_prefix unicode operator
        refine ⟨hspells, hsolid, ?_⟩
        cases operator with
        | unary operator => cases operator <;> rfl
        | typeof | await => rfl
      · exact printable_parenthesize (ih htree) piece hmem
  | binary operator left right ihl ihr =>
      intro piece hmem
      simp only [OperatorTree.pieces, List.mem_append, List.mem_cons] at hmem
      rcases hmem with hmem | rfl | hmem
      · exact printable_parenthesize (ihl htree.1) piece hmem
      · obtain ⟨hspells, hsolid⟩ := spells_infix unicode operator
        refine ⟨hspells, hsolid, ?_⟩
        cases operator with
        | comma | nullish | instanceof => rfl
        | logical operator | binary operator | comparison operator => cases operator <;> rfl
      · exact printable_parenthesize (ihr htree.2) piece hmem
  | conditional condition consequent alternative ihc iht ihe =>
      intro piece hmem
      simp only [OperatorTree.pieces, List.mem_append, List.mem_cons] at hmem
      rcases hmem with hmem | rfl | hmem | rfl | hmem
      · exact printable_parenthesize (ihc htree.1) piece hmem
      · exact printable_symbol unicode rfl rfl
      · exact printable_parenthesize (iht htree.2.1) piece hmem
      · exact printable_symbol unicode rfl rfl
      · exact printable_parenthesize (ihe htree.2.2) piece hmem

theorem skipIgnoredLoop_solid (rounds : Nat) (l : Lexer) (hsolid : Solid text)
    (hrest : l.rest = text ++ ' ' :: after) : skipIgnoredLoop rounds l = (none, l) := by
  cases rounds with
  | zero => rfl
  | succ rounds =>
      obtain ⟨ch, rest, rfl, hclean, hspace, hhash, hslash⟩ := hsolid
      have hcurrent : l.current = ch := current_of_rest hrest
      have hcomment : ch = '/' → l.peek = ' ' := by
        intro h
        rw [peek_eq, hrest, hslash h]
        rfl
      rw [skipIgnoredLoop, hcurrent, if_neg hclean, if_neg (fun h => hhash h.2.1), hspace,
        if_neg Bool.false_ne_true, if_neg ?_, if_neg ?_]
      · rintro ⟨h, hpeek⟩
        rw [hcomment h] at hpeek
        exact absurd hpeek (by decide)
      · rintro ⟨h, hpeek⟩
        rw [hcomment h] at hpeek
        exact absurd hpeek (by decide)

theorem skipIgnored_space (l : Lexer) (hsolid : Solid text)
    (hrest : l.rest = ' ' :: (text ++ ' ' :: after)) : l.skipIgnored = (none, l.advance) := by
  have hcurrent : l.current = ' ' := current_of_rest hrest
  obtain ⟨hreads, hrest'⟩ := rest_advance hrest (by decide)
  obtain ⟨rounds, hrounds⟩ : ∃ rounds, l.remaining = rounds + 1 := by
    rw [remaining_eq, hrest]
    exact ⟨_, rfl⟩
  rw [skipIgnored, hrounds, skipIgnoredLoop, hcurrent, if_neg (by decide), if_neg (by simp),
    if_pos (by decide)]
  exact skipIgnoredLoop_solid rounds l.advance hsolid hrest'

def spaced (pieces : List Piece) : List Char := pieces.flatMap fun piece => piece.source ++ [' ']

theorem spaced_cons (piece : Piece) (pieces : List Piece) :
    spaced (piece :: pieces) = piece.source ++ ' ' :: spaced pieces := by
  simp [spaced]

theorem nextToken_of_skipIgnored {l' : Lexer} {piece : Piece} (hspells : Spells unicode piece)
    (hskip : l.skipIgnored = (none, l')) (hrest : l'.rest = piece.source ++ ' ' :: after) :
    (l.nextToken unicode).1.type = piece.type ∧ (l.nextToken unicode).1.literal = piece.literal ∧
      (l.nextToken unicode).2.rest = ' ' :: after := by
  obtain ⟨stop, hrun, hreads⟩ := hspells l' after hrest
  have hnext : l.nextToken unicode = (⟨piece.type, piece.literal, l'.line, l'.column⟩, stop) := by
    rw [nextToken, hskip, ← hrun]
  rw [hnext]
  exact ⟨rfl, rfl, hreads.rest_eq hrest⟩

theorem nextToken_end (l : Lexer) (hrest : l.rest = [' ']) :
    (l.nextToken unicode).1.type = .tokenEOF := by
  have hcurrent : l.current = ' ' := current_of_rest hrest
  obtain ⟨hreads, hrest'⟩ := rest_advance hrest (by decide)
  have hend : l.advance.current = endRune := by
    rw [current_eq, hrest']
    rfl
  have hremaining : l.remaining = 1 := by
    rw [remaining_eq, hrest]
    rfl
  have hskip : l.skipIgnored = (none, l.advance) := by
    rw [skipIgnored, hremaining, skipIgnoredLoop, hcurrent, if_neg (by decide), if_neg (by simp),
      if_pos (by decide)]
    rfl
  rw [nextToken, hskip]
  simp only [readToken, hend, if_true]

end Lexer

namespace Parser

variable {unicode : Unicode} {p : Parser} {piece : Piece} {pieces : List Piece}

open Lexer

theorem ahead_advanced (hprintable : ∀ piece ∈ pieces, Printable p.unicode piece)
    (hrest : p.lexer.rest = ' ' :: spaced pieces) : p.advanced.Ahead pieces := by
  induction pieces generalizing p with
  | nil => exact nextToken_end p.lexer hrest
  | cons piece pieces ih =>
      obtain ⟨hspells, hsolid, hplain⟩ := hprintable piece List.mem_cons_self
      rw [spaced_cons] at hrest
      have hskip := skipIgnored_space p.lexer hsolid hrest
      obtain ⟨htype, hliteral, hrest'⟩ :=
        nextToken_of_skipIgnored hspells hskip (rest_advance hrest (by decide)).2
      refine ⟨htype, hliteral, hplain, ?_⟩
      apply ih
      · exact fun other hmem => hprintable other (List.mem_cons_of_mem _ hmem)
      · exact hrest'

theorem ahead_new (hprintable : ∀ other ∈ piece :: pieces, Printable unicode other) :
    (Parser.new unicode (spaced (piece :: pieces))).Ahead (piece :: pieces) := by
  obtain ⟨hspells, hsolid, hplain⟩ := hprintable piece List.mem_cons_self
  have hrest : (Lexer.new (spaced (piece :: pieces))).rest = piece.source ++ ' ' :: spaced pieces :=
    spaced_cons piece pieces
  have hskip : (Lexer.new (spaced (piece :: pieces))).skipIgnored =
      (none, Lexer.new (spaced (piece :: pieces))) := skipIgnoredLoop_solid _ _ hsolid hrest
  obtain ⟨htype, hliteral, hrest'⟩ := nextToken_of_skipIgnored hspells hskip hrest
  refine ⟨htype, hliteral, hplain, ?_⟩
  apply ahead_advanced
  · exact fun other hmem => hprintable other (List.mem_cons_of_mem _ hmem)
  · exact hrest'

end Parser

end Jayess
