import Jayess.Template.Split

/-!
# Reading a template literal back

The token of a template literal, the expressions that the parser takes out of it and the text that the
evaluator makes of it are those of the literal as it is written exactly when the counters of the
three scanners fit its raw text.
-/

namespace Jayess

/-- Every `$` with a brace opens and every closing brace closes a level; no backtick stands outside
all levels, none is left open, and no rune 0 ends the text. -/
def Levelled : Nat → List Char → Bool
  | depth, [] => depth = 0
  | depth, ch :: rest =>
      ch ≠ endRune && !(ch = '\x60' && depth = 0) &&
        Levelled (if ch = '$' ∧ rest.head? = some '\x7b' then depth + 1
          else if ch = '\x7d' then depth - 1 else depth) rest

theorem levelled_brace (depth : Nat) (rest : List Char) :
    Levelled depth ('\x7b' :: rest) = Levelled depth rest := by
  rw [Levelled, if_neg (by simp), if_neg (by decide)]
  simp [endRune]

namespace Lexer

variable {unicode : Unicode} {l start : Lexer} {text before after : List Char}

theorem readTemplateLoop_starts (rounds depth : Nat) (l : Lexer) (hbefore : start.Reads before l)
    (literal : String) (hrun : (readTemplateLoop start rounds depth l).1 = some literal) :
    before <+: literal.toList := by
  induction rounds generalizing depth l before with
  | zero => simp [readTemplateLoop] at hrun
  | succ rounds ih =>
      rw [readTemplateLoop] at hrun
      split_ifs at hrun with hend hclose hopen hlevel
      · rw [hbefore.textUntil, Option.some.injEq] at hrun
        simp [← hrun]
      · have hreads := reads_advance hend
        have hbrace : l.advance.current = '\x7b' := (peek_of_reads hend).trans hopen.2
        have hreads' := reads_advance (l := l.advance) (by rw [hbrace]; decide)
        exact (List.prefix_append _ _).trans
          (ih _ _ (hbefore.trans (hreads.trans hreads')) hrun)
      · exact (List.prefix_append _ _).trans (ih _ _ (hbefore.trans (reads_advance hend)) hrun)
      · exact (List.prefix_append _ _).trans (ih _ _ (hbefore.trans (reads_advance hend)) hrun)

theorem readTemplateLoop_iff (rounds depth : Nat) (l : Lexer) (hbefore : start.Reads before l)
    (hrest : l.rest = text ++ '\x60' :: after) (hrounds : text.length < rounds) :
    (readTemplateLoop start rounds depth l).1 = some (String.ofList (before ++ text)) ↔
      Levelled depth text = true := by
  induction rounds generalizing depth l text before with
  | zero => omega
  | succ rounds ih =>
      cases text with
      | nil =>
          obtain ⟨hreads, -⟩ := rest_advance hrest (by decide)
          have hcurrent : l.current = '\x60' := current_of_rest hrest
          rw [readTemplateLoop, hcurrent, if_neg (by decide), Levelled, List.append_nil]
          by_cases hdepth : depth = 0
          · rw [if_pos ⟨rfl, hdepth⟩, hbefore.textUntil]
            simp [hdepth]
          · rw [if_neg (by simp [hdepth]), if_neg (by simp), if_neg (by simp)]
            have hlonger : (readTemplateLoop start rounds depth l.advance).1 ≠
                some (String.ofList before) := by
              intro hrun
              have hstarts := readTemplateLoop_starts _ _ _ (hbefore.trans hreads) _ hrun
              have hlength := hstarts.length_le
              rw [String.toList_ofList] at hlength
              simp at hlength
            simp [hlonger, hdepth]
      | cons ch text =>
          rw [List.length_cons] at hrounds
          have hcurrent : l.current = ch := current_of_rest hrest
          by_cases hend : ch = endRune
          · rw [readTemplateLoop, hcurrent, if_pos hend, Levelled]
            simp [hend]
          obtain ⟨hreads, hrest'⟩ := rest_advance hrest hend
          have hpeek : ch = '$' ∧ l.peek = '\x7b' ↔ ch = '$' ∧ text.head? = some '\x7b' := by
            rw [peek_eq, hrest]
            cases text with
            | nil => simp
            | cons next text => simp
          rw [readTemplateLoop, hcurrent, if_neg hend, Levelled]
          by_cases hclose : ch = '\x60' ∧ depth = 0
          · rw [if_pos hclose, hbefore.textUntil]
            refine iff_of_false ?_ (by simp [hclose])
            intro hsame
            have hlists := congrArg (List.length ∘ String.toList) (Option.some.inj hsame)
            simp at hlists
          have hkeeps : (ch ≠ endRune && !(ch = '\x60' && depth = 0)) = true := by
            simpa [hend, imp_iff_not_or] using hclose
          rw [if_neg hclose, hkeeps, Bool.true_and, if_congr hpeek rfl rfl]
          by_cases hopen : ch = '$' ∧ text.head? = some '\x7b'
          · rw [if_pos hopen, if_pos hopen]
            obtain ⟨tail, rfl⟩ := List.head?_eq_some_iff.mp hopen.2
            rw [List.length_cons] at hrounds
            obtain ⟨hreads', hrest''⟩ := rest_advance hrest' (by decide)
            rw [levelled_brace, ← ih (depth + 1) l.advance.advance
              (hbefore.trans (hreads.trans hreads')) hrest'' (by omega)]
            simp
          · rw [if_neg hopen, if_neg hopen]
            have hlevel : (if ch = '\x7d' ∧ depth > 0 then depth - 1 else depth) =
                if ch = '\x7d' then depth - 1 else depth := by
              by_cases hbrace : ch = '\x7d'
              · simp only [hbrace, true_and, if_true]
                split_ifs <;> omega
              · rw [if_neg hbrace, if_neg (fun h => hbrace h.1)]
            rw [hlevel, ← ih _ l.advance (hbefore.trans hreads) hrest' (by omega)]
            simp

theorem nextToken_backtick (unicode : Unicode) (hrest : l.rest = '\x60' :: text) :
    l.nextToken unicode = match l.advance.readTemplate with
      | (some literal, stop) => (⟨.tokenTemplate, literal, l.line, l.column⟩, stop)
      | (none, stop) => (⟨.tokenIllegal, "unterminated template", l.line, l.column⟩, stop) := by
  have hcurrent : l.current = '\x60' := current_of_rest hrest
  obtain ⟨hstart, hdigit⟩ : unicode.isIdentifierStart '\x60' = false ∧
      unicode.isDigit '\x60' = false := isMark unicode (by decide) (by decide) (by decide)
  have hskip : l.skipIgnored = (none, l) := by
    rw [skipIgnored]
    cases l.remaining with
    | zero => rfl
    | succ rounds =>
        rw [skipIgnoredLoop, hcurrent, if_neg (by decide), if_neg (by simp), if_neg (by decide),
          if_neg (by simp), if_neg (by simp)]
  rw [nextToken, hskip]
  simp only [readToken, hcurrent, hstart, hdigit]
  rfl

def ReadsTemplate (raw : List Char) : Prop :=
  ∀ (unicode : Unicode) (l : Lexer) (after : List Char), l.rest = '\x60' :: (raw ++ '\x60' :: after) →
    ∃ l', l.nextToken unicode = (⟨.tokenTemplate, String.ofList raw, l.line, l.column⟩, l') ∧
      l'.rest = after

theorem readsTemplate_iff (unicode : Unicode) (raw : List Char) :
    ReadsTemplate raw ↔ Levelled 0 raw = true := by
  constructor
  · intro hreads
    have hrest : (Lexer.new ('\x60' :: (raw ++ ['\x60']))).rest = '\x60' :: (raw ++ ['\x60']) := rfl
    obtain ⟨l', hnext, -⟩ := hreads unicode _ [] hrest
    obtain ⟨-, hrest'⟩ := rest_advance hrest (by decide)
    have hloop := readTemplateLoop_iff (Lexer.new ('\x60' :: (raw ++ ['\x60']))).advance.remaining 0
      _ (.refl _) hrest' (by rw [remaining_eq, hrest']; simp)
    rw [List.nil_append] at hloop
    rw [← hloop]
    rw [nextToken_backtick unicode hrest, readTemplate] at hnext
    split at hnext
    · rename_i literal stop hrun
      simp only [Prod.mk.injEq, Token.mk.injEq, true_and, and_true] at hnext
      rw [hrun, hnext.1]
    · simp at hnext
  · intro hlevelled unicode l after hrest
    obtain ⟨-, hrest'⟩ := rest_advance hrest (by decide)
    have hloop := readTemplateLoop_iff l.advance.remaining 0 _ (.refl _) hrest'
      (by rw [remaining_eq, hrest']; simp)
    rw [List.nil_append] at hloop
    have hrun := hloop.mpr hlevelled
    obtain ⟨text, hreads, htext⟩ := readTemplateLoop_reads l.advance.remaining 0 l.advance (.refl _)
    have htext := htext _ hrun
    rw [String.toList_ofList] at htext
    rw [htext] at hreads
    refine ⟨(readTemplateLoop l.advance l.advance.remaining 0 l.advance).2, ?_,
      hreads.rest_eq (by rw [hrest']; simp)⟩
    rw [nextToken_backtick unicode hrest, readTemplate]
    generalize readTemplateLoop l.advance l.advance.remaining 0 l.advance = result at hrun
    obtain ⟨literal, stop⟩ := result
    obtain rfl : literal = some (String.ofList raw) := hrun
    rfl

end Lexer

namespace Parser

variable {raw head : List Char} {spans : List (List Char × List Char)}

theorem parseTemplateExpressionsLoop_char (parse : List Char → Except ParseError Expression)
    (rounds : Nat) {ch : Char} {rest : List Char} (hplain : ¬(ch = '$' ∧ rest.head? = some '\x7b')) :
    parseTemplateExpressionsLoop parse (rounds + 1) (ch :: rest) =
      parseTemplateExpressionsLoop parse rounds rest := by
  rw [parseTemplateExpressionsLoop]
  rintro tail rfl rfl
  simp at hplain

theorem parseTemplateExpressionsLoop_splits (parse : List Char → Except ParseError Expression)
    (rounds : Nat) (hsplits : Splits raw head spans) (hrounds : raw.length ≤ rounds) :
    parseTemplateExpressionsLoop parse rounds raw = (spans.map Prod.fst).mapM parse := by
  induction hsplits generalizing rounds with
  | done => cases rounds <;> rfl
  | char hplain _ ih =>
      rw [List.length_cons] at hrounds
      obtain ⟨rounds, rfl⟩ := Nat.exists_eq_add_of_le' (Nat.le_trans (Nat.le_add_left 1 _) hrounds)
      rw [parseTemplateExpressionsLoop_char parse rounds hplain]
      exact ih rounds (by omega)
  | @span rest source after text spans htake _ ih =>
      have hlength := congrArg List.length (takeTemplateExpression_eq htake)
      simp only [List.length_cons, List.length_append] at hrounds hlength
      obtain ⟨rounds, rfl⟩ := Nat.exists_eq_add_of_le' (Nat.le_trans (Nat.le_add_left 1 _) hrounds)
      rw [parseTemplateExpressionsLoop, htake]
      simp only
      rw [ih rounds (by omega), List.map_cons, List.mapM_cons]

theorem splits_of_parseTemplateExpressionsLoop {parse : List Char → Except ParseError Expression}
    {expressions : List Expression} (rounds : Nat) (hrounds : raw.length ≤ rounds)
    (hrun : parseTemplateExpressionsLoop parse rounds raw = .ok expressions) :
    ∃ head spans, Splits raw head spans ∧ (spans.map Prod.fst).mapM parse = .ok expressions := by
  induction rounds generalizing raw expressions with
  | zero =>
      obtain rfl := List.eq_nil_of_length_eq_zero (Nat.le_zero.mp hrounds)
      exact ⟨[], [], .done, hrun⟩
  | succ rounds ih =>
      cases raw with
      | nil => exact ⟨[], [], .done, hrun⟩
      | cons ch rest =>
          rw [List.length_cons] at hrounds
          by_cases hplain : ch = '$' ∧ rest.head? = some '\x7b'
          · obtain ⟨rfl, hbrace⟩ := hplain
            obtain ⟨rest, rfl⟩ := List.head?_eq_some_iff.mp hbrace
            rw [parseTemplateExpressionsLoop] at hrun
            rcases htake : takeTemplateExpression rest with _ | ⟨source, after⟩
            · rw [htake] at hrun
              exact absurd hrun (by simp)
            rw [htake] at hrun
            have hlength := congrArg List.length (takeTemplateExpression_eq htake)
            simp only [List.length_cons, List.length_append] at hrounds hlength
            cases hparse : parse source with
            | error _ => simp [hparse, bind, Except.bind] at hrun
            | ok expression =>
                cases hloop : parseTemplateExpressionsLoop parse rounds after with
                | error _ => simp [hparse, hloop, bind, Except.bind] at hrun
                | ok others =>
                    obtain ⟨text, spans, hsplits, hothers⟩ := ih (by omega) hloop
                    refine ⟨[], (source, text) :: spans, .span htake hsplits, ?_⟩
                    rw [← hrun, List.map_cons, List.mapM_cons]
                    simp [hparse, hloop, hothers, bind, Except.bind]
          · rw [parseTemplateExpressionsLoop_char parse rounds hplain] at hrun
            obtain ⟨head, spans, hsplits, hexpressions⟩ := ih (by omega) hrun
            exact ⟨ch :: head, spans, .char hplain hsplits, hexpressions⟩

def recording : Productions :=
  { Productions.exhausted with
    parseSequence := fun p =>
      .ok (.identifier ⟨0, 0⟩ (String.ofList p.lexer.input), { p with current := noToken }) }

theorem parseExpression_recording (unicode : Unicode) (source : List Char) :
    (Prod.fst <$> parseExpression recording.parseSequence (new unicode source)) =
      .ok (.identifier ⟨0, 0⟩ (String.ofList source)) := by
  have hinput : (new unicode source).lexer.input = source := by
    obtain ⟨_, _, hreads, -⟩ := (Lexer.nextToken_reads unicode (Lexer.new source)).covered
    exact hreads.input
  calc Prod.fst <$> parseExpression recording.parseSequence (new unicode source)
      = .ok (.identifier ⟨0, 0⟩ (String.ofList (new unicode source).lexer.input)) := rfl
    _ = .ok (.identifier ⟨0, 0⟩ (String.ofList source)) := by rw [hinput]

/-- The expressions of a template literal are those of its substitutions, for every grammar of
expressions. -/
def TakesExpressions (raw : List Char) (sources : List (List Char)) : Prop :=
  ∀ (g : Productions) (unicode : Unicode), parseTemplateExpressions g unicode raw =
    sources.mapM fun source => Prod.fst <$> parseExpression g.parseSequence (new unicode source)

theorem takesExpressions_splits (hsplits : Splits raw head spans) :
    TakesExpressions raw (spans.map Prod.fst) := by
  intro g unicode
  exact parseTemplateExpressionsLoop_splits _ _ hsplits le_rfl

theorem splits_of_takesExpressions (unicode : Unicode) {sources : List (List Char)}
    (htakes : TakesExpressions raw sources) :
    ∃ head spans, Splits raw head spans ∧ spans.map Prod.fst = sources := by
  have hrecord (sources : List (List Char)) : (sources.mapM fun source =>
      Prod.fst <$> parseExpression recording.parseSequence (new unicode source)) =
        .ok (sources.map fun source => .identifier ⟨0, 0⟩ (String.ofList source)) := by
    simp only [parseExpression_recording]
    exact List.mapM_pure
  have hrun := htakes recording unicode
  rw [hrecord, parseTemplateExpressions] at hrun
  obtain ⟨head, spans, hsplits, hsame⟩ := splits_of_parseTemplateExpressionsLoop _ le_rfl hrun
  rw [hrecord, Except.ok.injEq] at hsame
  refine ⟨head, spans, hsplits, List.map_injective_iff.mpr ?_ hsame⟩
  intro first second hname
  have := String.ofList_injective (Expression.identifier.inj hname).2
  exact this

end Parser

namespace Lowering

variable {σ : Type} {raw head : List Char} {spans : List (List Char × List Char)}

def filled (head : List Char) : List (List Char) → List (List Char) → List Char
  | text :: texts, value :: values => head ++ (value ++ filled text texts values)
  | _, _ => head

theorem filled_cons (ch : Char) (head : List Char) (texts values : List (List Char)) :
    filled (ch :: head) texts values = ch :: filled head texts values := by
  cases texts with
  | nil => simp [filled]
  | cons text texts => cases values <;> simp [filled]

theorem evaluateTemplateStringLoop_char (coerce : Expression → OptionT (StateM σ) (List Char))
    (rounds : Nat) (expressions : List Expression) {ch : Char} {rest : List Char}
    (hplain : ¬(ch = '$' ∧ rest.head? = some '\x7b')) :
    evaluateTemplateStringLoop coerce (rounds + 1) expressions (ch :: rest) = do
      return ch :: (← evaluateTemplateStringLoop coerce rounds expressions rest) := by
  rw [evaluateTemplateStringLoop]
  rintro tail rfl rfl
  simp at hplain

/-- The value of a template literal is its text with the values of the expressions in place, in
order. -/
theorem evaluateTemplateStringLoop_splits
    (coerce : Expression → OptionT (StateM σ) (List Char)) (rounds : Nat)
    (expressions : List Expression) (hsplits : Splits raw head spans)
    (hcount : expressions.length = spans.length) (hrounds : raw.length ≤ rounds) :
    evaluateTemplateStringLoop coerce rounds expressions raw = do
      return filled head (spans.map Prod.snd) (← expressions.mapM coerce) := by
  induction hsplits generalizing rounds expressions with
  | done =>
      obtain rfl := List.eq_nil_of_length_eq_zero hcount
      cases rounds <;> simp [evaluateTemplateStringLoop, filled]
  | char hplain _ ih =>
      rw [List.length_cons] at hrounds
      obtain ⟨rounds, rfl⟩ := Nat.exists_eq_add_of_le' (Nat.le_trans (Nat.le_add_left 1 _) hrounds)
      rw [evaluateTemplateStringLoop_char coerce rounds expressions hplain,
        ih rounds expressions hcount (by omega)]
      simp [filled_cons]
  | @span rest source after text spans htake _ ih =>
      have hlength := congrArg List.length (Parser.takeTemplateExpression_eq htake)
      simp only [List.length_cons, List.length_append] at hrounds hlength
      obtain ⟨rounds, rfl⟩ := Nat.exists_eq_add_of_le' (Nat.le_trans (Nat.le_add_left 1 _) hrounds)
      obtain ⟨expression, expressions, rfl⟩ := List.exists_cons_of_length_eq_add_one hcount
      rw [Parser.takeTemplateExpression, Option.map_eq_some_iff] at htake
      obtain ⟨stop, hfind, hstop⟩ := htake
      have hafter : stop.drop 1 = after := congrArg Prod.snd hstop
      have hrest := ih rounds expressions (by simpa using hcount) (by omega)
      rw [evaluateTemplateStringLoop, findTemplateStringExpressionEnd, hfind]
      simp only [hafter, hrest]
      simp [filled]

def EvaluatesTo (raw head : List Char) (texts : List (List Char)) : Prop :=
  ∀ (σ : Type) (coerce : Expression → OptionT (StateM σ) (List Char))
    (expressions : List Expression), expressions.length = texts.length →
      evaluateTemplateString coerce raw expressions = do
        return filled head texts (← expressions.mapM coerce)

theorem evaluatesTo_splits (hsplits : Splits raw head spans) :
    EvaluatesTo raw head (spans.map Prod.snd) := by
  intro σ coerce expressions hcount
  exact evaluateTemplateStringLoop_splits coerce _ _ hsplits (by simpa using hcount) le_rfl

theorem eq_of_marked {first second : Char} (hne : first ≠ second) {head head' : List Char}
    {tail₁ tail₁' tail₂ tail₂' : List Char} (hfirst : head ++ first :: tail₁ = head' ++ first :: tail₁')
    (hsecond : head ++ second :: tail₂ = head' ++ second :: tail₂') : head = head' := by
  induction head generalizing head' with
  | nil =>
      cases head' with
      | nil => rfl
      | cons ch head' => exact absurd ((List.cons.inj hfirst).1.trans (List.cons.inj hsecond).1.symm) hne
  | cons ch head ih =>
      cases head' with
      | nil => exact absurd ((List.cons.inj hfirst).1.symm.trans (List.cons.inj hsecond).1) hne
      | cons ch' head' =>
          rw [(List.cons.inj hfirst).1, ih (List.cons.inj hfirst).2 (List.cons.inj hsecond).2]

theorem filled_injective (head head' : List Char) (texts texts' : List (List Char))
    (hcount : texts.length = texts'.length)
    (hsame : ∀ ch : Char, filled head texts (texts.map fun _ => [ch]) =
      filled head' texts' (texts'.map fun _ => [ch])) : head = head' ∧ texts = texts' := by
  induction texts generalizing head head' texts' with
  | nil =>
      obtain rfl := List.eq_nil_of_length_eq_zero hcount.symm
      exact ⟨hsame ' ', rfl⟩
  | cons text texts ih =>
      obtain ⟨text', texts', rfl⟩ := List.exists_cons_of_length_eq_add_one hcount.symm
      have hhead : head = head' := eq_of_marked (by decide) (hsame 'a') (hsame 'b')
      obtain ⟨htext, htexts⟩ := ih text text' texts' (by simpa using hcount) fun ch => by
        have hcons := hsame ch
        rw [List.map_cons, List.map_cons, filled, filled, hhead, List.append_cancel_left_eq] at hcons
        exact List.append_cancel_left hcons
      exact ⟨hhead, by rw [htext, htexts]⟩

theorem evaluatesTo_injective {head' : List Char} {texts texts' : List (List Char)}
    (hcount : texts.length = texts'.length) (heval : EvaluatesTo raw head texts)
    (heval' : EvaluatesTo raw head' texts') : head = head' ∧ texts = texts' := by
  refine filled_injective head head' texts texts' hcount fun ch => ?_
  have hvalues (texts : List (List Char)) :
      ((texts.map fun _ => Expression.nullLiteral ⟨0, 0⟩).mapM fun _ => pure [ch] :
        OptionT (StateM Unit) (List (List Char))) = pure (texts.map fun _ => [ch]) := by
    rw [List.mapM_pure, List.map_map]
    rfl
  have hrun := heval Unit (fun _ => pure [ch]) (texts.map fun _ => .nullLiteral ⟨0, 0⟩) (by simp)
  have hrun' := heval' Unit (fun _ => pure [ch]) (texts'.map fun _ => .nullLiteral ⟨0, 0⟩) (by simp)
  rw [hvalues, pure_bind] at hrun hrun'
  have hmap : (texts.map fun _ => Expression.nullLiteral ⟨0, 0⟩) =
      texts'.map fun _ => .nullLiteral ⟨0, 0⟩ := by
    rw [List.map_const', List.map_const', hcount]
  rw [hmap, hrun'] at hrun
  have hsame := congrFun hrun ()
  exact (Option.some.inj (congrArg Prod.fst hsame)).symm

end Lowering

namespace Template

theorem raw_eq (template : Template) : template.raw = template.head ++ spansText template.spans := by
  match template with
  | .text chunk => simp [raw, head, spans, spansText]
  | .substitution chunk source rest =>
      rw [raw, head, spans, spansText, raw_eq rest]

/-- The three scanners find the template literal as it is written: one token between its own
backticks, the expressions of its substitutions in order, and its text chunks around them. -/
structure ReadBack (template : Template) : Prop where
  token : Lexer.ReadsTemplate template.raw
  expressions : Parser.TakesExpressions template.raw (template.spans.map Prod.fst)
  strings : Lowering.EvaluatesTo template.raw template.head (template.spans.map Prod.snd)

/-- A template literal is read back exactly when the levels of its raw text fit, no chunk holds a
dollar sign and a brace (with a backslash before them) and every source is balanced for a scanner
that knows quotes and braces only. -/
theorem readBack_iff (template : Template) :
    template.ReadBack ↔ Levelled 0 template.raw = true ∧ opensNone template.head = true ∧
      ∀ span ∈ template.spans, Balanced none 0 span.1 = true ∧ opensNone span.2 = true := by
  rw [← Splits.iff_balanced, ← raw_eq, ← Lexer.readsTemplate_iff asciiUnicode]
  constructor
  · intro hread
    refine ⟨hread.token, ?_⟩
    obtain ⟨head, spans, hsplits, hsources⟩ :=
      Parser.splits_of_takesExpressions asciiUnicode hread.expressions
    have hcount : (spans.map Prod.snd).length = (template.spans.map Prod.snd).length := by
      simpa using congrArg List.length hsources
    obtain ⟨hhead, htexts⟩ := Lowering.evaluatesTo_injective hcount
      (Lowering.evaluatesTo_splits hsplits) hread.strings
    have hspans : spans = template.spans := by
      rw [← List.zip_unzip spans, ← List.zip_unzip template.spans, List.unzip_eq_map,
        List.unzip_eq_map, hsources, htexts]
    rwa [hhead, hspans] at hsplits
  · rintro ⟨htoken, hsplits⟩
    exact ⟨htoken, Parser.takesExpressions_splits hsplits, Lowering.evaluatesTo_splits hsplits⟩

/-- The literal whose text is one escaped backtick. -/
def escapedBacktick : Template := .text ⟨[.escape '\x60'], by simp⟩

/-- The lexer ends the literal at the escaped backtick. -/
theorem escapedBacktick_misread : ¬escapedBacktick.ReadBack := by
  intro hread
  have hlevelled := (Lexer.readsTemplate_iff asciiUnicode _).mp hread.token
  exact absurd hlevelled (by decide)

end Template

end Jayess
