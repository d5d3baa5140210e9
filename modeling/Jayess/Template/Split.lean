import Jayess.Parser.Spelling
import Jayess.Template.TemplateString

/-!
# Where the three scanners split a template literal
-/

namespace Jayess

/-- Quotes are closed, a backslash escaping inside them, and the braces outside quotes are balanced,
from inside the quote given and under that many open braces. -/
def Balanced : Option Char → Nat → List Char → Bool
  | none, depth, [] => depth = 0
  | some _, _, [] => false
  | none, depth, ch :: rest =>
      if ch = '\'' ∨ ch = '"' then Balanced (some ch) depth rest
      else if ch = '\x7b' then Balanced none (depth + 1) rest
      else if ch = '\x7d' then 0 < depth && Balanced none (depth - 1) rest
      else Balanced none depth rest
  | some quote, depth, ch :: rest =>
      if ch = '\\' then
        match rest with
        | [] => false
        | _ :: rest => Balanced (some quote) depth rest
      else if ch = quote then Balanced none depth rest
      else Balanced (some quote) depth rest

namespace Parser

variable {quote : Char} {source after rest text raw : List Char}

theorem skipQuoted_suffix (quote : Char) (runes : List Char) :
    skipQuotedTemplateExpressionPart quote runes <:+ runes := by
  induction hlength : runes.length using Nat.strong_induction_on generalizing runes with
  | _ length ih =>
      cases runes with
      | nil => exact List.suffix_rfl
      | cons ch runes =>
          rw [List.length_cons] at hlength
          rw [skipQuotedTemplateExpressionPart.eq_def]
          dsimp only
          split_ifs
          · cases runes with
            | nil => exact List.nil_suffix
            | cons next runes =>
                rw [List.length_cons] at hlength
                have hskip := ih runes.length (by omega) runes rfl
                exact (hskip.trans (List.suffix_cons next runes)).trans (List.suffix_cons ch _)
          · exact List.suffix_cons ch runes
          · exact (ih runes.length (by omega) runes rfl).trans (List.suffix_cons ch runes)

theorem skipQuoted_length (quote : Char) (runes : List Char) :
    (skipQuotedTemplateExpressionPart quote runes).length ≤ runes.length :=
  (skipQuoted_suffix quote runes).length_le

/-- A quoted part that is closed inside the source ends there for the scanner too; one that is not
takes the brace behind the source with it. -/
theorem skipQuoted_cases (quote : Char) (depth : Nat) (source after : List Char) :
    (∃ rest, rest.length < source.length ∧
      skipQuotedTemplateExpressionPart quote (source ++ '\x7d' :: after) = rest ++ '\x7d' :: after ∧
      Balanced (some quote) depth source = Balanced none depth rest) ∨
    ((skipQuotedTemplateExpressionPart quote (source ++ '\x7d' :: after)).length ≤ after.length ∧
      Balanced (some quote) depth source = false) := by
  induction hlength : source.length using Nat.strong_induction_on generalizing source with
  | _ length ih =>
      cases source with
      | nil =>
          refine .inr ⟨?_, by rw [Balanced]⟩
          rw [List.nil_append, skipQuotedTemplateExpressionPart.eq_def]
          dsimp only
          rw [if_neg (by decide)]
          split_ifs
          · exact le_rfl
          · exact skipQuoted_length quote after
      | cons ch source =>
          rw [List.length_cons] at hlength
          rw [List.cons_append, skipQuotedTemplateExpressionPart.eq_def, Balanced.eq_def]
          dsimp only
          by_cases hescape : ch = '\\'
          · rw [if_pos hescape, if_pos hescape]
            cases source with
            | nil =>
                refine .inr ⟨?_, rfl⟩
                exact skipQuoted_length quote after
            | cons next source =>
                rw [List.length_cons] at hlength
                obtain ⟨rest, hrest, hskip, hbalanced⟩ | hopen :=
                  ih source.length (by omega) source rfl
                · exact .inl ⟨rest, by omega, hskip, hbalanced⟩
                · exact .inr hopen
          rw [if_neg hescape, if_neg hescape]
          by_cases hclose : ch = quote
          · rw [if_pos hclose, if_pos hclose]
            exact .inl ⟨source, by omega, rfl, rfl⟩
          · rw [if_neg hclose, if_neg hclose]
            obtain ⟨rest, hrest, hskip, hbalanced⟩ | hopen :=
              ih source.length (by omega) source rfl
            · exact .inl ⟨rest, by omega, hskip, hbalanced⟩
            · exact .inr hopen

theorem findTemplateExpressionEnd_found (rounds depth : Nat) (runes stop : List Char)
    (hfind : findTemplateExpressionEnd rounds depth runes = some stop) :
    stop <:+ runes ∧ stop.head? = some '\x7d' := by
  induction rounds generalizing depth runes with
  | zero => simp [findTemplateExpressionEnd] at hfind
  | succ rounds ih =>
      cases runes with
      | nil => simp [findTemplateExpressionEnd] at hfind
      | cons ch runes =>
          have hlater {depth : Nat} {runes' : List Char} (hsuffix : runes' <:+ runes)
              (hfind : findTemplateExpressionEnd rounds depth runes' = some stop) :
              stop <:+ ch :: runes ∧ stop.head? = some '\x7d' := by
            obtain ⟨hstop, hbrace⟩ := ih _ _ hfind
            exact ⟨(hstop.trans hsuffix).trans (List.suffix_cons ch runes), hbrace⟩
          rw [findTemplateExpressionEnd] at hfind
          split_ifs at hfind with hquote hopen hclose hlast
          · exact hlater (skipQuoted_suffix ch runes) hfind
          · exact hlater List.suffix_rfl hfind
          · cases hfind
            exact ⟨List.suffix_rfl, by rw [hclose, List.head?_cons]⟩
          · exact hlater List.suffix_rfl hfind
          · exact hlater List.suffix_rfl hfind

theorem findTemplateExpressionEnd_iff (rounds depth : Nat) (source after : List Char)
    (hrounds : source.length < rounds) :
    findTemplateExpressionEnd rounds (depth + 1) (source ++ '\x7d' :: after) =
      some ('\x7d' :: after) ↔ Balanced none depth source = true := by
  induction rounds generalizing depth source with
  | zero => omega
  | succ rounds ih =>
      have htoo_short (depth : Nat) (runes : List Char) (hlength : runes.length ≤ after.length) :
          findTemplateExpressionEnd rounds depth runes ≠ some ('\x7d' :: after) := by
        intro hfind
        have hstop := (findTemplateExpressionEnd_found _ _ _ _ hfind).1.length_le
        rw [List.length_cons] at hstop
        omega
      cases source with
      | nil =>
          rw [List.nil_append, findTemplateExpressionEnd, Balanced, if_neg (by decide),
            if_neg (by decide), if_pos rfl]
          cases depth with
          | zero => simp
          | succ depth => simpa using htoo_short (depth + 1) after le_rfl
      | cons ch source =>
          rw [List.length_cons] at hrounds
          rw [List.cons_append, findTemplateExpressionEnd, Balanced]
          by_cases hquote : ch = '\'' ∨ ch = '"'
          · rw [if_pos hquote, if_pos hquote]
            obtain ⟨rest, hrest, hskip, hbalanced⟩ | ⟨hskip, hbalanced⟩ :=
              skipQuoted_cases ch depth source after
            · rw [hskip, hbalanced]
              exact ih depth rest (by omega)
            · rw [hbalanced]
              simpa using htoo_short (depth + 1) _ hskip
          rw [if_neg hquote, if_neg hquote]
          by_cases hopen : ch = '\x7b'
          · rw [if_pos hopen, if_pos hopen]
            exact ih (depth + 1) source (by omega)
          rw [if_neg hopen, if_neg hopen]
          by_cases hclose : ch = '\x7d'
          · rw [if_pos hclose, if_pos hclose]
            cases depth with
            | zero =>
                rw [if_pos rfl]
                have hlonger : source ++ '\x7d' :: after ≠ after := by
                  intro hsame
                  have := congrArg List.length hsame
                  simp at this
                  omega
                simp [hclose, hlonger]
            | succ depth =>
                rw [if_neg (by omega)]
                simpa using ih depth source (by omega)
          · rw [if_neg hclose, if_neg hclose]
            exact ih depth source (by omega)

theorem takeTemplateExpression_eq (htake : takeTemplateExpression raw = some (source, after)) :
    raw = source ++ '\x7d' :: after := by
  rw [takeTemplateExpression, Option.map_eq_some_iff] at htake
  obtain ⟨stop, hfind, htake⟩ := htake
  obtain ⟨⟨before, rfl⟩, hbrace⟩ := findTemplateExpressionEnd_found _ _ _ _ hfind
  obtain ⟨tail, rfl⟩ := List.head?_eq_some_iff.mp hbrace
  rw [Prod.mk.injEq] at htake
  obtain ⟨hsource, hafter⟩ := htake
  rw [← hsource, ← hafter]
  simp

/-- The source that the scanner takes before some runes is the one written there exactly when it is
balanced. -/
theorem takeTemplateExpression_iff (source after : List Char) :
    takeTemplateExpression (source ++ '\x7d' :: after) = some (source, after) ↔
      Balanced none 0 source = true := by
  rw [← findTemplateExpressionEnd_iff ((source ++ '\x7d' :: after).length + 1) 0 source after
    (by simp only [List.length_append, List.length_cons]; omega), takeTemplateExpression, Option.map_eq_some_iff]
  constructor
  · rintro ⟨stop, hfind, htake⟩
    obtain ⟨⟨before, hsplit⟩, hbrace⟩ := findTemplateExpressionEnd_found _ _ _ _ hfind
    obtain ⟨tail, rfl⟩ := List.head?_eq_some_iff.mp hbrace
    rw [hfind]
    have htail : tail = after := congrArg Prod.snd htake
    rw [htail]
  · intro hfind
    exact ⟨_, hfind, by simp⟩

end Parser

/-- The raw text is a text chunk and spans of a source with the text behind it, for a scanner that
opens a substitution at each dollar sign with a brace and takes its source from there. -/
inductive Splits : List Char → List Char → List (List Char × List Char) → Prop
  | done : Splits [] [] []
  | char {ch rest head spans} (hplain : ¬(ch = '$' ∧ rest.head? = some '\x7b'))
      (hrest : Splits rest head spans) : Splits (ch :: rest) (ch :: head) spans
  | span {rest source after text spans}
      (htake : Parser.takeTemplateExpression rest = some (source, after))
      (hafter : Splits after text spans) :
      Splits ('$' :: '\x7b' :: rest) [] ((source, text) :: spans)

/-- No dollar sign stands before a brace. -/
def opensNone : List Char → Bool
  | [] => true
  | ch :: rest => !(ch = '$' && rest.head? = some '\x7b') && opensNone rest

def spansText : List (List Char × List Char) → List Char
  | [] => []
  | (source, text) :: spans => '$' :: '\x7b' :: (source ++ '\x7d' :: (text ++ spansText spans))

namespace Splits

variable {raw head : List Char} {spans : List (List Char × List Char)}

theorem spansText_head (spans : List (List Char × List Char)) :
    (spansText spans).head? ≠ some '\x7b' := by
  cases spans with
  | nil => simp [spansText]
  | cons span spans => simp [spansText]

theorem char_iff {ch : Char} {rest : List Char} :
    Splits (ch :: rest) (ch :: head) spans ↔
      ¬(ch = '$' ∧ rest.head? = some '\x7b') ∧ Splits rest head spans := by
  constructor
  · intro hsplits
    cases hsplits with
    | char hplain hrest => exact ⟨hplain, hrest⟩
  · rintro ⟨hplain, hrest⟩
    exact .char hplain hrest

theorem head_iff (head : List Char) (spans : List (List Char × List Char)) :
    Splits (head ++ spansText spans) head spans ↔
      opensNone head = true ∧ Splits (spansText spans) [] spans := by
  induction head with
  | nil => simp [opensNone]
  | cons ch head ih =>
      have hnext : (head ++ spansText spans).head? = some '\x7b' ↔ head.head? = some '\x7b' := by
        cases head with
        | nil => simp [spansText_head]
        | cons next head => simp
      have hopens : opensNone (ch :: head) = true ↔
          ¬(ch = '$' ∧ head.head? = some '\x7b') ∧ opensNone head = true := by
        rw [opensNone, Bool.and_eq_true, Bool.not_eq_true', ← Bool.not_eq_true]
        simp only [Bool.and_eq_true, decide_eq_true_eq]
      rw [List.cons_append, char_iff, hopens, and_assoc, ← ih, hnext]

/-- The raw text is split as it is written exactly when no chunk opens a substitution and each source
is balanced. -/
theorem iff_balanced (head : List Char) (spans : List (List Char × List Char)) :
    Splits (head ++ spansText spans) head spans ↔ opensNone head = true ∧
      ∀ span ∈ spans, Balanced none 0 span.1 = true ∧ opensNone span.2 = true := by
  induction spans generalizing head with
  | nil =>
      rw [head_iff]
      simp [spansText, Splits.done]
  | cons span spans ih =>
      obtain ⟨source, text⟩ := span
      rw [head_iff, List.forall_mem_cons, spansText]
      refine and_congr_right fun _ => ?_
      have htail := ih text
      constructor
      · intro hsplits
        cases hsplits with
        | span htake hafter =>
            have hsame := Parser.takeTemplateExpression_eq htake
            rw [List.append_cancel_left_eq, List.cons_inj_right] at hsame
            rw [← hsame] at htake hafter
            have hparts := htail.mp hafter
            exact ⟨⟨(Parser.takeTemplateExpression_iff _ _).mp htake, hparts.1⟩, hparts.2⟩
      · rintro ⟨⟨hsource, htext⟩, hspans⟩
        exact .span ((Parser.takeTemplateExpression_iff _ _).mpr hsource)
          (htail.mpr ⟨htext, hspans⟩)

end Splits

end Jayess
