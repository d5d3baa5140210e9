import Std.Data.String.ToInt
import Jayess.Backend.DoubleConstants

/-! # The texts of numbers -/

namespace Jayess.Runtime

open Backend.DecimalForm (digitChar signText isDigit_digitChar isDigit_of_mem_map)

/-- The shortest decimal form of a finite number other than zero. The first digit stands before the point, and
the exponent is that of ten. -/
structure ShortestDecimal where
  first : Fin 10
  rest : List (Fin 10)
  exponent : Int
  leading : first ≠ 0
  trailing : (first :: rest).getLast (List.cons_ne_nil _ _) ≠ 0

instance : DecidableEq ShortestDecimal := fun left right =>
  decidable_of_iff (left.first = right.first ∧ left.rest = right.rest ∧ left.exponent = right.exponent) <| by
    cases left
    cases right
    simp

inductive Number where
  | nan
  | infinite (negative : Bool)
  | zero (negative : Bool)
  | finite (negative : Bool) (decimal : ShortestDecimal)
deriving DecidableEq

namespace ShortestDecimal

def pointed (integral fraction : List Char) : List Char :=
  integral ++ if fraction = [] then [] else '.' :: fraction

def digits (decimal : ShortestDecimal) : List (Fin 10) := decimal.first :: decimal.rest

/-- The numbers that ECMAScript prints without an exponent. -/
def Plain (decimal : ShortestDecimal) : Prop := -6 ≤ decimal.exponent ∧ decimal.exponent ≤ 20

instance : DecidablePred Plain := fun decimal =>
  inferInstanceAs (Decidable (-6 ≤ decimal.exponent ∧ decimal.exponent ≤ 20))

def plainText (decimal : ShortestDecimal) : List Char :=
  Backend.DecimalForm.plainText decimal.digits decimal.exponent

def exponentialText (decimal : ShortestDecimal) : List Char :=
  pointed [digitChar decimal.first] (decimal.rest.map digitChar) ++
    'e' :: (if decimal.exponent < 0 then '-' else '+') :: Nat.toDigits 10 decimal.exponent.natAbs

def text (decimal : ShortestDecimal) : List Char :=
  if decimal.Plain then decimal.plainText else decimal.exponentialText

end ShortestDecimal

namespace Number

/-- `strconv.FormatFloat` with the format `f` and the precision -1. -/
def formatFloat : Number → String
  | nan => "NaN"
  | infinite negative => if negative then "-Inf" else "+Inf"
  | zero negative => if negative then "-0" else "0"
  | finite negative decimal => String.ofList (signText negative ++ decimal.plainText)

/-- `Number::toString` of ECMAScript. -/
def toText : Number → String
  | nan => "NaN"
  | infinite negative => if negative then "-Infinity" else "Infinity"
  | zero _ => "0"
  | finite negative decimal => String.ofList (signText negative ++ decimal.text)

/-- The numbers that both print alike. -/
def Faithful : Number → Prop
  | nan => True
  | infinite _ => False
  | zero negative => negative = false
  | finite _ decimal => decimal.Plain

instance : DecidablePred Faithful := fun number => by
  cases number <;> unfold Faithful <;> infer_instance

end Number

section Runs

variable {first second third fourth : List Char} {ch : Char} {count count' : Nat}

theorem split_at (hfirst : ch ∉ first) (hthird : ch ∉ third) (hsecond : second.head?.all (· = ch))
    (hfourth : fourth.head?.all (· = ch)) (heq : first ++ second = third ++ fourth) :
    first = third ∧ second = fourth := by
  have hprefix : ∀ {before after : List Char}, ch ∉ before → after.head?.all (· = ch) →
      (before ++ after).takeWhile (· ≠ ch) = before := by
    intro before after hbefore hafter
    have hall : ∀ other ∈ before, decide (other ≠ ch) = true := by
      intro other hmem
      exact decide_eq_true fun hother => hbefore (hother ▸ hmem)
    rw [List.takeWhile_append_of_pos hall]
    cases after with
    | nil => exact List.append_nil before
    | cons other rest =>
        have hother : other = ch := of_decide_eq_true hafter
        rw [List.takeWhile_cons_of_neg (by simp [hother]), List.append_nil]
  have hbefore : first = third := by
    rw [← hprefix hfirst hsecond, heq, hprefix hthird hfourth]
  subst hbefore
  exact ⟨rfl, List.append_cancel_left heq⟩

theorem replicate_append_inj (hfirst : first.head? ≠ some ch) (hsecond : second.head? ≠ some ch)
    (heq : List.replicate count ch ++ first = List.replicate count' ch ++ second) :
    count = count' ∧ first = second := by
  induction count generalizing count' with
  | zero =>
      cases count' with
      | zero => exact ⟨rfl, heq⟩
      | succ count' =>
          refine absurd ?_ hfirst
          rw [show first = _ from heq]
          rfl
  | succ count ih =>
      cases count' with
      | zero =>
          refine absurd ?_ hsecond
          rw [show second = _ from heq.symm]
          rfl
      | succ count' =>
          obtain ⟨hcount, hrest⟩ := ih (List.cons.inj heq).2
          exact ⟨congrArg (· + 1) hcount, hrest⟩

theorem append_replicate_inj (hfirst : first.getLast? ≠ some ch) (hsecond : second.getLast? ≠ some ch)
    (heq : first ++ List.replicate count ch = second ++ List.replicate count' ch) : first = second := by
  rw [← List.head?_reverse] at hfirst hsecond
  have hreverse := congrArg List.reverse heq
  rw [List.reverse_append, List.reverse_append, List.reverse_replicate, List.reverse_replicate] at hreverse
  exact List.reverse_injective (replicate_append_inj hfirst hsecond hreverse).2

end Runs

theorem digitChar_injective : Function.Injective digitChar := by
  have hinj : ∀ first second : Fin 10, digitChar first = digitChar second → first = second := by decide
  exact fun first second => hinj first second

namespace ShortestDecimal

variable {decimal other : ShortestDecimal}

def chars (decimal : ShortestDecimal) : List Char := decimal.digits.map digitChar

theorem isDigit_of_mem_chars {ch : Char} (hmem : ch ∈ decimal.chars) : ch.isDigit = true := isDigit_of_mem_map hmem

theorem head_chars : decimal.chars.head? ≠ some '0' := by
  intro hzero
  exact decimal.leading (digitChar_injective (Option.some.inj hzero))

theorem getLast_chars : decimal.chars.getLast? ≠ some '0' := by
  rw [chars, List.getLast?_map, digits, List.getLast?_eq_some_getLast (List.cons_ne_nil _ _)]
  intro hzero
  exact decimal.trailing (digitChar_injective (Option.some.inj hzero))

theorem pointed_inj {integral fraction integral' fraction' : List Char} (hintegral : '.' ∉ integral)
    (hintegral' : '.' ∉ integral') (heq : pointed integral fraction = pointed integral' fraction') :
    integral = integral' ∧ fraction = fraction' := by
  have hhead : ∀ fraction : List Char,
      (if fraction = [] then [] else '.' :: fraction).head?.all (· = '.') = true := by
    intro fraction
    split
    · rfl
    · rfl
  obtain ⟨hparts, hrest⟩ := split_at hintegral hintegral' (hhead fraction) (hhead fraction') heq
  refine ⟨hparts, ?_⟩
  by_cases hempty : fraction = []
  · by_cases hempty' : fraction' = []
    · rw [hempty, hempty']
    · rw [if_pos hempty, if_neg hempty'] at hrest
      cases hrest
  · by_cases hempty' : fraction' = []
    · rw [if_neg hempty, if_pos hempty'] at hrest
      cases hrest
    · rw [if_neg hempty, if_neg hempty'] at hrest
      exact (List.cons.inj hrest).2

structure Places (decimal : ShortestDecimal) (integral fraction : List Char) (before after : Nat) : Prop where
  text : decimal.plainText = pointed integral fraction
  ne_nil : integral ≠ []
  isDigit : ∀ ch ∈ integral ++ fraction, ch.isDigit = true
  digits : integral ++ fraction = List.replicate before '0' ++ (decimal.chars ++ List.replicate after '0')
  exponent : decimal.exponent = integral.length - 1 - before

theorem exists_places (decimal : ShortestDecimal) :
    ∃ integral fraction before after, decimal.Places integral fraction before after := by
  have hdigits : ∀ before after, ∀ ch ∈ List.replicate before '0' ++ (decimal.chars ++ List.replicate after '0'),
      ch.isDigit = true := by
    intro before after ch hmem
    rw [List.mem_append, List.mem_append] at hmem
    rcases hmem with hmem | hmem | hmem
    · exact List.eq_of_mem_replicate hmem ▸ rfl
    · exact isDigit_of_mem_chars hmem
    · exact List.eq_of_mem_replicate hmem ▸ rfl
  have hlength : decimal.chars.length = decimal.digits.length := List.length_map _
  by_cases hneg : decimal.exponent < 0
  · have hplaces : ['0'] ++ (List.replicate (-decimal.exponent - 1).toNat '0' ++ decimal.chars) =
        List.replicate ((-decimal.exponent - 1).toNat + 1) '0' ++ (decimal.chars ++ List.replicate 0 '0') := by
      rw [List.replicate_succ, List.replicate_zero, List.append_nil]
      rfl
    refine ⟨['0'], _, _, 0, ?_, List.cons_ne_nil _ _, hplaces ▸ hdigits _ _, hplaces, ?_⟩
    · rw [plainText, Backend.DecimalForm.plainText, if_pos hneg, pointed, if_neg (by simp [chars, digits])]
      rfl
    · rw [List.length_singleton]
      omega
  by_cases hshort : decimal.digits.length ≤ decimal.exponent.toNat + 1
  · have hplaces : decimal.chars ++ List.replicate (decimal.exponent.toNat + 1 - decimal.digits.length) '0' ++ [] =
        List.replicate 0 '0' ++
          (decimal.chars ++ List.replicate (decimal.exponent.toNat + 1 - decimal.digits.length) '0') :=
      List.append_nil _
    refine ⟨decimal.chars ++ List.replicate (decimal.exponent.toNat + 1 - decimal.digits.length) '0', [], 0, _, ?_,
      List.append_ne_nil_of_left_ne_nil (List.cons_ne_nil _ _) _, fun ch hmem => hdigits _ _ ch (hplaces ▸ hmem),
      hplaces, ?_⟩
    · rw [plainText, Backend.DecimalForm.plainText, if_neg hneg, if_pos hshort, pointed, if_pos rfl, List.append_nil]
      rfl
    · rw [List.length_append, List.length_replicate]
      omega
  · have hplaces : decimal.chars.take (decimal.exponent.toNat + 1) ++ decimal.chars.drop (decimal.exponent.toNat + 1) =
        List.replicate 0 '0' ++ (decimal.chars ++ List.replicate 0 '0') := by
      rw [List.take_append_drop, List.replicate_zero, List.append_nil, List.nil_append]
    refine ⟨decimal.chars.take (decimal.exponent.toNat + 1), _, 0, 0, ?_, List.cons_ne_nil _ _, hplaces ▸ hdigits _ _,
      hplaces, ?_⟩
    · have hpos : 0 < (decimal.chars.drop (decimal.exponent.toNat + 1)).length := by
        rw [List.length_drop]
        omega
      rw [plainText, Backend.DecimalForm.plainText, if_neg hneg, if_neg hshort, pointed,
        if_neg (List.ne_nil_of_length_pos hpos)]
      rfl
    · rw [List.length_take]
      omega

theorem eq_of_chars (hchars : decimal.chars = other.chars) (hexponent : decimal.exponent = other.exponent) :
    decimal = other := by
  have hdigits : decimal.digits = other.digits := List.map_injective_iff.mpr digitChar_injective hchars
  obtain ⟨first, rest, exponent, _, _⟩ := decimal
  obtain ⟨first', rest', exponent', _, _⟩ := other
  obtain ⟨rfl, rfl⟩ := List.cons.inj hdigits
  obtain rfl : exponent = exponent' := hexponent
  rfl

theorem plainText_inj (heq : decimal.plainText = other.plainText) : decimal = other := by
  obtain ⟨integral, fraction, before, after, hplaces⟩ := decimal.exists_places
  obtain ⟨integral', fraction', before', after', hplaces'⟩ := other.exists_places
  have hpoint : ∀ {integral fraction : List Char}, (∀ ch ∈ integral ++ fraction, ch.isDigit = true) →
      '.' ∉ integral :=
    fun hdigits hmem => absurd (hdigits '.' (List.mem_append_left _ hmem)) (by decide)
  rw [hplaces.text, hplaces'.text] at heq
  obtain ⟨rfl, rfl⟩ := pointed_inj (hpoint hplaces.isDigit) (hpoint hplaces'.isDigit) heq
  have hhead : ∀ (decimal : ShortestDecimal) (after : Nat),
      (decimal.chars ++ List.replicate after '0').head? ≠ some '0' :=
    fun decimal after => decimal.head_chars
  obtain ⟨rfl, hrest⟩ := replicate_append_inj (hhead decimal after) (hhead other after')
    (hplaces.digits.symm.trans hplaces'.digits)
  exact eq_of_chars (append_replicate_inj getLast_chars getLast_chars hrest)
    (hplaces.exponent.trans hplaces'.exponent.symm)

theorem mem_pointed {integral fraction : List Char} {ch : Char} (hmem : ch ∈ pointed integral fraction) :
    ch ∈ integral ∨ ch = '.' ∨ ch ∈ fraction := by
  rcases List.mem_append.mp hmem with hmem | hmem
  · exact .inl hmem
  · split at hmem
    · cases hmem
    · exact .inr (List.mem_cons.mp hmem)

theorem e_notMem_mantissa (decimal : ShortestDecimal) :
    'e' ∉ pointed [digitChar decimal.first] (decimal.rest.map digitChar) := by
  intro hmem
  rcases mem_pointed hmem with hmem | hpoint | hmem
  · exact absurd (List.mem_singleton.mp hmem ▸ isDigit_digitChar _) (by decide)
  · exact absurd hpoint (by decide)
  · exact absurd (isDigit_of_mem_map hmem) (by decide)

theorem exponentialText_inj (heq : decimal.exponentialText = other.exponentialText) : decimal = other := by
  obtain ⟨hmantissa, hexponent⟩ := split_at decimal.e_notMem_mantissa other.e_notMem_mantissa rfl rfl heq
  obtain ⟨hsign, hnat⟩ := List.cons.inj (List.cons.inj hexponent).2
  have habs : decimal.exponent.natAbs = other.exponent.natAbs := by
    have hvalue := congrArg (Nat.ofDigitChars 10 · 0) hnat
    simpa only [Nat.ofDigitChars_toDigits (by decide : 1 < 10) (Nat.le_refl 10)] using hvalue
  have hneg : decimal.exponent < 0 ↔ other.exponent < 0 := by
    by_cases hdecimal : decimal.exponent < 0
    · by_cases hother : other.exponent < 0
      · exact iff_of_true hdecimal hother
      · rw [if_pos hdecimal, if_neg hother] at hsign
        exact absurd hsign (by decide)
    · by_cases hother : other.exponent < 0
      · rw [if_neg hdecimal, if_pos hother] at hsign
        exact absurd hsign (by decide)
      · exact iff_of_false hdecimal hother
  have hpoint : ∀ digit : Fin 10, '.' ∉ [digitChar digit] := by decide
  obtain ⟨hfirst, hrest⟩ := pointed_inj (hpoint _) (hpoint _) hmantissa
  refine eq_of_chars ?_ (by omega)
  rw [chars, chars, digits, digits, List.map_cons, List.map_cons, (List.cons.inj hfirst).1, hrest]

theorem plainText_ne_exponentialText : decimal.plainText ≠ other.exponentialText := by
  intro heq
  obtain ⟨integral, fraction, before, after, hplaces⟩ := decimal.exists_places
  have hmem : 'e' ∈ pointed integral fraction := by
    rw [← hplaces.text, heq]
    exact List.mem_append_right _ List.mem_cons_self
  rcases mem_pointed hmem with hmem | hpoint | hmem
  · exact absurd (hplaces.isDigit _ (List.mem_append_left _ hmem)) (by decide)
  · exact absurd hpoint (by decide)
  · exact absurd (hplaces.isDigit _ (List.mem_append_right _ hmem)) (by decide)

theorem text_inj (heq : decimal.text = other.text) : decimal = other := by
  unfold text at heq
  split at heq
  · split at heq
    · exact plainText_inj heq
    · exact absurd heq plainText_ne_exponentialText
  · split at heq
    · exact absurd heq.symm plainText_ne_exponentialText
    · exact exponentialText_inj heq

end ShortestDecimal

structure Prints (print : ShortestDecimal → List Char) : Prop where
  inj : ∀ {decimal other}, print decimal = print other → decimal = other
  head : ∀ decimal, ∃ ch text, print decimal = ch :: text ∧ ch.isDigit = true
  first : ∀ decimal : ShortestDecimal, digitChar decimal.first ∈ print decimal

theorem prints_plainText : Prints ShortestDecimal.plainText where
  inj := ShortestDecimal.plainText_inj
  head decimal := by
    obtain ⟨integral, fraction, before, after, hplaces⟩ := decimal.exists_places
    obtain ⟨ch, rest, rfl⟩ := List.exists_cons_of_ne_nil hplaces.ne_nil
    exact ⟨ch, _, hplaces.text, hplaces.isDigit ch List.mem_cons_self⟩
  first decimal := by
    obtain ⟨integral, fraction, before, after, hplaces⟩ := decimal.exists_places
    have hmem : digitChar decimal.first ∈ integral ++ fraction := by
      rw [hplaces.digits]
      exact List.mem_append_right _ (List.mem_append_left _ List.mem_cons_self)
    rw [hplaces.text, ShortestDecimal.pointed]
    rcases List.mem_append.mp hmem with hmem | hmem
    · exact List.mem_append_left _ hmem
    · rw [if_neg (List.ne_nil_of_mem hmem)]
      exact List.mem_append_right _ (List.mem_cons_of_mem _ hmem)

theorem prints_text : Prints ShortestDecimal.text where
  inj := ShortestDecimal.text_inj
  head decimal := by
    unfold ShortestDecimal.text
    split
    · exact prints_plainText.head decimal
    · exact ⟨_, _, rfl, isDigit_digitChar _⟩
  first decimal := by
    unfold ShortestDecimal.text
    split
    · exact prints_plainText.first decimal
    · exact List.mem_cons_self

def Significant (ch : Char) : Bool := ch.isDigit && ch ≠ '0'

section Prints

variable {print : ShortestDecimal → List Char} (prints : Prints print) {negative negative' : Bool}
  {decimal other : ShortestDecimal}
include prints

theorem Prints.significant :
    (String.ofList (signText negative ++ print decimal)).toList.any Significant = true := by
  rw [String.toList_ofList, List.any_eq_true]
  refine ⟨_, List.mem_append_right _ (prints.first decimal), ?_⟩
  have hleading : digitChar decimal.first ≠ '0' := fun heq => decimal.leading (digitChar_injective heq)
  rw [Significant, isDigit_digitChar, Bool.true_and, decide_eq_true hleading]

theorem Prints.signed_inj
    (heq : String.ofList (signText negative ++ print decimal) = String.ofList (signText negative' ++ print other)) :
    negative = negative' ∧ decimal = other := by
  have hminus : ∀ {ch : Char} {text text' : List Char}, ch.isDigit = true → ch :: text ≠ '-' :: text' := by
    intro ch text text' hdigit hcons
    rw [(List.cons.inj hcons).1] at hdigit
    exact absurd hdigit (by decide)
  obtain ⟨ch, text, htext, hdigit⟩ := prints.head decimal
  obtain ⟨ch', text', htext', hdigit'⟩ := prints.head other
  have hchars : signText negative ++ print decimal = signText negative' ++ print other := String.ofList_injective heq
  cases negative with
  | true =>
      cases negative' with
      | true => exact ⟨rfl, prints.inj (List.cons.inj hchars).2⟩
      | false =>
          have hcons : '-' :: print decimal = ch' :: text' := hchars.trans htext'
          exact absurd hcons.symm (hminus hdigit')
  | false =>
      cases negative' with
      | true =>
          have hcons : ch :: text = '-' :: print other := htext.symm.trans hchars
          exact absurd hcons (hminus hdigit)
      | false => exact ⟨rfl, prints.inj hchars⟩

end Prints

namespace Number

variable {number other : Number}

def constants : List Number := [.nan, .infinite false, .infinite true, .zero false, .zero true]

theorem constant_or_finite (number : Number) :
    number ∈ constants ∨ ∃ negative decimal, number = .finite negative decimal := by
  cases number with
  | nan => exact .inl (by decide)
  | infinite negative => cases negative <;> exact .inl (by decide)
  | zero negative => cases negative <;> exact .inl (by decide)
  | finite negative decimal => exact .inr ⟨negative, decimal, rfl⟩

theorem constants_texts : ∀ number ∈ constants, number.formatFloat.toList.any Significant = false ∧
    number.toText.toList.any Significant = false ∧ (number.Faithful ↔ number.formatFloat = number.toText) := by
  decide

theorem formatFloat_inj (heq : number.formatFloat = other.formatFloat) : number = other := by
  have hconstants : ∀ number ∈ constants, ∀ other ∈ constants,
      number.formatFloat = other.formatFloat → number = other := by decide
  rcases number.constant_or_finite with hnumber | ⟨negative, decimal, rfl⟩
  · rcases other.constant_or_finite with hother | ⟨negative, decimal, rfl⟩
    · exact hconstants number hnumber other hother heq
    · have hnone := (constants_texts number hnumber).1
      rw [heq, formatFloat, prints_plainText.significant] at hnone
      cases hnone
  · rcases other.constant_or_finite with hother | ⟨negative', decimal', rfl⟩
    · have hnone := (constants_texts other hother).1
      rw [← heq, formatFloat, prints_plainText.significant] at hnone
      cases hnone
    · obtain ⟨rfl, rfl⟩ := prints_plainText.signed_inj heq
      rfl

theorem toText_eq_iff : number.toText = other.toText ↔
    number = other ∨ ∃ negative negative', number = .zero negative ∧ other = .zero negative' := by
  constructor
  · intro heq
    have hconstants : ∀ number ∈ constants, ∀ other ∈ constants, number.toText = other.toText →
        number = other ∨ ∃ negative negative', number = .zero negative ∧ other = .zero negative' := by decide
    rcases number.constant_or_finite with hnumber | ⟨negative, decimal, rfl⟩
    · rcases other.constant_or_finite with hother | ⟨negative, decimal, rfl⟩
      · exact hconstants number hnumber other hother heq
      · have hnone := (constants_texts number hnumber).2.1
        rw [heq, toText, prints_text.significant] at hnone
        cases hnone
    · rcases other.constant_or_finite with hother | ⟨negative', decimal', rfl⟩
      · have hnone := (constants_texts other hother).2.1
        rw [← heq, toText, prints_text.significant] at hnone
        cases hnone
      · obtain ⟨rfl, rfl⟩ := prints_text.signed_inj heq
        exact .inl rfl
  · rintro (rfl | ⟨negative, negative', rfl, rfl⟩)
    · rfl
    · rfl

theorem faithful_iff : number.Faithful ↔ number.formatFloat = number.toText := by
  rcases number.constant_or_finite with hnumber | ⟨negative, decimal, rfl⟩
  · exact (constants_texts number hnumber).2.2
  · constructor
    · intro hfaithful
      have hplain : decimal.Plain := hfaithful
      rw [formatFloat, toText, ShortestDecimal.text, if_pos hplain]
    · intro heq
      have hchars := List.append_cancel_left (String.ofList_injective heq)
      by_contra hfaithful
      have hplain : ¬decimal.Plain := hfaithful
      rw [ShortestDecimal.text, if_neg hplain] at hchars
      exact ShortestDecimal.plainText_ne_exponentialText hchars

def words : List String := ["undefined", "null", "true", "false", "bigint", "length"]

theorem text_ne_word {word : String} (hword : word ∈ words) (number : Number) :
    number.formatFloat ≠ word ∧ number.toText ≠ word := by
  have hconstants : ∀ number ∈ constants, ∀ word ∈ words, number.formatFloat ≠ word ∧ number.toText ≠ word := by
    decide
  have hnone : ∀ word ∈ words, word.toList.any Significant = false := by decide
  rcases number.constant_or_finite with hnumber | ⟨negative, decimal, rfl⟩
  · exact hconstants number hnumber word hword
  · constructor
    · rintro rfl
      exact Bool.false_ne_true ((hnone _ hword).symm.trans prints_plainText.significant)
    · rintro rfl
      exact Bool.false_ne_true ((hnone _ hword).symm.trans prints_text.significant)

end Number

end Jayess.Runtime
