import Mathlib.Algebra.GroupWithZero.Nat
import Mathlib.Algebra.Order.BigOperators.Group.List
import Mathlib.Algebra.Order.Group.Nat
import Jayess.Text.White

/-!
# Lines of bytes

Splitting at a byte, and texts whose lines end in a line feed, with or without a carriage return before it.
-/

namespace Lines

def splitFrom (sep : UInt8) (part : List UInt8) : List UInt8 → List (List UInt8)
  | [] => [part]
  | byte :: text =>
      if byte = sep then part :: splitFrom sep [] text else splitFrom sep (part ++ [byte]) text

/-- `strings.Split` for a separator of one byte. -/
def split (sep : UInt8) (text : List UInt8) : List (List UInt8) := splitFrom sep [] text

/-- `strings.SplitN` for a separator of one byte. -/
def splitN (sep : UInt8) : Nat → List UInt8 → List (List UInt8)
  | 0, _ => []
  | 1, text => [text]
  | count + 2, text =>
      if sep ∈ text then
        text.takeWhile (· ≠ sep) :: splitN sep (count + 1) (text.dropWhile (· ≠ sep)).tail
      else [text]

/-- `strings.ReplaceAll(text, "\r\n", "\n")`. -/
def dropReturns : List UInt8 → List UInt8
  | [] => []
  | [byte] => [byte]
  | byte :: next :: text =>
      if byte = 0x0D ∧ next = 0x0A then next :: dropReturns text else byte :: dropReturns (next :: text)

def splitLines (text : List UInt8) : List (List UInt8) := split 0x0A (dropReturns text)

def chop (text : List UInt8) : List UInt8 := if text.getLast? = some 0x0D then text.dropLast else text

section Split

variable {sep byte : UInt8} {text rest last : List UInt8} {parts : List (List UInt8)}

theorem exists_splitFrom (part text : List UInt8) : ∃ parts last,
    ∀ rest, splitFrom sep part (text ++ rest) = parts ++ splitFrom sep last rest := by
  induction text generalizing part with
  | nil => exact ⟨[], part, fun rest => rfl⟩
  | cons byte text ih =>
      by_cases hsep : byte = sep
      · obtain ⟨parts, last, hrest⟩ := ih []
        refine ⟨part :: parts, last, fun rest => ?_⟩
        rw [List.cons_append, splitFrom, if_pos hsep, hrest, List.cons_append]
      · obtain ⟨parts, last, hrest⟩ := ih (part ++ [byte])
        refine ⟨parts, last, fun rest => ?_⟩
        rw [List.cons_append, splitFrom, if_neg hsep, hrest]

theorem exists_split (text : List UInt8) : ∃ parts last, split sep text = parts ++ [last] ∧
    ∀ rest, split sep (text ++ rest) = parts ++ splitFrom sep last rest := by
  obtain ⟨parts, last, hrest⟩ := @exists_splitFrom sep [] text
  refine ⟨parts, last, ?_, hrest⟩
  have hnil := hrest []
  rwa [List.append_nil] at hnil

theorem split_append (text rest : List UInt8) :
    split sep (text ++ sep :: rest) = split sep text ++ split sep rest := by
  obtain ⟨parts, last, htext, hrest⟩ := @exists_split sep text
  rw [hrest, htext, splitFrom, if_pos rfl, List.append_assoc]
  rfl

theorem split_concat (hbyte : byte ≠ sep) (hsplit : split sep text = parts ++ [last]) :
    split sep (text ++ [byte]) = parts ++ [last ++ [byte]] := by
  obtain ⟨parts', last', htext, hrest⟩ := @exists_split sep text
  obtain ⟨rfl, hlast⟩ := List.append_inj' (htext.symm.trans hsplit) rfl
  cases hlast
  rw [hrest, splitFrom, if_neg hbyte, splitFrom]

theorem not_mem_split : ∀ part ∈ split sep text, sep ∉ part := by
  have hfrom : ∀ part, sep ∉ part → ∀ later ∈ splitFrom sep part text, sep ∉ later := by
    induction text with
    | nil =>
        intro part hpart later hlater
        rwa [List.mem_singleton.mp hlater]
    | cons byte text ih =>
        intro part hpart later hlater
        rw [splitFrom] at hlater
        by_cases hsep : byte = sep
        · rw [if_pos hsep] at hlater
          rcases List.mem_cons.mp hlater with rfl | hlater
          · exact hpart
          · exact ih [] List.not_mem_nil later hlater
        · rw [if_neg hsep] at hlater
          refine ih (part ++ [byte]) ?_ later hlater
          rw [List.mem_append, List.mem_singleton, not_or]
          exact ⟨hpart, Ne.symm hsep⟩
  exact hfrom [] List.not_mem_nil

theorem splitFrom_eq_singleton (part : List UInt8) (hpart : sep ∉ text) :
    splitFrom sep part text = [part ++ text] := by
  induction text generalizing part with
  | nil => rw [splitFrom, List.append_nil]
  | cons byte text ih =>
      rw [List.mem_cons, not_or] at hpart
      rw [splitFrom, if_neg (Ne.symm hpart.1), ih _ hpart.2, List.append_assoc, List.singleton_append]

theorem split_eq_singleton (hpart : sep ∉ text) : split sep text = [text] :=
  splitFrom_eq_singleton [] hpart

theorem cut_eq (hpart : sep ∉ text) :
    (text ++ sep :: rest).takeWhile (· ≠ sep) = text ∧
      (text ++ sep :: rest).dropWhile (· ≠ sep) = sep :: rest := by
  have hpass : ∀ byte ∈ text, decide (byte ≠ sep) = true := by
    intro byte hbyte
    exact decide_eq_true (ne_of_mem_of_not_mem hbyte hpart)
  constructor
  · rw [List.takeWhile_append_of_pos hpass, List.takeWhile_cons_of_neg (by simp), List.append_nil]
  · rw [List.dropWhile_append_of_pos hpass, List.dropWhile_cons_of_neg (by simp)]

theorem splitN_concat (hbyte : byte ≠ sep) (count : Nat) (text : List UInt8) : ∃ parts last,
    splitN sep (count + 1) text = parts ++ [last] ∧
      splitN sep (count + 1) (text ++ [byte]) = parts ++ [last ++ [byte]] := by
  induction count generalizing text with
  | zero => exact ⟨[], text, rfl, rfl⟩
  | succ count ih =>
      rw [splitN, splitN]
      by_cases hsep : sep ∈ text
      · obtain ⟨part, tail, rfl, hpart⟩ := List.eq_append_cons_of_mem hsep
        obtain ⟨parts, last, htail, hconcat⟩ := ih tail
        have hcut := @cut_eq sep part tail hpart
        have hcutConcat := @cut_eq sep part (tail ++ [byte]) hpart
        rw [← List.cons_append, ← List.append_assoc] at hcutConcat
        refine ⟨part :: parts, last, ?_, ?_⟩
        · rw [if_pos hsep, hcut.1, hcut.2, List.tail_cons, htail, List.cons_append]
        · rw [if_pos (List.mem_append_left _ hsep), hcutConcat.1, hcutConcat.2, List.cons_append,
            List.tail_cons, hconcat, List.cons_append]
      · refine ⟨[], text, if_neg hsep, if_neg ?_⟩
        rw [List.mem_append, List.mem_singleton, not_or]
        exact ⟨hsep, Ne.symm hbyte⟩

end Split

section Lines

variable {byte : UInt8} {text rest last : List UInt8} {lines : List (List UInt8)}

theorem dropReturns_cons (hkept : ¬(byte = 0x0D ∧ text.head? = some 0x0A)) :
    dropReturns (byte :: text) = byte :: dropReturns text := by
  cases text with
  | nil => rfl
  | cons next text =>
      rw [dropReturns, if_neg]
      rintro ⟨hbyte, hnext⟩
      exact hkept ⟨hbyte, congrArg some hnext⟩

theorem chop_cons (hne : text ≠ []) : chop (byte :: text) = byte :: chop text := by
  obtain ⟨next, text, rfl⟩ := List.exists_cons_of_ne_nil hne
  rw [chop, chop, List.getLast?_cons_cons]
  by_cases hreturn : (next :: text).getLast? = some 0x0D
  · rw [if_pos hreturn, if_pos hreturn, List.dropLast_cons_cons]
  · rw [if_neg hreturn, if_neg hreturn]

theorem chop_concat (text : List UInt8) : chop (text ++ [0x0D]) = text := by
  rw [chop, List.getLast?_concat, if_pos rfl, List.dropLast_concat]

theorem chop_cases (text : List UInt8) : text = chop text ++ [0x0D] ∨ chop text = text := by
  rw [chop]
  by_cases hreturn : text.getLast? = some 0x0D
  · left
    rw [if_pos hreturn]
    exact (List.dropLast_append_getLast? _ hreturn).symm
  · right
    rw [if_neg hreturn]

theorem dropReturns_append (text rest : List UInt8) :
    dropReturns (text ++ 0x0A :: rest) = dropReturns (chop text) ++ 0x0A :: dropReturns rest := by
  have hfeed : dropReturns (0x0A :: rest) = 0x0A :: dropReturns rest :=
    dropReturns_cons fun hboth => absurd hboth.1 (by decide)
  fun_induction dropReturns text with
  | case1 => exact hfeed
  | case2 byte =>
      by_cases hreturn : byte = 0x0D
      · subst hreturn
        rw [List.singleton_append, dropReturns, if_pos ⟨rfl, rfl⟩]
        rfl
      · rw [List.singleton_append, dropReturns_cons fun hboth => hreturn hboth.1, hfeed, chop, if_neg]
        · rfl
        · rw [List.getLast?_singleton, Option.some_inj]
          exact hreturn
  | case3 byte next text hreturn ih =>
      obtain ⟨rfl, rfl⟩ := hreturn
      have hchop : chop (0x0D :: 0x0A :: text) = 0x0D :: 0x0A :: chop text := by
        rw [chop_cons (List.cons_ne_nil _ _)]
        cases text with
        | nil => rfl
        | cons first text => rw [chop_cons (List.cons_ne_nil _ _)]
      rw [List.cons_append, List.cons_append, dropReturns, if_pos ⟨rfl, rfl⟩, ih, hchop, dropReturns,
        if_pos ⟨rfl, rfl⟩]
      rfl
  | case4 byte next text hreturn ih =>
      have hhead : ∀ rest, ¬(byte = 0x0D ∧ ((next :: text) ++ rest).head? = some 0x0A) := by
        rintro rest ⟨hbyte, hnext⟩
        exact hreturn ⟨hbyte, Option.some.inj hnext⟩
      have hchop : ¬(byte = 0x0D ∧ (chop (next :: text)).head? = some 0x0A) := by
        rintro ⟨hbyte, hnext⟩
        have hfirst : (next :: text).head? = some 0x0A := by
          rcases chop_cases (next :: text) with heq | heq
          · rw [heq, List.head?_append, hnext]
            rfl
          · rwa [heq] at hnext
        exact hreturn ⟨hbyte, Option.some.inj hfirst⟩
      rw [chop_cons (List.cons_ne_nil _ _), dropReturns_cons hchop, List.cons_append,
        dropReturns_cons (hhead _), ih, List.cons_append]

theorem dropReturns_concat (hbyte : byte ≠ 0x0A) (text : List UInt8) :
    dropReturns (text ++ [byte]) = dropReturns text ++ [byte] := by
  fun_induction dropReturns text with
  | case1 => rfl
  | case2 first => 
      rw [List.cons_append, List.nil_append, dropReturns, if_neg fun h => hbyte h.2]
      rfl
  | case3 first next text hreturn ih =>
      rw [List.cons_append, List.cons_append, dropReturns, if_pos hreturn, ih]
      rfl
  | case4 first next text hreturn ih =>
      rw [List.cons_append, List.cons_append, dropReturns, if_neg hreturn, ← List.cons_append, ih]
      rfl

theorem splitLines_append (text rest : List UInt8) :
    splitLines (text ++ 0x0A :: rest) = splitLines (chop text) ++ splitLines rest := by
  rw [splitLines, dropReturns_append, split_append, splitLines, splitLines]

theorem splitLines_concat (hbyte : byte ≠ 0x0A) (hlines : splitLines text = lines ++ [last]) :
    splitLines (text ++ [byte]) = lines ++ [last ++ [byte]] := by
  rw [splitLines, dropReturns_concat hbyte]
  exact split_concat hbyte hlines

theorem exists_lines (text : List UInt8) : ∃ lines last, splitLines text = lines ++ [last] := by
  obtain ⟨lines, last, hlines, -⟩ := @exists_split 0x0A (dropReturns text)
  exact ⟨lines, last, hlines⟩

end Lines

end Lines
