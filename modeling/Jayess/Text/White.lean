import Mathlib.Data.List.Find
import Jayess.Text.Slices

/-! # White space in bytes -/

namespace White

def spaces : List Char :=
  ['\t', '\n', '\x0B', '\x0C', '\r', ' ', '\u0085', '\u00A0', '\u1680', '\u2000', '\u2001', '\u2002',
    '\u2003', '\u2004', '\u2005', '\u2006', '\u2007', '\u2008', '\u2009', '\u200A', '\u2028', '\u2029',
    '\u202F', '\u205F', '\u3000']

def encodings : List (List UInt8) := spaces.map String.utf8EncodeChar

def leading? (patterns : List (List UInt8)) (bytes : List UInt8) : Option (List UInt8) :=
  patterns.find? fun pattern => pattern ≠ [] && pattern.isPrefixOf bytes

theorem leading?_eq_some {patterns : List (List UInt8)} {bytes pattern : List UInt8}
    (hleading : leading? patterns bytes = some pattern) : pattern ≠ [] ∧ pattern <+: bytes := by
  simpa using List.find?_some hleading

theorem length_drop_lt {pattern bytes : List UInt8} (hpattern : pattern ≠ [] ∧ pattern <+: bytes) :
    (bytes.drop pattern.length).length < bytes.length := by
  have hpos := List.length_pos_iff.mpr hpattern.1
  have hle := hpattern.2.length_le
  rw [List.length_drop]
  omega

def skip (patterns : List (List UInt8)) (bytes : List UInt8) : List UInt8 :=
  match _hleading : leading? patterns bytes with
  | some pattern => skip patterns (bytes.drop pattern.length)
  | none => bytes
termination_by bytes.length
decreasing_by exact length_drop_lt (leading?_eq_some _hleading)

def trimLeft (bytes : List UInt8) : List UInt8 := skip encodings bytes

def trimRight (bytes : List UInt8) : List UInt8 :=
  (skip (encodings.map List.reverse) bytes.reverse).reverse

def trimSpace (bytes : List UInt8) : List UInt8 := trimRight (trimLeft bytes)

/-- A field that white space or the end of the text closes is kept if it has a byte. -/
def closed (field : List UInt8) : List (List UInt8) := if field = [] then [] else [field]

def fieldsFrom (field bytes : List UInt8) : List (List UInt8) :=
  match _hleading : leading? encodings bytes with
  | some pattern => closed field ++ fieldsFrom [] (bytes.drop pattern.length)
  | none =>
      match bytes with
      | [] => closed field
      | byte :: bytes => fieldsFrom (field ++ [byte]) bytes
termination_by bytes.length
decreasing_by
  · exact length_drop_lt (leading?_eq_some _hleading)
  · exact Nat.lt_succ_self _

def fields (bytes : List UInt8) : List (List UInt8) := fieldsFrom [] bytes

/-! ## Bytes that are no part of white space -/

def Plain (byte : UInt8) : Prop := 0x20 < byte ∧ byte < 0x80

section Plain

variable {patterns : List (List UInt8)} {text bytes rest : List UInt8} {byte : UInt8}

theorem not_mem_of_plain (hplain : Plain byte) : ∀ pattern ∈ encodings, byte ∉ pattern := by
  have hencodings : ∀ pattern ∈ encodings, ∀ byte ∈ pattern, byte ≤ 0x20 ∨ 0x80 ≤ byte := by
    decide +kernel
  intro pattern hpattern hbyte
  rcases hencodings pattern hpattern byte hbyte with hle | hle
  · exact absurd hplain.1 (UInt8.not_lt.mpr hle)
  · exact absurd hplain.2 (UInt8.not_lt.mpr hle)

theorem leading?_congr (hsame : ∀ pattern ∈ patterns, pattern.isPrefixOf text = pattern.isPrefixOf bytes) :
    leading? patterns text = leading? patterns bytes :=
  List.find?_congr fun pattern hpattern => by rw [hsame pattern hpattern]

theorem leading?_append (hbyte : ∀ pattern ∈ patterns, byte ∉ pattern) :
    leading? patterns (text ++ byte :: rest) = leading? patterns text :=
  leading?_congr fun pattern hpattern => Jayess.Slices.isPrefixOf_append_cons (hbyte pattern hpattern)

theorem leading?_nil : leading? patterns [] = none := by
  rw [leading?, List.find?_eq_none]
  intro pattern _
  simp

theorem skip_of_leading {pattern : List UInt8} (hleading : leading? patterns bytes = some pattern) :
    skip patterns bytes = skip patterns (bytes.drop pattern.length) := by
  rw [skip]
  split
  · rename_i found hfound
    obtain rfl : pattern = found := Option.some.inj (hleading.symm.trans hfound)
    rfl
  · rename_i hnone
    rw [hleading] at hnone
    cases hnone

theorem skip_of_leading_none (hleading : leading? patterns bytes = none) :
    skip patterns bytes = bytes := by
  rw [skip]
  split
  · rename_i found hfound
    rw [hleading] at hfound
    cases hfound
  · rfl

theorem skip_append (hbyte : ∀ pattern ∈ patterns, byte ∉ pattern) :
    skip patterns (text ++ byte :: rest) = skip patterns text ++ byte :: rest := by
  induction text using skip.induct patterns with
  | case1 text pattern hleading ih =>
      have hle := (leading?_eq_some hleading).2.length_le
      rw [skip_of_leading hleading, skip_of_leading ((leading?_append hbyte).trans hleading),
        List.drop_append_of_le_length hle, ih]
  | case2 text hleading =>
      rw [skip_of_leading_none hleading, skip_of_leading_none ((leading?_append hbyte).trans hleading)]

theorem trimSpace_plain (hplain : ∀ byte ∈ text, Plain byte) (hne : text ≠ []) :
    trimSpace (text ++ rest) = text ++ trimRight rest := by
  have hleft : trimLeft (text ++ rest) = text ++ rest := by
    obtain ⟨first, text, rfl⟩ := List.exists_cons_of_ne_nil hne
    have hfirst := not_mem_of_plain (hplain first List.mem_cons_self)
    have hskip : skip encodings ([] ++ first :: (text ++ rest)) = _ := skip_append hfirst
    rw [skip_of_leading_none leading?_nil] at hskip
    exact hskip
  have hlast := not_mem_of_plain (hplain _ (List.getLast_mem hne))
  have hreverse : ∀ pattern ∈ encodings.map List.reverse, text.getLast hne ∉ pattern := by
    intro pattern hpattern
    obtain ⟨encoding, hencoding, rfl⟩ := List.mem_map.mp hpattern
    rw [List.mem_reverse]
    exact hlast encoding hencoding
  rw [trimSpace, hleft, trimRight, trimRight]
  conv_lhs => rw [← List.dropLast_append_getLast hne]
  rw [List.reverse_append, List.reverse_append, List.reverse_singleton, List.singleton_append,
    skip_append hreverse, List.reverse_append, List.reverse_cons, List.reverse_reverse,
    List.dropLast_append_getLast hne]

theorem skip_nil : skip patterns [] = [] := skip_of_leading_none leading?_nil

theorem trimSpace_nil : trimSpace [] = [] := by
  rw [trimSpace, trimLeft, skip_nil, trimRight, List.reverse_nil, skip_nil, List.reverse_nil]

theorem trimSpace_eq_self (hplain : ∀ byte ∈ text, Plain byte) (hne : text ≠ []) : trimSpace text = text := by
  have hwhole : trimSpace (text ++ []) = text ++ trimRight [] := trimSpace_plain hplain hne
  rw [trimRight, List.reverse_nil, skip_nil, List.reverse_nil, List.append_nil] at hwhole
  exact hwhole

theorem trimSpace_ne_nil (hplain : Plain byte) (text : List UInt8) : trimSpace (text ++ [byte]) ≠ [] := by
  have hbyte := not_mem_of_plain hplain
  have hreverse : ∀ pattern ∈ encodings.map List.reverse, byte ∉ pattern := by
    intro pattern hpattern
    obtain ⟨encoding, hencoding, rfl⟩ := List.mem_map.mp hpattern
    rw [List.mem_reverse]
    exact hbyte encoding hencoding
  rw [trimSpace, trimLeft, skip_append hbyte, trimRight, List.reverse_append, List.reverse_singleton,
    ← List.nil_append ([byte] ++ _), List.singleton_append, skip_append hreverse,
    skip_of_leading_none leading?_nil]
  simp

end Plain

section Alone

variable {patterns : List (List UInt8)} {text rest : List UInt8} {byte : UInt8}

theorem leading?_concat (halone : ∀ pattern ∈ patterns, byte ∈ pattern → pattern = [byte]) (hne : text ≠ []) :
    leading? patterns (text ++ [byte]) = leading? patterns text := by
  obtain ⟨first, text, rfl⟩ := List.exists_cons_of_ne_nil hne
  refine leading?_congr fun pattern hpattern => ?_
  by_cases hmem : byte ∈ pattern
  · rw [halone pattern hpattern hmem, Bool.eq_iff_iff, List.isPrefixOf_iff_prefix, List.isPrefixOf_iff_prefix,
      List.cons_append, List.cons_prefix_cons, List.cons_prefix_cons]
    simp
  · exact Jayess.Slices.isPrefixOf_append_cons hmem

end Alone

section Trimmed

variable {patterns : List (List UInt8)} {text rest : List UInt8} {byte : UInt8}

theorem exists_skip (patterns : List (List UInt8)) (text : List UInt8) :
    ∃ before, text = before ++ skip patterns text ∧ ∀ byte ∈ before, ∃ pattern ∈ patterns, byte ∈ pattern := by
  induction text using skip.induct patterns with
  | case1 text pattern hleading ih =>
      obtain ⟨before, hbefore, hpatterns⟩ := ih
      have htake := List.prefix_iff_eq_append.mp (leading?_eq_some hleading).2
      refine ⟨pattern ++ before, ?_, fun byte hbyte => ?_⟩
      · rw [skip_of_leading hleading, List.append_assoc, ← hbefore, htake]
      · rcases List.mem_append.mp hbyte with hbyte | hbyte
        · exact ⟨pattern, List.mem_of_find?_eq_some hleading, hbyte⟩
        · exact hpatterns byte hbyte
  | case2 text hleading =>
      exact ⟨[], (skip_of_leading_none hleading).symm, by simp⟩

theorem leading?_skip (patterns : List (List UInt8)) (text : List UInt8) :
    leading? patterns (skip patterns text) = none := by
  induction text using skip.induct patterns with
  | case1 text pattern hleading ih => rw [skip_of_leading hleading, ih]
  | case2 text hleading => rw [skip_of_leading_none hleading, hleading]

theorem leading?_begins (hleading : leading? patterns (text ++ rest) = none) :
    leading? patterns text = none := by
  rw [leading?, List.find?_eq_none] at hleading ⊢
  intro pattern hpattern hfound
  refine hleading pattern hpattern ?_
  simp only [ne_eq, decide_not, Bool.and_eq_true, Bool.not_eq_eq_eq_not, Bool.not_true, decide_eq_false_iff_not,
    List.isPrefixOf_iff_prefix] at hfound ⊢
  exact ⟨hfound.1, hfound.2.trans (List.prefix_append text rest)⟩

theorem exists_trimRight (text : List UInt8) :
    ∃ after, text = trimRight text ++ after ∧ ∀ byte ∈ after, ¬Plain byte := by
  obtain ⟨before, hbefore, hpatterns⟩ := exists_skip (encodings.map List.reverse) text.reverse
  refine ⟨before.reverse, ?_, fun byte hbyte hplain => ?_⟩
  · rw [trimRight, ← List.reverse_append, ← hbefore, List.reverse_reverse]
  · obtain ⟨pattern, hpattern, hmem⟩ := hpatterns byte (List.mem_reverse.mp hbyte)
    obtain ⟨encoding, hencoding, rfl⟩ := List.mem_map.mp hpattern
    exact not_mem_of_plain hplain encoding hencoding (List.mem_reverse.mp hmem)

theorem leading?_trimSpace (text : List UInt8) : leading? encodings (trimSpace text) = none := by
  obtain ⟨after, hafter, -⟩ := exists_trimRight (trimLeft text)
  have hleading := leading?_skip encodings text
  rw [trimSpace]
  refine @leading?_begins encodings (trimRight (trimLeft text)) after ?_
  rw [← hafter]
  exact hleading

theorem trimRight_trimSpace (text : List UInt8) : trimRight (trimSpace text) = trimSpace text := by
  rw [trimSpace, trimRight, trimRight, List.reverse_reverse, skip_of_leading_none (leading?_skip _ _)]

theorem trimSpace_trimSpace (text : List UInt8) : trimSpace (trimSpace text) = trimSpace text := by
  have hleft : trimLeft (trimSpace text) = trimSpace text := skip_of_leading_none (leading?_trimSpace text)
  rw [trimSpace, hleft, trimRight_trimSpace]

end Trimmed

section Fields

variable {field text : List UInt8} {byte : UInt8}

theorem fieldsFrom_leading {pattern : List UInt8} (hleading : leading? encodings text = some pattern) :
    fieldsFrom field text = closed field ++ fieldsFrom [] (text.drop pattern.length) := by
  rw [fieldsFrom]
  split
  · rename_i found hfound
    obtain rfl : pattern = found := Option.some.inj (hleading.symm.trans hfound)
    rfl
  · rename_i hnone
    rw [hleading] at hnone
    cases hnone

theorem fieldsFrom_cons (hleading : leading? encodings (byte :: text) = none) :
    fieldsFrom field (byte :: text) = fieldsFrom (field ++ [byte]) text := by
  rw [fieldsFrom]
  split
  · rename_i found hfound
    rw [hleading] at hfound
    cases hfound
  · rfl

theorem fieldsFrom_nil : fieldsFrom field [] = closed field := by
  rw [fieldsFrom]
  split
  · rename_i found hfound
    rw [leading?_nil] at hfound
    cases hfound
  · rfl

theorem leading?_return (hne : text ≠ []) :
    leading? encodings (text ++ [0x0D]) = leading? encodings text :=
  leading?_concat (by decide) hne

theorem fields_return (text : List UInt8) : fields (text ++ [0x0D]) = fields text := by
  have hfrom : ∀ field text, fieldsFrom field (text ++ [0x0D]) = fieldsFrom field text := by
    intro field text
    induction field, text using fieldsFrom.induct with
    | case1 field text pattern hleading ih =>
        have hne : text ≠ [] := by
          rintro rfl
          rw [leading?_nil] at hleading
          cases hleading
        have hle := (leading?_eq_some hleading).2.length_le
        rw [fieldsFrom_leading hleading, fieldsFrom_leading ((leading?_return hne).trans hleading),
          List.drop_append_of_le_length hle, ih]
    | case2 field _ =>
        have hleading : leading? encodings [0x0D] = some [0x0D] := by decide
        rw [List.nil_append, fieldsFrom_leading hleading, List.length_singleton, List.drop_one,
          List.tail_cons, fieldsFrom_nil, fieldsFrom_nil]
        exact List.append_nil _
    | case3 field byte text hleading ih =>
        have hreturn : leading? encodings (byte :: (text ++ [0x0D])) = none :=
          (leading?_return (List.cons_ne_nil byte text)).trans hleading
        rw [fieldsFrom_cons hleading, List.cons_append, fieldsFrom_cons hreturn, ih]
  exact hfrom [] text

end Fields

end White
