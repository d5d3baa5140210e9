import Mathlib.Data.List.Induction
import Jayess.Lexer.Positions
import Jayess.Text.Utf8

/-!
# Source texts
-/

namespace Jayess.Runtime

open Utf8

structure SourceLocation where
  byteOffset : Int
  line : Nat
  column : Nat
deriving DecidableEq, Repr

structure SourceText where
  text : List UInt8
  lineStarts : List Nat

def sourceLineStarts (text : List UInt8) : List Nat :=
  0 :: (runes 0 text).filterMap fun rune => if rune.2 = '\n' then some (rune.1 + 1) else none

def newSourceText (text : List UInt8) : SourceText := ⟨text, sourceLineStarts text⟩

def isRuneBoundary (text : List UInt8) (offset : Nat) : Bool :=
  offset = 0 || offset = text.length || runeStart (text.getD offset 0)

/-- The loop of `lineIndex`, between two indices of the line starts. -/
def lineIndexLoop (starts : List Nat) (byteOffset : Nat) (low high : Int) : Nat :=
  if low ≤ high then
    let mid := low + (high - low) / 2
    if starts.getD mid.toNat 0 ≤ byteOffset then
      if mid = starts.length - 1 ∨ byteOffset < starts.getD (mid + 1).toNat 0 then mid.toNat
      else lineIndexLoop starts byteOffset (mid + 1) high
    else lineIndexLoop starts byteOffset low (mid - 1)
  else 0
termination_by (high + 1 - low).toNat
decreasing_by all_goals omega

namespace SourceText

def lineIndex (source : SourceText) (byteOffset : Nat) : Nat :=
  lineIndexLoop source.lineStarts byteOffset 0 (source.lineStarts.length - 1)

def location (source : SourceText) (byteOffset : Int) : Option SourceLocation :=
  if byteOffset < 0 ∨ byteOffset > source.text.length then none
  else if !isRuneBoundary source.text byteOffset.toNat then none
  else
    let lineIndex := source.lineIndex byteOffset.toNat
    let start := source.lineStarts.getD lineIndex 0
    some ⟨byteOffset, lineIndex + 1,
      runeCount ((source.text.take byteOffset.toNat).drop start) + 1⟩

end SourceText

section Search

variable {starts : List Nat} {byteOffset line : Nat}

/-- The search ends at the last line start that is not behind the offset, if there is one between its
bounds. -/
theorem lineIndexLoop_eq (hline : line < starts.length)
    (hstarts : ∀ index < starts.length, starts.getD index 0 ≤ byteOffset ↔ index ≤ line)
    {low high : Int} (hlow : 0 ≤ low) (hhigh : high < starts.length) (hlow' : low ≤ line)
    (hhigh' : line ≤ high) : lineIndexLoop starts byteOffset low high = line := by
  fun_induction lineIndexLoop starts byteOffset low high with
  | case1 low high hle mid hmid hlast =>
      have hindex := (hstarts mid.toNat (by omega)).mp hmid
      rcases hlast with hlast | hnext
      · omega
      · by_contra hne
        have hbehind := (hstarts (mid + 1).toNat (by omega)).mpr (by omega)
        omega
  | case2 low high hle mid hmid hlast ih =>
      obtain ⟨hlast, hnext⟩ := not_or.mp hlast
      have hindex := (hstarts (mid + 1).toNat (by omega)).mp (by omega)
      exact ih (by omega) hhigh (by omega) hhigh'
  | case3 low high hle mid hmid ih =>
      have hindex := mt (hstarts mid.toNat (by omega)).mpr hmid
      exact ih hlow (by omega) hlow' (by omega)
  | case4 low high hle => omega

end Search

def lineEnds (offset : Nat) (bytes : List UInt8) : List Nat :=
  (runes offset bytes).filterMap fun rune => if rune.2 = '\n' then some (rune.1 + 1) else none

section LineEnds

variable {text before after : List Char} {start : Nat}

theorem sourceLineStarts_eq (bytes : List UInt8) : sourceLineStarts bytes = 0 :: lineEnds 0 bytes :=
  rfl

theorem lineEnds_append (offset : Nat) (text : List Char) (bytes : List UInt8) :
    lineEnds offset (encode text ++ bytes) =
      lineEnds offset (encode text) ++ lineEnds (offset + size text) bytes := by
  rw [lineEnds, runes_append, List.filterMap_append]
  rfl

theorem lineEnds_cons (offset : Nat) (ch : Char) (text : List Char) :
    lineEnds offset (encode (ch :: text)) =
      (if ch = '\n' then [offset + 1] else []) ++ lineEnds (offset + ch.utf8Size) (encode text) := by
  rw [encode_cons, lineEnds, runes_cons, List.filterMap_cons]
  by_cases hnewline : ch = '\n'
  · rw [if_pos hnewline, if_pos hnewline]
    rfl
  · rw [if_neg hnewline, if_neg hnewline]
    rfl

theorem length_lineEnds (offset : Nat) (text : List Char) :
    (lineEnds offset (encode text)).length = text.count '\n' := by
  induction text generalizing offset with
  | nil => rw [encode_nil, lineEnds, runes_nil, List.filterMap_nil, List.length_nil, List.count_nil]
  | cons ch text ih =>
      rw [lineEnds_cons, List.length_append, ih, List.count_cons, Nat.add_comm]
      by_cases hnewline : ch = '\n'
      · rw [if_pos hnewline, if_pos (by simpa using hnewline), List.length_singleton]
      · rw [if_neg hnewline, if_neg (by simpa using hnewline), List.length_nil]

theorem mem_lineEnds_iff {offset : Nat} : start ∈ lineEnds offset (encode text) ↔
    ∃ before after, text = before ++ ['\n'] ++ after ∧ start = offset + size before + 1 := by
  induction text generalizing offset with
  | nil => simp [lineEnds, runes_nil]
  | cons ch text ih =>
      rw [lineEnds_cons, List.mem_append, ih]
      constructor
      · rintro (hmem | ⟨before, after, rfl, rfl⟩)
        · by_cases hnewline : ch = '\n'
          · rw [if_pos hnewline, List.mem_singleton] at hmem
            exact ⟨[], text, by rw [hnewline]; rfl, hmem⟩
          · rw [if_neg hnewline] at hmem
            exact absurd hmem List.not_mem_nil
        · refine ⟨ch :: before, after, rfl, ?_⟩
          rw [size_cons]
          omega
      · rintro ⟨before, after, htext, rfl⟩
        cases before with
        | nil =>
            obtain ⟨rfl, -⟩ := List.cons.inj htext
            exact .inl (by simp)
        | cons ch' before =>
            obtain ⟨rfl, rfl⟩ := List.cons.inj htext
            refine .inr ⟨before, after, rfl, ?_⟩
            rw [size_cons]
            omega

theorem lineStart_le_iff (before after : List Char) {index : Nat}
    (hindex : index < (sourceLineStarts (encode (before ++ after))).length) :
    (sourceLineStarts (encode (before ++ after))).getD index 0 ≤ size before ↔
      index ≤ before.count '\n' := by
  rw [sourceLineStarts_eq, encode_append, lineEnds_append, Nat.zero_add] at hindex ⊢
  have hlength := length_lineEnds 0 before
  cases index with
  | zero => simp
  | succ index =>
      rw [List.getD_cons_succ, List.getD_eq_getElem?_getD]
      rw [List.length_cons, Nat.add_lt_add_iff_right] at hindex
      by_cases hbefore : index < before.count '\n'
      · rw [List.getElem?_append_left (by omega), List.getElem?_eq_getElem (by omega), Option.getD_some]
        have hmem := List.getElem_mem (l := lineEnds 0 (encode before)) (n := index) (by omega)
        obtain ⟨head, line, hsplit, hstart⟩ := mem_lineEnds_iff.mp hmem
        have hsize : size before = size head + 1 + size line := by
          rw [hsplit, size_append, size_append]
          rfl
        rw [hstart]
        omega
      · rw [List.length_append] at hindex
        rw [List.getElem?_append_right (by omega), List.getElem?_eq_getElem (by omega), Option.getD_some]
        have hmem := List.getElem_mem (l := lineEnds (size before) (encode after))
          (n := index - (lineEnds 0 (encode before)).length) (by omega)
        obtain ⟨head, line, -, hstart⟩ := mem_lineEnds_iff.mp hmem
        rw [hstart]
        omega

theorem count_lt_lineStarts (before after : List Char) :
    before.count '\n' < (sourceLineStarts (encode (before ++ after))).length := by
  rw [sourceLineStarts_eq, List.length_cons, length_lineEnds, List.count_append]
  exact Nat.lt_succ_of_le (Nat.le_add_right _ _)

theorem lineStart_le {head line : List Char} (hline : '\n' ∉ line)
    (hmem : start ∈ sourceLineStarts (encode (head ++ line ++ after))) (hle : start ≤ size (head ++ line)) :
    start ≤ size head := by
  obtain ⟨index, hget⟩ := List.mem_iff_getElem?.mp hmem
  have hlt := (List.getElem?_eq_some_iff.mp hget).1
  have hgetD : (sourceLineStarts (encode (head ++ line ++ after))).getD index 0 = start := by
    rw [List.getD_eq_getElem?_getD, hget, Option.getD_some]
  -- As many lines start in front of the line as in front of what is behind it.
  have hindex := (lineStart_le_iff (head ++ line) after hlt).mp (hgetD ▸ hle)
  rw [List.count_append, List.count_eq_zero_of_not_mem hline, Nat.add_zero] at hindex
  rw [List.append_assoc] at hlt hgetD
  rw [← hgetD]
  exact (lineStart_le_iff head (line ++ after) hlt).mpr hindex

theorem lineStart_eq {head line : List Char} (after : List Char) (hline : '\n' ∉ line)
    (hhead : head = [] ∨ ∃ before, head = before ++ ['\n']) :
    (sourceLineStarts (encode (head ++ line ++ after))).getD ((head ++ line).count '\n') 0 =
      size head := by
  have hcount : (head ++ line).count '\n' = head.count '\n' := by
    rw [List.count_append, List.count_eq_zero_of_not_mem hline, Nat.add_zero]
  rw [hcount, List.append_assoc, sourceLineStarts_eq]
  rcases hhead with rfl | ⟨before, rfl⟩
  · rfl
  · have hnewline : ∀ offset, lineEnds offset (encode ['\n']) = [offset + 1] := by
      intro offset
      rw [lineEnds_cons, encode_nil, lineEnds, runes_nil]
      rfl
    rw [List.count_append, List.count_singleton_self, List.getD_cons_succ, List.getD_eq_getElem?_getD,
      encode_append, lineEnds_append, encode_append, lineEnds_append, hnewline, ← length_lineEnds 0,
      List.append_assoc, List.getElem?_append_right (Nat.le_refl _), Nat.sub_self, size_append]
    exact congrArg (· + 1) (Nat.zero_add _)

end LineEnds

section Locations

variable {text before after : List Char} {offset : Nat}

theorem lastLine (before : List Char) : ∃ head line, before = head ++ line ∧ '\n' ∉ line ∧
    (head = [] ∨ ∃ before', head = before' ++ ['\n']) ∧ columnOf before = line.length + 1 := by
  induction before using List.reverseRecOn with
  | nil => exact ⟨[], [], rfl, List.not_mem_nil, .inl rfl, rfl⟩
  | append_singleton before ch ih =>
      by_cases hnewline : ch = '\n'
      · rw [hnewline]
        refine ⟨before ++ ['\n'], [], (List.append_nil _).symm, List.not_mem_nil, .inr ⟨before, rfl⟩, ?_⟩
        exact columnOf_newline before
      · obtain ⟨head, line, rfl, hline, hhead, hcolumn⟩ := ih
        refine ⟨head, line ++ [ch], List.append_assoc .., ?_, hhead, ?_⟩
        · simp [hline, Ne.symm hnewline]
        · rw [columnOf_other _ hnewline, hcolumn, List.length_append, List.length_singleton]

theorem isRuneBoundary_inside (ch : Char) (text : List Char) (hpos : 0 < offset)
    (hinside : offset < ch.utf8Size) : isRuneBoundary (encode (ch :: text)) offset = false := by
  obtain ⟨first, rest, hencode, -, hrest⟩ := runeStart_encodeChar ch
  have hlength : rest.length + 1 = ch.utf8Size := by
    rw [← String.length_utf8EncodeChar, hencode, List.length_cons]
  obtain ⟨offset, rfl⟩ := Nat.exists_eq_succ_of_ne_zero (Nat.ne_of_gt hpos)
  have hlt : offset < rest.length := by omega
  have hget : (encode (ch :: text)).getD (offset + 1) 0 = rest[offset] := by
    rw [encode_cons, hencode, List.cons_append, List.getD_cons_succ, List.getD_eq_getElem?_getD,
      List.getElem?_append_left hlt, List.getElem?_eq_getElem hlt, Option.getD_some]
  have hend : offset + 1 ≠ (encode (ch :: text)).length := by
    rw [length_encode, size_cons]
    omega
  rw [isRuneBoundary, Nat.succ_eq_add_one, hget, hrest _ (List.getElem_mem hlt), decide_eq_false hend]
  rfl

theorem isRuneBoundary_behind (ch : Char) (text : List Char) (offset : Nat) :
    isRuneBoundary (encode (ch :: text)) (ch.utf8Size + offset) = isRuneBoundary (encode text) offset := by
  have hpos := Char.utf8Size_pos ch
  have hget : (encode (ch :: text)).getD (ch.utf8Size + offset) 0 = (encode text).getD offset 0 := by
    rw [encode_cons, List.getD_eq_getElem?_getD, List.getElem?_append_right (by simp),
      String.length_utf8EncodeChar, Nat.add_sub_cancel_left, List.getD_eq_getElem?_getD]
  have hend : ch.utf8Size + offset = (encode (ch :: text)).length ↔ offset = (encode text).length := by
    rw [length_encode, length_encode, size_cons, Nat.add_left_cancel_iff]
  rw [isRuneBoundary, isRuneBoundary, hget, decide_eq_false (by omega), Bool.false_or, decide_eq_decide.mpr hend]
  cases offset with
  | succ offset => rfl
  | zero =>
      -- The first byte of what follows starts a rune.
      cases text with
      | nil => rfl
      | cons ch' text =>
          obtain ⟨first, rest, hencode, hfirst, -⟩ := runeStart_encodeChar ch'
          rw [encode_cons, hencode, List.cons_append, List.getD_cons_zero, hfirst, Bool.or_true]
          rfl

theorem isRuneBoundary_iff (hoffset : offset ≤ (encode text).length) :
    isRuneBoundary (encode text) offset = true ↔
      ∃ before after, text = before ++ after ∧ offset = size before := by
  induction text generalizing offset with
  | nil =>
      obtain rfl : offset = 0 := Nat.le_zero.mp hoffset
      exact iff_of_true rfl ⟨[], [], rfl, rfl⟩
  | cons ch text ih =>
      rcases Nat.eq_zero_or_pos offset with rfl | hpos
      · exact iff_of_true rfl ⟨[], ch :: text, rfl, rfl⟩
      have hbehind : ∀ before after, ch :: text = before ++ after → offset = size before →
          ∃ before', before = ch :: before' ∧ text = before' ++ after := by
        rintro before after htext rfl
        cases before with
        | nil => exact absurd hpos (Nat.lt_irrefl 0)
        | cons ch' before =>
            obtain ⟨rfl, hrest⟩ := List.cons.inj htext
            exact ⟨before, rfl, hrest⟩
      by_cases hinside : offset < ch.utf8Size
      · rw [isRuneBoundary_inside ch text hpos hinside]
        refine iff_of_false Bool.false_ne_true ?_
        rintro ⟨before, after, htext, hsize⟩
        obtain ⟨before', rfl, -⟩ := hbehind before after htext hsize
        rw [size_cons] at hsize
        omega
      · obtain ⟨offset, rfl⟩ := Nat.exists_eq_add_of_le (Nat.not_lt.mp hinside)
        rw [length_encode, size_cons] at hoffset
        rw [isRuneBoundary_behind, ih (by rw [length_encode]; omega)]
        constructor
        · rintro ⟨before, after, rfl, rfl⟩
          exact ⟨ch :: before, after, rfl, rfl⟩
        · rintro ⟨before, after, htext, hsize⟩
          obtain ⟨before', rfl, htext'⟩ := hbehind before after htext hsize
          rw [size_cons, Nat.add_left_cancel_iff] at hsize
          exact ⟨before', after, htext', hsize⟩

theorem location_eq (before after : List Char) :
    (newSourceText (encode (before ++ after))).location (size before) =
      some ⟨size before, lineOf before, columnOf before⟩ := by
  obtain ⟨head, line, hbefore, hline, hhead, hcolumn⟩ := lastLine before
  have hlength := length_encode (before ++ after)
  rw [size_append] at hlength
  have hboundary : ¬ (!isRuneBoundary (encode (before ++ after)) (size before)) = true := by
    rw [(isRuneBoundary_iff (by omega)).mpr ⟨before, after, rfl, rfl⟩]
    decide
  have hcount : before.count '\n' < (newSourceText (encode (before ++ after))).lineStarts.length :=
    count_lt_lineStarts before after
  have hindex : (newSourceText (encode (before ++ after))).lineIndex (size before) = before.count '\n' :=
    lineIndexLoop_eq hcount (fun index => lineStart_le_iff before after) (Int.le_refl 0)
      (Int.sub_one_lt_of_le (Int.le_refl _)) (by omega) (by omega)
  have hstart : (sourceLineStarts (encode (before ++ after))).getD (before.count '\n') 0 = size head := by
    rw [hbefore]
    exact lineStart_eq after hline hhead
  have hbytes : ((encode (before ++ after)).take (size before)).drop (size head) = encode line := by
    rw [encode_append, ← length_encode before, List.take_left, hbefore, encode_append, ← length_encode head,
      List.drop_left]
  have hrange : ¬ ((size before : Int) < 0 ∨ (size before : Int) > (encode (before ++ after)).length) := by
    omega
  rw [SourceText.location, Int.toNat_natCast, hindex]
  refine (if_neg hrange).trans ((if_neg hboundary).trans ?_)
  dsimp only [newSourceText]
  rw [hstart, hbytes, runeCount_encode, hcolumn]
  rfl

theorem location_eq_some_iff {byteOffset : Int} {location : SourceLocation} :
    (newSourceText (encode text)).location byteOffset = some location ↔
      ∃ before after, text = before ++ after ∧ byteOffset = size before ∧
        location = ⟨size before, lineOf before, columnOf before⟩ := by
  constructor
  · intro hlocation
    have hsome := hlocation
    rw [SourceText.location] at hsome
    split at hsome
    · exact absurd hsome (by simp)
    rename_i hrange
    split at hsome
    · exact absurd hsome (by simp)
    rename_i hboundary
    simp only [newSourceText] at hrange hboundary
    obtain ⟨offset, rfl⟩ := Int.eq_ofNat_of_zero_le (a := byteOffset) (by omega)
    rw [Int.toNat_natCast, Bool.not_eq_true', Bool.not_eq_false] at hboundary
    obtain ⟨before, after, rfl, rfl⟩ := (isRuneBoundary_iff (by omega)).mp hboundary
    rw [location_eq before after] at hlocation
    exact ⟨before, after, rfl, rfl, (Option.some.inj hlocation).symm⟩
  · rintro ⟨before, after, rfl, rfl, rfl⟩
    exact location_eq before after

/-- The line of an offset is the one with the greatest start that is not behind it, and the column is one
more than the runes since that start. -/
def OnLine (source : SourceText) (text : List Char) (offset : Nat) (location : SourceLocation) : Prop :=
  ∃ index head line after, text = head ++ line ++ after ∧ offset = size (head ++ line) ∧
    source.lineStarts[index]? = some (size head) ∧
    (∀ start ∈ source.lineStarts, start ≤ offset → start ≤ size head) ∧
    location = ⟨offset, index + 1, line.length + 1⟩

theorem mem_sourceLineStarts_iff {start : Nat} : start ∈ sourceLineStarts (encode text) ↔
    start = 0 ∨ ∃ before after, text = before ++ ['\n'] ++ after ∧ start = size before + 1 := by
  rw [sourceLineStarts_eq, List.mem_cons, mem_lineEnds_iff]
  simp only [Nat.zero_add]

theorem location_onLine (before after : List Char) :
    OnLine (newSourceText (encode (before ++ after))) (before ++ after) (size before)
      ⟨size before, lineOf before, columnOf before⟩ := by
  obtain ⟨head, line, rfl, hline, hhead, hcolumn⟩ := lastLine before
  refine ⟨(head ++ line).count '\n', head, line, after, rfl, rfl, ?_, ?_, ?_⟩
  · have hstart := lineStart_eq after hline hhead
    have hindex := count_lt_lineStarts (head ++ line) after
    rw [List.getD_eq_getElem?_getD, List.getElem?_eq_getElem hindex, Option.getD_some] at hstart
    rw [newSourceText, List.getElem?_eq_getElem hindex, hstart]
  · exact fun start hmem hle => lineStart_le hline hmem hle
  · rw [hcolumn]
    rfl

/-- The lexer and the source text of one text agree: the first rune of each token is where the token says,
whatever was read before; an offset between runes is on its line; other offsets have no location; and a
line starts at the beginning and behind each line end. -/
structure LocatesTokens (unicode : Unicode) (text : List Char) : Prop where
  tokens : ∀ l, Lexer.Reached unicode text l → ∃ start ignored body,
    l.Reads ignored start ∧ start.Unskipped ∧ start.Reads body (l.nextToken unicode).2 ∧
      Ignored l.pos ignored (body ++ (l.nextToken unicode).2.rest) ∧
      (l.nextToken unicode).1.Spells body ∧
      (newSourceText (encode text)).location (size (text.take start.pos)) =
        some ⟨size (text.take start.pos), (l.nextToken unicode).1.line, (l.nextToken unicode).1.column⟩
  boundaries : ∀ before after, text = before ++ after → ∃ location,
    (newSourceText (encode text)).location (size before) = some location ∧
      OnLine (newSourceText (encode text)) text (size before) location
  others : ∀ byteOffset location, (newSourceText (encode text)).location byteOffset = some location →
    ∃ before after, text = before ++ after ∧ byteOffset = size before
  starts : ∀ start, start ∈ (newSourceText (encode text)).lineStarts ↔
    start = 0 ∨ ∃ before after, text = before ++ ['\n'] ++ after ∧ start = size before + 1

/-- Binary search over byte offsets finds the positions the lexer counts while it advances. -/
theorem newSourceText_locates (unicode : Unicode) (text : List Char) : LocatesTokens unicode text where
  tokens := by
    intro l hreached
    obtain ⟨start, hadvances, -, hunskipped, hline, hcolumn, ignored, body, hignored, hbody, hbetween,
      hspells⟩ := Lexer.nextToken_advances unicode l
    refine ⟨start, ignored, body, hignored, hunskipped, hbody, hbetween, hspells, ?_⟩
    have hplaced := hreached.placed.advances hadvances
    rw [hline, hcolumn, hplaced.line_eq, hplaced.column_eq]
    calc (newSourceText (encode text)).location (size (text.take start.pos))
        = (newSourceText (encode (text.take start.pos ++ text.drop start.pos))).location
            (size (text.take start.pos)) := by rw [List.take_append_drop]
      _ = _ := location_eq _ _
  boundaries := by
    rintro before after rfl
    exact ⟨_, location_eq before after, location_onLine before after⟩
  others := by
    intro byteOffset location hlocation
    obtain ⟨before, after, htext, hoffset, -⟩ := location_eq_some_iff.mp hlocation
    exact ⟨before, after, htext, hoffset⟩
  starts := fun _ => mem_sourceLineStarts_iff

end Locations

end Jayess.Runtime
