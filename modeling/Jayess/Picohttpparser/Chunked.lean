import Jayess.Picohttpparser.Parse
import Jayess.Runtime.AudioQueue

/-!
# Chunked bodies
-/

namespace Jayess.Picohttpparser

open Jayess.Runtime Jayess.Slices

/-- A text, which has no more bytes than an int can count. -/
structure Text where
  bytes : List UInt8
  fits : bytes.length < 2 ^ 63

def chunkSize (line : List UInt8) : Option Int64 :=
  (ParseInt.parseInt 16 ((White.trimSpace line).takeWhile (· ≠ 0x3B))).filter fun size => 0 ≤ size.toInt

theorem length_drop_lt {rest : List UInt8} {lineEnd : Nat} (hindex : indexOf crlf rest = some lineEnd)
    (count : Nat) : ((rest.drop (lineEnd + 2)).drop count).length < rest.length := by
  obtain ⟨⟨after, hrest⟩, -⟩ := indexOf_eq_some hindex
  have hlength := congrArg List.length hrest
  rw [List.length_append, List.length_append, crlf, List.length_cons] at hlength
  rw [List.length_drop, List.length_drop]
  omega

/-- Nothing where a slice expression is out of range. -/
def decodeChunkedLoop (out rest : List UInt8) : Option (Except String (List UInt8)) :=
  match _hindex : indexOf crlf rest with
  | none => some (.error (incompleteData ++ ": incomplete chunk size"))
  | some lineEnd =>
      match chunkSize (rest.take lineEnd) with
      | none => some (.error (malformedInput ++ ": malformed chunk size"))
      | some size =>
          if size = 0 then some (.ok out)
          else if Word.ofLength (rest.drop (lineEnd + 2)).length < size + 2 then
            some (.error (incompleteData ++ ": incomplete chunk data"))
          else
            (sliceBetween (rest.drop (lineEnd + 2)) 0 size).bind fun data =>
              (sliceBetween (rest.drop (lineEnd + 2)) size (size + 2)).bind fun terminator =>
                if terminator ≠ crlf then
                  some (.error (malformedInput ++ ": malformed chunk terminator"))
                else
                  decodeChunkedLoop (out ++ data)
                    ((rest.drop (lineEnd + 2)).drop (size + 2).toInt.toNat)
termination_by rest.length
decreasing_by exact length_drop_lt _hindex _

def decodeChunked (input : Text) : Option (Except String (List UInt8)) := decodeChunkedLoop [] input.bytes

def sizeOfLine (line : List UInt8) : Option Nat := ParseInt.digits 16 (line.takeWhile (· ≠ 0x3B))

def readSize (line : List UInt8) : Option Nat := (chunkSize line).map fun size => size.toInt.toNat

/-- An input that begins with chunks: their size lines, their bytes and what follows them. -/
inductive Chunks (size : List UInt8 → Option Nat) :
    List UInt8 → List (List UInt8) → List UInt8 → List UInt8 → Prop
  | nil {after : List UInt8} : Chunks size after [] [] after
  | cons {line body rest : List UInt8} {lines : List (List UInt8)} {data after : List UInt8}
      (hline : ¬crlf <:+: line) (hsize : size line = some body.length) (hbody : body ≠ [])
      (hrest : Chunks size rest lines data after) :
      Chunks size (line ++ (crlf ++ (body ++ (crlf ++ rest)))) (line :: lines) (body ++ data) after

structure SizeAfter (size : List UInt8 → Option Nat) (input : List UInt8) (lines : List (List UInt8))
    (data line : List UInt8) (count : Nat) (rest : List UInt8) : Prop where
  chunks : Chunks size input lines data (line ++ (crlf ++ rest))
  whole : ¬crlf <:+: line
  count : size line = some count

namespace Chunked

variable (input : Text)

def Completes : Prop := ∃ result, decodeChunked input = some result

/-- The result is the data of an input that begins with chunks closed by a zero size. -/
def DecodesChunks : Prop :=
  ∀ data, decodeChunked input = some (.ok data) ↔
    ∃ lines line rest, SizeAfter sizeOfLine input.bytes lines data line 0 rest

/-- An input that stops before the end of the zero-size line of a whole one is incomplete. -/
def Incomplete : Prop :=
  ∀ (whole : Text) (lines : List (List UInt8)) (data line rest : List UInt8),
    SizeAfter sizeOfLine whole.bytes lines data line 0 rest → input.bytes <+: whole.bytes →
      input.bytes.length + rest.length < whole.bytes.length →
        ∃ what, decodeChunked input = some (.error (incompleteData ++ ": " ++ what))

/-- Two can be added to every size that is read. -/
def Small : Prop :=
  ∀ lines data line count rest, SizeAfter readSize input.bytes lines data line count rest →
    count < 2 ^ 63 - 2

/-- The lines of chunks that are closed by a zero size are digits and extensions. -/
def Plain : Prop :=
  ∀ lines data line rest, SizeAfter readSize input.bytes lines data line 0 rest →
    ∀ read ∈ line :: lines, sizeOfLine read ≠ none

end Chunked

section Lines

variable {line rest : List UInt8} {count : Nat}

theorem readSize_eq_some (hsize : readSize line = some count) :
    count < 2 ^ 63 ∧ chunkSize line = some (Int64.ofNat count) := by
  obtain ⟨size, hchunk, rfl⟩ := Option.map_eq_some_iff.mp hsize
  have hnonneg : 0 ≤ size.toInt := by
    rw [chunkSize, Option.filter_eq_some_iff] at hchunk
    exact of_decide_eq_true hchunk.2
  have hlt := size.toInt_lt
  refine ⟨by omega, hchunk.trans (congrArg some (Int64.toInt_inj.mp ?_))⟩
  rw [Int64.toInt_ofNat_of_lt (by omega)]
  omega

theorem chunkSize_eq_none (hsize : readSize line = none) : chunkSize line = none :=
  Option.map_eq_none_iff.mp hsize

theorem plain_of_digits {digits : List UInt8} (hdigits : ParseInt.digits 16 digits = some count) :
    ∀ byte ∈ digits, White.Plain byte ∧ byte ≠ 0x3B := by
  intro byte hbyte
  obtain ⟨value, hdigit⟩ := ParseInt.mem_digits hdigits hbyte
  have hrange := ParseInt.digit_range hdigit
  simp only [White.Plain, UInt8.lt_iff_toNat_lt, UInt8.le_iff_toNat_le, ne_eq, ← UInt8.toNat_inj,
    UInt8.reduceToNat] at hrange ⊢
  omega

theorem digits_trimSpace (hsize : sizeOfLine line = some count) :
    (White.trimSpace line).takeWhile (· ≠ 0x3B) = line.takeWhile (· ≠ 0x3B) := by
  have hdigits := plain_of_digits hsize
  have hne := ParseInt.ne_nil_of_digits hsize
  have hline := List.takeWhile_append_dropWhile (p := (· ≠ (0x3B : UInt8))) (l := line)
  set digits := line.takeWhile (· ≠ 0x3B) with hdigitsEq
  have hpass : ∀ byte ∈ digits, decide (byte ≠ 0x3B) = true :=
    fun byte hbyte => decide_eq_true (hdigits byte hbyte).2
  cases htail : line.dropWhile (· ≠ 0x3B) with
  | nil =>
      rw [htail] at hline
      have hnil : White.trimRight [] = [] := by
        rw [White.trimRight, List.reverse_nil, White.skip_of_leading_none White.leading?_nil]
        rfl
      rw [← hline, White.trimSpace_plain (fun byte hbyte => (hdigits byte hbyte).1) hne, hnil,
        List.append_nil]
      exact List.takeWhile_eq_self_iff.mpr hpass
  | cons first extension =>
      obtain rfl : first = 0x3B := by
        have hfirst := List.head?_dropWhile_not (· ≠ (0x3B : UInt8)) line
        rw [htail] at hfirst
        simpa using hfirst
      have hplain : ∀ byte ∈ digits ++ [0x3B], White.Plain byte := by
        intro byte hbyte
        rcases List.mem_append.mp hbyte with hbyte | hbyte
        · exact (hdigits byte hbyte).1
        · obtain rfl := List.mem_singleton.mp hbyte
          exact ⟨by decide, by decide⟩
      rw [← hline, htail, ← List.singleton_append, ← List.append_assoc,
        White.trimSpace_plain hplain (by simp), List.append_assoc, List.singleton_append,
        List.takeWhile_append_of_pos hpass, List.takeWhile_cons_of_neg (by decide), List.append_nil]

theorem readSize_of_sizeOfLine (hsize : sizeOfLine line = some count) :
    readSize line = if count < 2 ^ 63 then some count else none := by
  rw [readSize, chunkSize, digits_trimSpace hsize, ParseInt.parseInt_digits hsize]
  by_cases hfits : count < 2 ^ 63
  · have htoInt : (Int64.ofNat count).toInt = count := Int64.toInt_ofNat_of_lt hfits
    rw [if_pos hfits, if_pos hfits, Option.filter_some, htoInt, if_pos (by simp), Option.map_some, htoInt]
    rfl
  · rw [if_neg hfits, if_neg hfits]
    rfl

end Lines

section Steps

variable {out line rest : List UInt8} {count : Nat}

theorem decodeChunkedLoop_none (hcrlf : ¬crlf <:+: rest) :
    decodeChunkedLoop out rest = some (.error (incompleteData ++ ": incomplete chunk size")) := by
  rw [decodeChunkedLoop]
  split
  · rfl
  · rename_i lineEnd hindex
    obtain ⟨⟨after, hrest⟩, -⟩ := indexOf_eq_some hindex
    exact absurd ⟨rest.take lineEnd, after, by rw [List.append_assoc, ← hrest]⟩ hcrlf

theorem indexOf_line (hline : ¬crlf <:+: line) : indexOf crlf (line ++ (crlf ++ rest)) = some line.length :=
  @indexOf_append _ _ line rest [0x0D] 0x0A (by decide) hline

theorem drop_line : (line ++ (crlf ++ rest)).drop (line.length + 2) = rest := by
  rw [← List.drop_drop, List.drop_left]
  rfl

theorem decodeChunkedLoop_malformed (hline : ¬crlf <:+: line) (hsize : readSize line = none) :
    decodeChunkedLoop out (line ++ (crlf ++ rest)) =
      some (.error (malformedInput ++ ": malformed chunk size")) := by
  rw [decodeChunkedLoop]
  split
  · rename_i hindex
    rw [indexOf_line hline] at hindex
    cases hindex
  · rename_i lineEnd hindex
    rw [indexOf_line hline] at hindex
    cases hindex
    rw [List.take_left, chunkSize_eq_none hsize]

theorem decodeChunkedLoop_size (hline : ¬crlf <:+: line) {size : Int64} (hsize : chunkSize line = some size) :
    decodeChunkedLoop out (line ++ (crlf ++ rest)) =
      if size = 0 then some (.ok out)
      else if Word.ofLength rest.length < size + 2 then
        some (.error (incompleteData ++ ": incomplete chunk data"))
      else
        (sliceBetween rest 0 size).bind fun data =>
          (sliceBetween rest size (size + 2)).bind fun terminator =>
            if terminator ≠ crlf then some (.error (malformedInput ++ ": malformed chunk terminator"))
            else decodeChunkedLoop (out ++ data) (rest.drop (size + 2).toInt.toNat) := by
  rw [decodeChunkedLoop]
  split
  · rename_i hindex
    rw [indexOf_line hline] at hindex
    cases hindex
  · rename_i lineEnd hindex
    rw [indexOf_line hline] at hindex
    cases hindex
    rw [List.take_left, hsize, drop_line]

theorem decodeChunkedLoop_zero (hline : ¬crlf <:+: line) (hsize : readSize line = some 0) :
    decodeChunkedLoop out (line ++ (crlf ++ rest)) = some (.ok out) := by
  rw [decodeChunkedLoop_size hline (readSize_eq_some hsize).2, if_pos (show Int64.ofNat 0 = 0 from rfl)]

theorem toInt_size (hsmall : count < 2 ^ 63 - 2) :
    (Int64.ofNat count).toInt = count ∧ (Int64.ofNat count + 2).toInt = count + 2 := by
  have hcount : (Int64.ofNat count).toInt = count := Int64.toInt_ofNat_of_lt (by omega)
  refine ⟨hcount, ?_⟩
  rw [Int64.toInt_add, hcount, show (2 : Int64).toInt = 2 from rfl,
    Word.bmod_eq_self (by omega) (by omega)]

theorem ofNat_ne_zero (hpos : 0 < count) (hfits : count < 2 ^ 63) : Int64.ofNat count ≠ 0 := by
  intro hzero
  have hcount : (Int64.ofNat count).toInt = count := Int64.toInt_ofNat_of_lt hfits
  rw [hzero, show (0 : Int64).toInt = 0 from rfl] at hcount
  omega

theorem decodeChunkedLoop_short (hline : ¬crlf <:+: line) (hsize : readSize line = some count)
    (hpos : 0 < count) (hsmall : count < 2 ^ 63 - 2) (hshort : rest.length < count + 2) :
    decodeChunkedLoop out (line ++ (crlf ++ rest)) =
      some (.error (incompleteData ++ ": incomplete chunk data")) := by
  have hlt : Word.ofLength rest.length < Int64.ofNat count + 2 := by
    rw [Int64.lt_iff_toInt_lt, Word.toInt_ofLength (by omega), (toInt_size hsmall).2]
    omega
  rw [decodeChunkedLoop_size hline (readSize_eq_some hsize).2, if_neg (ofNat_ne_zero hpos (by omega)),
    if_pos hlt]

theorem decodeChunkedLoop_long (hline : ¬crlf <:+: line) (hsize : readSize line = some count)
    (hpos : 0 < count) (hlong : count + 2 ≤ rest.length) (hfits : rest.length < 2 ^ 63) :
    decodeChunkedLoop out (line ++ (crlf ++ rest)) =
      if (rest.drop count).take 2 ≠ crlf then some (.error (malformedInput ++ ": malformed chunk terminator"))
      else decodeChunkedLoop (out ++ rest.take count) (rest.drop (count + 2)) := by
  obtain ⟨hcount, hend⟩ := @toInt_size count (by omega)
  have hlt : ¬Word.ofLength rest.length < Int64.ofNat count + 2 := by
    rw [Int64.lt_iff_toInt_lt, Word.toInt_ofLength hfits, hend]
    omega
  have hdata : sliceBetween rest 0 (Int64.ofNat count) = some (rest.take count) := by
    rw [sliceBetween, hcount, show (0 : Int64).toInt = 0 from rfl, if_pos (by omega)]
    rfl
  have hterminator : sliceBetween rest (Int64.ofNat count) (Int64.ofNat count + 2) =
      some ((rest.drop count).take 2) := by
    rw [sliceBetween, hcount, hend, if_pos (by omega), show (count + 2 - count : Int) = 2 by omega]
    rfl
  rw [decodeChunkedLoop_size hline (readSize_eq_some hsize).2, if_neg (ofNat_ne_zero hpos (by omega)),
    if_neg hlt, hdata, Option.bind_some, hterminator, Option.bind_some, hend]
  rfl

theorem decodeChunkedLoop_wraps (hline : ¬crlf <:+: line) (hsize : readSize line = some count)
    (hlarge : 2 ^ 63 - 2 ≤ count) (hfits : rest.length < 2 ^ 63 - 2) :
    decodeChunkedLoop out (line ++ (crlf ++ rest)) = none := by
  have hlt := (readSize_eq_some hsize).1
  have hcount : (Int64.ofNat count).toInt = count := Int64.toInt_ofNat_of_lt hlt
  have hend : (Int64.ofNat count + 2).toInt = count + 2 - 2 ^ 64 := by
    rw [Int64.toInt_add, hcount, show (2 : Int64).toInt = 2 from rfl, Int.bmod_def]
    split <;> omega
  have hguard : ¬Word.ofLength rest.length < Int64.ofNat count + 2 := by
    rw [Int64.lt_iff_toInt_lt, Word.toInt_ofLength (by omega), hend]
    omega
  have hdata : sliceBetween rest 0 (Int64.ofNat count) = none := by
    rw [sliceBetween, hcount, show (0 : Int64).toInt = 0 from rfl, if_neg (by omega)]
  rw [decodeChunkedLoop_size hline (readSize_eq_some hsize).2, if_neg (ofNat_ne_zero (by omega) hlt),
    if_neg hguard, hdata, Option.bind_none]

end Steps

section Runs

variable {size : List UInt8 → Option Nat} {input line after rest data : List UInt8}
  {lines : List (List UInt8)} {count : Nat}

theorem Chunks.length_le (hchunks : Chunks size input lines data after) :
    after.length ≤ input.length := by
  induction hchunks with
  | nil => exact le_rfl
  | cons hline hsize hbody hrest ih =>
      simp only [List.length_append]
      omega

theorem decodeChunkedLoop_chunks (hchunks : Chunks readSize input lines data after)
    (hfits : input.length < 2 ^ 63) (out : List UInt8) :
    decodeChunkedLoop out input = decodeChunkedLoop (out ++ data) after := by
  induction hchunks generalizing out with
  | nil => rw [List.append_nil]
  | @cons line body rest lines data after hline hsize hbody _ ih =>
      have hpos := List.length_pos_iff.mpr hbody
      simp only [List.length_append, crlf, List.length_cons, List.length_nil] at hfits
      have hdrop : (body ++ (crlf ++ rest)).drop (body.length + 2) = rest := drop_line
      have hend : (crlf ++ rest).take 2 = crlf := rfl
      rw [decodeChunkedLoop_long hline hsize hpos, List.drop_left, List.take_left, hdrop, hend,
        if_neg (not_not.mpr rfl), ih (by omega), List.append_assoc]
      · simp only [List.length_append, crlf, List.length_cons, List.length_nil]
        omega
      · simp only [List.length_append, crlf, List.length_cons, List.length_nil]
        omega

theorem decodeChunked_closed {input : Text} (hclosed : SizeAfter readSize input.bytes lines data line 0 rest) :
    decodeChunked input = some (.ok data) := by
  rw [decodeChunked, decodeChunkedLoop_chunks hclosed.chunks input.fits,
    decodeChunkedLoop_zero hclosed.whole hclosed.count]
  rfl

theorem decodeChunked_wraps {input : Text}
    (hwraps : SizeAfter readSize input.bytes lines data line count rest) (hlarge : 2 ^ 63 - 2 ≤ count) :
    decodeChunked input = none := by
  have hlength := hwraps.chunks.length_le
  have hfits := input.fits
  simp only [List.length_append, crlf, List.length_cons, List.length_nil] at hlength
  rw [decodeChunked, decodeChunkedLoop_chunks hwraps.chunks input.fits,
    decodeChunkedLoop_wraps hwraps.whole hwraps.count hlarge (by omega)]

theorem SizeAfter.cons {body : List UInt8} {sized : List UInt8} {sizedCount : Nat}
    (hline : ¬crlf <:+: line) (hsize : size line = some body.length) (hbody : body ≠ [])
    (hafter : SizeAfter size after lines data sized sizedCount rest) :
    SizeAfter size (line ++ (crlf ++ (body ++ (crlf ++ after)))) (line :: lines) (body ++ data) sized
      sizedCount rest :=
  ⟨.cons hline hsize hbody hafter.chunks, hafter.whole, hafter.count⟩

theorem decodeChunkedLoop_cases (input : List UInt8) (hfits : input.length < 2 ^ 63) (out : List UInt8) :
    (∃ lines data line rest, SizeAfter readSize input lines data line 0 rest) ∨
      (∃ lines data line count rest, SizeAfter readSize input lines data line count rest ∧
        2 ^ 63 - 2 ≤ count) ∨
      ∃ message, decodeChunkedLoop out input = some (.error message) := by
  induction hlength : input.length using Nat.strong_induction_on generalizing input out with
  | _ length ih =>
      by_cases hcrlf : crlf <:+: input
      swap
      · exact .inr (.inr ⟨_, decodeChunkedLoop_none hcrlf⟩)
      obtain ⟨line, rest, rfl, hline⟩ : ∃ line rest, input = line ++ (crlf ++ rest) ∧ ¬crlf <:+: line := by
        cases hindex : indexOf crlf input with
        | none => exact absurd hcrlf (indexOf_eq_none hindex)
        | some lineEnd =>
            obtain ⟨⟨rest, hrest⟩, hline⟩ := indexOf_eq_some hindex
            exact ⟨_, rest, hrest, hline (by decide)⟩
      simp only [List.length_append, crlf, List.length_cons, List.length_nil] at hlength hfits
      cases hsize : readSize line with
      | none => exact .inr (.inr ⟨_, decodeChunkedLoop_malformed hline hsize⟩)
      | some count =>
          have hhere : SizeAfter readSize (line ++ (crlf ++ rest)) [] [] line count rest :=
            ⟨.nil, hline, hsize⟩
          rcases Nat.eq_zero_or_pos count with rfl | hpos
          · exact .inl ⟨_, _, _, _, hhere⟩
          by_cases hlarge : 2 ^ 63 - 2 ≤ count
          · exact .inr (.inl ⟨_, _, _, _, _, hhere, hlarge⟩)
          by_cases hshort : rest.length < count + 2
          · exact .inr (.inr ⟨_, decodeChunkedLoop_short hline hsize hpos (by omega) hshort⟩)
          have hlong : decodeChunkedLoop out (line ++ (crlf ++ rest)) = _ :=
            decodeChunkedLoop_long hline hsize hpos (not_lt.mp hshort) (by omega)
          by_cases hend : (rest.drop count).take 2 = crlf
          swap
          · exact .inr (.inr ⟨_, hlong.trans (if_pos hend)⟩)
          rw [if_neg (not_not.mpr hend)] at hlong
          -- the chunk, and what follows it
          have hrest : rest = rest.take count ++ (crlf ++ rest.drop (count + 2)) := by
            rw [← hend, ← List.drop_drop, List.take_append_drop, List.take_append_drop]
          have hbodyLength : (rest.take count).length = count := by
            rw [List.length_take]
            omega
          have hbody : rest.take count ≠ [] := by
            intro hnil
            rw [hnil, List.length_nil] at hbodyLength
            omega
          have hafter : (rest.drop (count + 2)).length < length := by
            rw [List.length_drop]
            omega
          have hsizeBody : readSize line = some (rest.take count).length := by rw [hsize, hbodyLength]
          rcases ih _ hafter _ (by omega) (out ++ rest.take count) rfl with
            ⟨lines, data, sized, tail, hclosed⟩ | ⟨lines, data, sized, sizedCount, tail, hwraps, hlarge⟩ |
            ⟨message, hmessage⟩
          · left
            have hclosed := hclosed.cons hline hsizeBody hbody
            rw [← hrest] at hclosed
            exact ⟨_, _, _, _, hclosed⟩
          · right
            left
            have hwraps := hwraps.cons hline hsizeBody hbody
            rw [← hrest] at hwraps
            exact ⟨_, _, _, _, _, hwraps, hlarge⟩
          · exact .inr (.inr ⟨message, hlong.trans hmessage⟩)

theorem Chunks.read (hchunks : Chunks sizeOfLine input lines data after) (hfits : input.length < 2 ^ 63) :
    Chunks readSize input lines data after := by
  induction hchunks with
  | nil => exact .nil
  | @cons line body rest lines data after hline hsize hbody _ ih =>
      simp only [List.length_append] at hfits
      refine .cons hline ?_ hbody (ih (by omega))
      rw [readSize_of_sizeOfLine hsize, if_pos (by omega)]

theorem SizeAfter.read (hclosed : SizeAfter sizeOfLine input lines data line 0 rest)
    (hfits : input.length < 2 ^ 63) : SizeAfter readSize input lines data line 0 rest := by
  refine ⟨hclosed.chunks.read hfits, hclosed.whole, ?_⟩
  rw [readSize_of_sizeOfLine hclosed.count, if_pos (by decide)]

theorem sizeOfLine_of_readSize (hdigits : sizeOfLine line ≠ none) (hsize : readSize line = some count) :
    sizeOfLine line = some count := by
  obtain ⟨value, hvalue⟩ := Option.ne_none_iff_exists'.mp hdigits
  rw [readSize_of_sizeOfLine hvalue] at hsize
  by_cases hfits : value < 2 ^ 63
  · rw [if_pos hfits] at hsize
    rw [hvalue, hsize]
  · rw [if_neg hfits] at hsize
    cases hsize

theorem SizeAfter.digits (hclosed : SizeAfter sizeOfLine input lines data line count rest) :
    ∀ read ∈ line :: lines, sizeOfLine read ≠ none := by
  obtain ⟨hchunks, -, hcount⟩ := hclosed
  have hlines : ∀ after, Chunks sizeOfLine input lines data after → ∀ read ∈ lines, sizeOfLine read ≠ none := by
    clear hchunks
    intro after hchunks
    induction hchunks with
    | nil => simp
    | cons hline hsize hbody _ ih =>
        rw [List.forall_mem_cons]
        exact ⟨by rw [hsize]; exact Option.some_ne_none _, ih⟩
  rw [List.forall_mem_cons]
  exact ⟨by rw [hcount]; exact Option.some_ne_none _, hlines _ hchunks⟩

theorem Chunks.digits (hchunks : Chunks readSize input lines data after)
    (hdigits : ∀ read ∈ lines, sizeOfLine read ≠ none) : Chunks sizeOfLine input lines data after := by
  induction hchunks with
  | nil => exact .nil
  | @cons line body rest lines data after hline hsize hbody _ ih =>
      have hrest := ih fun later hlater => hdigits later (List.mem_cons_of_mem _ hlater)
      exact .cons hline (sizeOfLine_of_readSize (hdigits line List.mem_cons_self) hsize) hbody hrest

theorem line_eq {line' rest' : List UInt8} (hline : ¬crlf <:+: line) (hline' : ¬crlf <:+: line')
    (heq : line ++ (crlf ++ rest) = line' ++ (crlf ++ rest')) : line = line' ∧ rest = rest' := by
  have hindex : indexOf crlf (line ++ (crlf ++ rest)) = some line.length := indexOf_line hline
  rw [heq, indexOf_line hline', Option.some_inj] at hindex
  obtain ⟨hlines, hrest⟩ := List.append_inj heq hindex.symm
  exact ⟨hlines, List.append_cancel_left hrest⟩

theorem SizeAfter.lines_eq {data' line' rest' : List UInt8} {lines' : List (List UInt8)}
    (hclosed : SizeAfter size input lines data line 0 rest)
    (hclosed' : SizeAfter size input lines' data' line' 0 rest') : line :: lines = line' :: lines' := by
  obtain ⟨hchunks, hwhole, hcount⟩ := hclosed
  obtain ⟨hchunks', hwhole', hcount'⟩ := hclosed'
  generalize hafter : line ++ (crlf ++ rest) = after at hchunks
  induction hchunks generalizing lines' data' with
  | @nil after =>
      subst hafter
      generalize hinput : line ++ (crlf ++ rest) = input at hchunks'
      cases hchunks' with
      | nil => rw [(line_eq hwhole hwhole' hinput).1]
      | cons hline hsize hbody _ =>
          obtain ⟨rfl, -⟩ := line_eq hwhole hline hinput
          rw [hcount, Option.some_inj, eq_comm, List.length_eq_zero_iff] at hsize
          exact absurd hsize hbody
  | @cons first body rest lines data after hline hsize hbody _ ih =>
      generalize hinput : first ++ (crlf ++ (body ++ (crlf ++ rest))) = input at hchunks'
      generalize hafter' : line' ++ (crlf ++ rest') = after' at hchunks'
      cases hchunks' with
      | nil =>
          obtain ⟨rfl, -⟩ := line_eq hline hwhole' (hinput.trans hafter'.symm)
          rw [hcount', Option.some_inj, eq_comm, List.length_eq_zero_iff] at hsize
          exact absurd hsize hbody
      | @cons first' body' rest₁ lines₁ data₁ _ hline' hsize' hbody' hrest' =>
          obtain ⟨rfl, hrest⟩ := line_eq hline hline' hinput
          rw [hsize, Option.some_inj] at hsize'
          obtain ⟨rfl, htail⟩ := List.append_inj hrest hsize'
          obtain rfl := List.append_cancel_left htail
          subst hafter'
          have htails := ih hrest' hafter
          rw [List.cons.injEq] at htails
          rw [htails.1, htails.2]

end Runs

section Stops

variable {input line rest : List UInt8}

theorem not_crlf_of_short (hline : ¬crlf <:+: line) (hbegins : input <+: line ++ (crlf ++ rest))
    (hshort : input.length < line.length + 2) : ¬crlf <:+: input := by
  rintro ⟨before, later, rfl⟩
  simp only [List.length_append, crlf, List.length_cons, List.length_nil] at hshort
  have hwhole : before ++ crlf <+: (line ++ [0x0D]) ++ ([0x0A] ++ rest) := by
    refine List.IsPrefix.trans ⟨later, rfl⟩ (hbegins.trans ?_)
    rw [List.append_assoc]
    exact List.prefix_rfl
  have hend : before ++ crlf <+: line ++ [0x0D] := by
    refine List.prefix_of_prefix_length_le hwhole (List.prefix_append _ _) ?_
    simp only [List.length_append, crlf, List.length_cons, List.length_nil]
    omega
  have hline' : line <+: line ++ [0x0D] := List.prefix_append _ _
  by_cases hinside : (before ++ crlf).length ≤ line.length
  · have hcrlf := List.prefix_of_prefix_length_le hend hline' hinside
    exact hline ((List.suffix_append before crlf).isInfix.trans hcrlf.isInfix)
  · -- the line feed would be the carriage return
    have heq := hend.eq_of_length_le (by
      simp only [List.length_append, crlf, List.length_cons, List.length_nil] at hinside ⊢
      omega)
    have hlast := congrArg List.getLast? heq
    rw [crlf, show [(0x0D : UInt8), 0x0A] = [0x0D] ++ [0x0A] from rfl, ← List.append_assoc,
      List.getLast?_concat, List.getLast?_concat] at hlast
    cases hlast

theorem exists_after {before : List UInt8} (hbegins : input <+: before ++ rest)
    (hlong : before.length ≤ input.length) : ∃ later, input = before ++ later ∧ later <+: rest := by
  obtain ⟨later, rfl⟩ := List.prefix_of_prefix_length_le (List.prefix_append _ _) hbegins hlong
  exact ⟨later, rfl, (List.prefix_append_right_inj before).mp hbegins⟩

def Stopped (result : Option (Except String (List UInt8))) : Prop :=
  ∃ what, result = some (.error (incompleteData ++ ": " ++ what))

theorem stopped_size {out : List UInt8} (hcrlf : ¬crlf <:+: input) : Stopped (decodeChunkedLoop out input) :=
  ⟨"incomplete chunk size", (decodeChunkedLoop_none hcrlf).trans (by rfl)⟩

theorem decodeChunkedLoop_stops {whole data after : List UInt8} {lines : List (List UInt8)}
    (hchunks : Chunks readSize whole lines data after) (hafter : after = line ++ (crlf ++ rest))
    (hline : ¬crlf <:+: line) (hfits : whole.length < 2 ^ 63) (hbegins : input <+: whole)
    (hshort : input.length + rest.length < whole.length) (out : List UInt8) :
    Stopped (decodeChunkedLoop out input) := by
  induction hchunks generalizing input out with
  | nil =>
      subst hafter
      simp only [List.length_append, crlf, List.length_cons, List.length_nil] at hshort
      exact stopped_size (not_crlf_of_short hline hbegins (by omega))
  | @cons first body tail lines data after hfirst hsize hbody _ ih =>
      simp only [List.length_append, crlf, List.length_cons, List.length_nil] at hshort hfits
      by_cases hinFirst : input.length < first.length + 2
      · exact stopped_size (not_crlf_of_short hfirst hbegins hinFirst)
      have hfirstLength : (first ++ crlf).length ≤ input.length := by
        rw [List.length_append]
        exact not_lt.mp hinFirst
      have hwhole : input <+: (first ++ crlf) ++ (body ++ (crlf ++ tail)) := by
        rw [List.append_assoc]
        exact hbegins
      obtain ⟨input, rfl, hlater⟩ := exists_after hwhole hfirstLength
      simp only [List.length_append, crlf, List.length_cons, List.length_nil] at hshort
      rw [List.append_assoc]
      by_cases hinBody : input.length < body.length + 2
      · have hstop : decodeChunkedLoop out (first ++ (crlf ++ input)) = _ :=
          decodeChunkedLoop_short hfirst hsize (List.length_pos_iff.mpr hbody) (by omega) hinBody
        exact ⟨"incomplete chunk data", hstop.trans (by rfl)⟩
      have hbodyLength : (body ++ crlf).length ≤ input.length := by
        rw [List.length_append]
        exact not_lt.mp hinBody
      have hwhole : input <+: (body ++ crlf) ++ tail := by
        rw [List.append_assoc]
        exact hlater
      obtain ⟨input, rfl, hinTail⟩ := exists_after hwhole hbodyLength
      simp only [List.length_append, crlf, List.length_cons, List.length_nil] at hshort
      have hchunk : Chunks readSize (first ++ (crlf ++ (body ++ (crlf ++ input)))) [first] (body ++ [])
          input := .cons hfirst hsize hbody .nil
      rw [List.append_assoc, decodeChunkedLoop_chunks hchunk]
      · exact ih hafter (by omega) hinTail (by omega) _
      · have hle := hinTail.length_le
        simp only [List.length_append, crlf, List.length_cons, List.length_nil]
        omega

end Stops

namespace Chunked

variable (input : Text)

theorem incomplete : Incomplete input := by
  intro whole lines data line rest hclosed hbegins hshort
  have hread := hclosed.read whole.fits
  exact decodeChunkedLoop_stops hread.chunks rfl hread.whole whole.fits hbegins hshort []

/-- Chunked bodies are decoded exactly where two can be added to each size and no line of a whole body is read
that is more than digits and an extension. -/
theorem decodeChunked_right_iff :
    (Completes input ∧ DecodesChunks input ∧ Incomplete input) ↔ (Small input ∧ Plain input) := by
  constructor
  · rintro ⟨⟨result, hresult⟩, hdecodes, -⟩
    constructor
    · intro lines data line count rest hsize
      by_contra hlarge
      rw [decodeChunked_wraps hsize (not_lt.mp hlarge)] at hresult
      cases hresult
    · intro lines data line rest hclosed
      obtain ⟨lines', line', rest', hclosed'⟩ := (hdecodes data).mp (decodeChunked_closed hclosed)
      rw [hclosed.lines_eq (hclosed'.read input.fits)]
      exact hclosed'.digits
  · rintro ⟨hsmall, hplain⟩
    have hcases := decodeChunkedLoop_cases input.bytes input.fits []
    refine ⟨?_, fun data => ⟨fun hdecoded => ?_, ?_⟩, incomplete input⟩
    · rcases hcases with ⟨lines, data, line, rest, hclosed⟩ |
        ⟨lines, data, line, count, rest, hwraps, hlarge⟩ | ⟨message, hmessage⟩
      · exact ⟨_, decodeChunked_closed hclosed⟩
      · exact absurd (hsmall _ _ _ _ _ hwraps) (not_lt.mpr hlarge)
      · exact ⟨_, hmessage⟩
    · rcases hcases with ⟨lines, data', line, rest, hclosed⟩ |
        ⟨lines, data', line, count, rest, hwraps, hlarge⟩ | ⟨message, hmessage⟩
      · rw [decodeChunked_closed hclosed] at hdecoded
        cases hdecoded
        have hdigits := hplain _ _ _ _ hclosed
        exact ⟨lines, line, rest,
          hclosed.chunks.digits fun read hread => hdigits read (List.mem_cons_of_mem _ hread),
          hclosed.whole, sizeOfLine_of_readSize (hdigits line List.mem_cons_self) hclosed.count⟩
      · rw [decodeChunked_wraps hwraps hlarge] at hdecoded
        cases hdecoded
      · rw [decodeChunked, hmessage] at hdecoded
        cases hdecoded
    · rintro ⟨lines, line, rest, hclosed⟩
      exact decodeChunked_closed (hclosed.read input.fits)

/-- The largest size that is read, `7fffffffffffffff`, and the end of its line. -/
def largest : Text where
  bytes := [0x37, 0x66, 0x66, 0x66, 0x66, 0x66, 0x66, 0x66, 0x66, 0x66, 0x66, 0x66, 0x66, 0x66, 0x66, 0x66,
    0x0D, 0x0A]
  fits := by decide

/-- The largest size is no incomplete chunk but a slice out of range. -/
theorem decodeChunked_largest :
    ¬∀ input : Text, Completes input ∧ DecodesChunks input ∧ Incomplete input := by
  intro hclaim
  obtain ⟨⟨result, hresult⟩, -⟩ := hclaim largest
  have hsize : sizeOfLine (largest.bytes.take 16) = some (2 ^ 63 - 1) := by decide
  have hread : readSize (largest.bytes.take 16) = some (2 ^ 63 - 1) := by
    rw [readSize_of_sizeOfLine hsize, if_pos (by decide)]
  have hline : ¬crlf <:+: largest.bytes.take 16 := by decide
  have hwraps : SizeAfter readSize largest.bytes [] [] (largest.bytes.take 16) (2 ^ 63 - 1) [] :=
    ⟨.nil, hline, hread⟩
  rw [decodeChunked_wraps hwraps (by decide)] at hresult
  cases hresult

end Chunked

end Jayess.Picohttpparser
