import Jayess.Picohttpparser.Parse

/-!
# Heads that come in parts
-/

namespace Jayess.Picohttpparser

open Jayess.Slices Lines

structure IncrementalParser where
  buffer : List UInt8

namespace IncrementalParser

def complete (parser : IncrementalParser) : Bool :=
  (indexOf (crlf ++ crlf) parser.buffer).isSome || (indexOf [0x0A, 0x0A] parser.buffer).isSome

def feed (parser : IncrementalParser) (chunk : List UInt8) : IncrementalParser × Bool :=
  let parser : IncrementalParser := ⟨parser.buffer ++ chunk⟩
  (parser, parser.complete)

def request (parser : IncrementalParser) : Except String Request := parseRequest parser.buffer

def response (parser : IncrementalParser) : Except String Response := parseResponse parser.buffer

/-- A new parser after the chunks of a stream. -/
def feedAll (chunks : List (List UInt8)) : IncrementalParser :=
  chunks.foldl (fun parser chunk => (parser.feed chunk).1) ⟨[]⟩

section Runs

variable (chunks : List (List UInt8))

/-- Once a feed has returned true, the results stay as they are. -/
def Stays (chunk : List UInt8) : Prop :=
  ((feedAll chunks).feed chunk).2 = true → ∀ later,
    (feedAll (chunks ++ chunk :: later)).request = (feedAll (chunks ++ [chunk])).request ∧
      (feedAll (chunks ++ chunk :: later)).response = (feedAll (chunks ++ [chunk])).response

/-- However the stream is cut, the results are the same. -/
def Uncut : Prop :=
  ∀ chunks', chunks'.flatten = chunks.flatten →
    (feedAll chunks').request = (feedAll chunks).request ∧
      (feedAll chunks').response = (feedAll chunks).response

end Runs

def Refused (buffer : List UInt8) : Prop :=
  (∃ line ∈ (splitLines buffer).tail.dropLast, Malformed line) ∨
    ∃ line ∈ (splitLines buffer).tail.getLast?, Nameless line

def HeadRefused (buffer : List UInt8) : Prop :=
  ∃ head, headerBlock buffer = .ok head ∧ ∃ line ∈ (splitLines head).tail, Malformed line

/-- The head has ended for good, or it is refused for its start line whether it is read as that of a request or
as that of a response, or for a header line that later bytes do not change. -/
def Settled (buffer : List UInt8) : Prop :=
  (crlf ++ crlf) <:+: buffer ∨
    ((∃ message, requestLine (splitLines buffer).headI = .error message) ∧
      ∃ message, statusLine (splitLines buffer).headI = .error message) ∨
    (HeadRefused buffer ∧ Refused buffer)

end IncrementalParser

section Longer

variable {buffer rest last first : List UInt8} {lines : List (List UInt8)} {byte : UInt8}

theorem splitLines_chop (buffer : List UInt8) : ∃ lines last chopped,
    splitLines buffer = lines ++ [last] ∧ splitLines (chop buffer) = lines ++ [chopped] ∧
      (last = chopped ∨ last = chopped ++ [0x0D]) := by
  obtain ⟨lines, chopped, hlines⟩ := exists_lines (chop buffer)
  rcases chop_cases buffer with heq | heq
  · refine ⟨lines, chopped ++ [0x0D], chopped, ?_, hlines, .inr rfl⟩
    rw [heq]
    exact splitLines_concat (by decide) hlines
  · refine ⟨lines, chopped, chopped, ?_, hlines, .inl rfl⟩
    rwa [heq] at hlines

theorem splitLines_step (hlines : splitLines buffer = lines ++ [last]) (byte : UInt8) :
    splitLines (buffer ++ [byte]) = lines ++ [last ++ [byte]] ∨
      ∃ chopped, splitLines (buffer ++ [byte]) = (lines ++ [chopped]) ++ [[]] ∧
        (last = chopped ∨ last = chopped ++ [0x0D]) := by
  by_cases hbyte : byte = 0x0A
  swap
  · exact .inl (splitLines_concat hbyte hlines)
  right
  obtain ⟨lines', last', chopped, hbuffer, hchop, hlast⟩ := splitLines_chop buffer
  obtain ⟨rfl, hsame⟩ := List.append_inj' (hbuffer.symm.trans hlines) rfl
  cases hsame
  refine ⟨chopped, ?_, hlast⟩
  rw [hbyte, splitLines_append, hchop]
  rfl

theorem append_induction {P : List UInt8 → Prop} (hstep : ∀ buffer byte, P buffer → P (buffer ++ [byte]))
    (hbuffer : P buffer) (rest : List UInt8) : P (buffer ++ rest) := by
  induction rest generalizing buffer with
  | nil => rwa [List.append_nil]
  | cons byte rest ih =>
      rw [List.append_cons]
      exact ih (hstep buffer byte hbuffer)

theorem first_append (hlines : ∃ lines last, splitLines buffer = first :: (lines ++ [last]))
    (rest : List UInt8) : ∃ lines last, splitLines (buffer ++ rest) = first :: (lines ++ [last]) := by
  refine append_induction
    (P := fun buffer => ∃ lines last, splitLines buffer = first :: (lines ++ [last])) ?_ hlines rest
  rintro buffer byte ⟨lines, last, hlines⟩
  have hwhole : splitLines buffer = (first :: lines) ++ [last] := hlines
  rcases splitLines_step hwhole byte with hstep | ⟨chopped, hstep, -⟩
  · exact ⟨_, _, hstep⟩
  · exact ⟨_, _, hstep⟩

namespace IncrementalParser

theorem refused_iff (hlines : splitLines buffer = first :: (lines ++ [last])) :
    Refused buffer ↔ (∃ line ∈ lines, Malformed line) ∨ Nameless last := by
  rw [Refused, hlines, List.tail_cons, List.dropLast_concat, List.getLast?_concat]
  simp

theorem Refused.lines_eq (hrefused : Refused buffer) :
    ∃ first lines last, splitLines buffer = first :: (lines ++ [last]) := by
  obtain ⟨lines, last, hlines⟩ := exists_lines buffer
  cases lines with
  | nil =>
      rw [Refused, hlines] at hrefused
      simp at hrefused
  | cons first lines => exact ⟨first, lines, last, hlines⟩

theorem Refused.append (hrefused : Refused buffer) (rest : List UInt8) : Refused (buffer ++ rest) := by
  refine append_induction (P := Refused) (fun buffer byte hrefused => ?_) hrefused rest
  obtain ⟨first, lines, last, hlines⟩ := Refused.lines_eq hrefused
  rw [refused_iff hlines] at hrefused
  have hwhole : splitLines buffer = (first :: lines) ++ [last] := hlines
  rcases splitLines_step hwhole byte with hstep | ⟨chopped, hstep, hlast⟩
  · rw [refused_iff hstep]
    refine hrefused.imp_right fun hnameless => ?_
    exact (nameless_append_iff hnameless.1).mpr hnameless
  · rw [refused_iff hstep]
    left
    rcases hrefused with ⟨line, hline, hmalformed⟩ | hnameless
    · exact ⟨line, List.mem_append_left _ hline, hmalformed⟩
    · refine ⟨chopped, List.mem_append_right _ (List.mem_singleton_self _), ?_⟩
      rcases hlast with rfl | rfl
      · exact hnameless.malformed
      · have hcolon : 0x3A ∈ chopped := by simpa using hnameless.1
        exact ((nameless_append_iff hcolon).mp hnameless).malformed

end IncrementalParser

end Longer

section Heads

variable {buffer rest head first : List UInt8}

theorem headerBlock_feeds (hreturns : ¬(crlf ++ crlf) <:+: buffer) (hfeeds : [0x0A, 0x0A] <:+: buffer) :
    ∃ head after, headerBlock buffer = .ok head ∧ buffer = head ++ (0x0A :: 0x0A :: after) ∧
      ∀ rest, ¬(crlf ++ crlf) <:+: buffer ++ rest → headerBlock (buffer ++ rest) = .ok head := by
  have hnone : ∀ text, ¬(crlf ++ crlf) <:+: text → indexOf (crlf ++ crlf) text = none := by
    intro text htext
    by_contra hsome
    obtain ⟨stop, hstop⟩ := Option.ne_none_iff_exists'.mp hsome
    obtain ⟨⟨after, hafter⟩, -⟩ := indexOf_eq_some hstop
    exact htext ⟨text.take stop, after, by rw [List.append_assoc, ← hafter]⟩
  cases hindex : indexOf [0x0A, 0x0A] buffer with
  | none => exact absurd hfeeds (indexOf_eq_none hindex)
  | some stop =>
      obtain ⟨⟨after, hafter⟩, -⟩ := indexOf_eq_some hindex
      have hle : stop ≤ buffer.length := by
        by_contra hlong
        rw [List.take_of_length_le (by omega)] at hafter
        have hlength := congrArg List.length hafter
        simp at hlength
      refine ⟨buffer.take stop, after, ?_, hafter, fun rest hrest => ?_⟩
      · simp only [headerBlock, hnone buffer hreturns, hindex]
      · simp only [headerBlock, hnone _ hrest, indexOf_append_right hindex,
          List.take_append_of_le_length hle]

theorem headerBlock_returns (hreturns : (crlf ++ crlf) <:+: buffer) :
    ∃ head after, buffer = head ++ ((crlf ++ crlf) ++ after) ∧
      ∀ rest, headerBlock (buffer ++ rest) = .ok head := by
  cases hindex : indexOf (crlf ++ crlf) buffer with
  | none => exact absurd hreturns (indexOf_eq_none hindex)
  | some stop =>
      obtain ⟨⟨after, hafter⟩, -⟩ := indexOf_eq_some hindex
      have hle : stop ≤ buffer.length := by
        by_contra hlong
        rw [List.take_of_length_le (by omega)] at hafter
        have hlength := congrArg List.length hafter
        simp [crlf] at hlength
      refine ⟨buffer.take stop, after, hafter, fun rest => ?_⟩
      simp only [headerBlock, indexOf_append_right hindex, List.take_append_of_le_length hle]

theorem splitLines_head (hbuffer : buffer = head ++ (0x0A :: 0x0A :: rest)) :
    ∃ first lines, splitLines head = first :: lines ∧
      (∃ lines last, splitLines buffer = (splitLines buffer).headI :: (lines ++ [last])) ∧
      (first = (splitLines buffer).headI ∨
        lines = [] ∧ first = (splitLines buffer).headI ++ [0x0D]) := by
  obtain ⟨lines, last, chopped, hhead, hchop, hlast⟩ := splitLines_chop head
  obtain ⟨more, final, hmore⟩ := exists_lines (0x0A :: rest)
  have hlines : splitLines buffer = (lines ++ [chopped]) ++ (more ++ [final]) := by
    rw [hbuffer, splitLines_append, hchop, hmore]
  rw [hhead, hlines]
  cases lines with
  | nil => exact ⟨last, [], rfl, ⟨more, final, rfl⟩, hlast.imp_right fun hreturn => ⟨rfl, hreturn⟩⟩
  | cons first lines =>
      refine ⟨first, lines ++ [last], rfl, ⟨lines ++ [chopped] ++ more, final, ?_⟩, .inl rfl⟩
      simp

end Heads

section Results

variable {α : Type} {startLine : List UInt8 → Except String (List Header → α)} {what message : String}
  {make : List Header → α} {input head first : List UInt8} {lines : List (List UInt8)}

theorem parseHead_error (hhead : headerBlock input = .ok head) (hlines : splitLines head = first :: lines)
    (hstart : startLine first = .error message) : parseHead startLine what input = .error message := by
  simp only [parseHead, hhead, hlines, bind, Except.bind, hstart]

theorem parseHead_malformed (hhead : headerBlock input = .ok head)
    (hlines : splitLines head = first :: lines) (hstart : startLine first = .ok make)
    (hmalformed : ∃ line ∈ lines, Malformed line) :
    parseHead startLine what input = .error malformedHeader := by
  simp only [parseHead, hhead, hlines, bind, Except.bind, hstart, parseHeaders_error hmalformed]

theorem parseHead_ok (hhead : headerBlock input = .ok head) (hlines : splitLines head = first :: lines)
    (hstart : startLine first = .ok make) (hwellFormed : ∀ line ∈ lines, ¬Malformed line) :
    ∃ result, parseHead startLine what input = .ok result := by
  obtain ⟨headers, hheaders⟩ := parseHeaders_ok hwellFormed
  exact ⟨make headers, by simp only [parseHead, hhead, hlines, bind, Except.bind, hstart, hheaders]; rfl⟩

theorem splitLines_returns (head : List UInt8) :
    splitLines (head ++ (crlf ++ crlf)) = splitLines head ++ [[], []] := by
  have hcut : head ++ (crlf ++ crlf) = (head ++ [0x0D]) ++ 0x0A :: ([0x0D] ++ 0x0A :: []) := by
    rw [List.append_assoc]
    rfl
  rw [hcut, splitLines_append, splitLines_append, chop_concat]
  rfl

end Results

namespace IncrementalParser

section Settled

variable {α : Type} {startLine : List UInt8 → Except String (List Header → α)} {what : String}
  {make : List Header → α} {buffer : List UInt8}

theorem parseHead_append (hstartLine : StartLine startLine) (hreturns : ¬(crlf ++ crlf) <:+: buffer)
    (hfeeds : [0x0A, 0x0A] <:+: buffer)
    (hsettled : (∃ message, startLine (splitLines buffer).headI = .error message) ∨
      HeadRefused buffer ∧ Refused buffer) (rest : List UInt8) :
    parseHead startLine what (buffer ++ rest) = parseHead startLine what buffer := by
  obtain ⟨head, after, hhead, hbuffer, hsame⟩ := headerBlock_feeds hreturns hfeeds
  by_cases hlater : (crlf ++ crlf) <:+: buffer ++ rest
  swap
  · rw [parseHead, parseHead, hhead, hsame rest hlater]
  obtain ⟨first, lines, hlines, hbufferLines, hfirst⟩ := splitLines_head hbuffer
  -- the longer head, whose first line is that of the buffer
  obtain ⟨longer, tail, hlonger, hblock⟩ := headerBlock_returns hlater
  have hlongerHead := hblock []
  rw [List.append_nil] at hlongerHead
  obtain ⟨more, hmore⟩ : buffer <+: longer ++ (crlf ++ crlf) := by
    have hwhole : longer ++ (crlf ++ crlf) <+: buffer ++ rest := ⟨tail, by rw [hlonger, List.append_assoc]⟩
    rcases List.prefix_or_prefix_of_prefix (List.prefix_append buffer rest) hwhole with hshort | hlong
    · exact hshort
    · exact absurd ((List.suffix_append longer _).isInfix.trans hlong.isInfix) hreturns
  obtain ⟨keptLines, keptLast, hkept⟩ := first_append hbufferLines more
  rw [hmore, splitLines_returns longer] at hkept
  obtain ⟨longerFirst, longerLines, hlongerLines⟩ :
      ∃ longerFirst longerLines, splitLines longer = longerFirst :: longerLines := by
    obtain ⟨lines, last, hlines⟩ := exists_lines longer
    cases lines with
    | nil => exact ⟨last, [], hlines⟩
    | cons first lines => exact ⟨first, lines ++ [last], hlines⟩
  obtain rfl : longerFirst = (splitLines buffer).headI := by
    rw [hlongerLines] at hkept
    exact (List.cons.inj hkept).1
  cases hstart : startLine (splitLines buffer).headI with
  | error message =>
      have hfirstError : startLine first = .error message := by
        rcases hfirst with rfl | ⟨-, rfl⟩
        · exact hstart
        · exact hstartLine.concat hstart
      rw [parseHead_error hlongerHead hlongerLines hstart, parseHead_error hhead hlines hfirstError]
  | ok make =>
      obtain ⟨⟨found, hfound, hmalformed⟩, hrefused⟩ : HeadRefused buffer ∧ Refused buffer := by
        rcases hsettled with ⟨message, herror⟩ | hrefused
        · rw [hstart] at herror
          cases herror
        · exact hrefused
      obtain rfl : found = head := Except.ok.inj (hfound.symm.trans hhead)
      rw [hlines, List.tail_cons] at hmalformed
      obtain rfl : first = (splitLines buffer).headI := by
        rcases hfirst with hfirst | ⟨rfl, -⟩
        · exact hfirst
        · simp at hmalformed
      have hlongerRefused := Refused.append hrefused more
      have hlongerSplit : splitLines (buffer ++ more) =
          (splitLines buffer).headI :: ((longerLines ++ [[]]) ++ [[]]) := by
        rw [hmore, splitLines_returns longer, hlongerLines]
        simp
      rw [refused_iff hlongerSplit] at hlongerRefused
      have hlongerMalformed : ∃ line ∈ longerLines, Malformed line := by
        rcases hlongerRefused with ⟨line, hline, hmalformed⟩ | hnameless
        · rcases List.mem_append.mp hline with hline | hline
          · exact ⟨line, hline, hmalformed⟩
          · rw [List.mem_singleton.mp hline] at hmalformed
            exact absurd rfl hmalformed.1
        · exact absurd hnameless.1 List.not_mem_nil
      rw [parseHead_malformed hlongerHead hlongerLines hstart hlongerMalformed,
        parseHead_malformed hhead hlines hstart hmalformed]

theorem headerBlock_letter (hreturns : ¬(crlf ++ crlf) <:+: buffer) {letter : UInt8} (hcr : letter ≠ 0x0D)
    (hlf : letter ≠ 0x0A) : headerBlock (buffer ++ letter :: (crlf ++ crlf)) = .ok (buffer ++ [letter]) := by
  have hletter : letter ∉ crlf ++ crlf := by simp [crlf, hcr, hlf]
  have hindex := @indexOf_after_letter _ _ (crlf ++ crlf) buffer [] letter hletter hreturns
  rw [List.append_nil] at hindex
  have htake : (buffer ++ letter :: (crlf ++ crlf)).take (buffer.length + 1) = buffer ++ [letter] := by
    rw [List.append_cons]
    exact List.take_left' (by simp)
  simp only [headerBlock, hindex, htake]

theorem not_returns_letter (hreturns : ¬(crlf ++ crlf) <:+: buffer) {letter : UInt8} (hcr : letter ≠ 0x0D)
    (hlf : letter ≠ 0x0A) :
    ¬(crlf ++ crlf) <:+: buffer ++ [letter] ∧ ¬(crlf ++ crlf) <:+: (buffer ++ [letter]) ++ [0x0A] := by
  have hletter : ¬(crlf ++ crlf) <:+: buffer ++ [letter] := by
    rw [List.infix_concat_iff, not_or]
    refine ⟨?_, hreturns⟩
    rintro ⟨before, heq⟩
    have hlast := congrArg List.getLast? heq
    rw [List.getLast?_concat, List.getLast?_append] at hlast
    exact hlf (Option.some.inj hlast).symm
  refine ⟨hletter, ?_⟩
  rw [List.infix_concat_iff, not_or]
  refine ⟨?_, hletter⟩
  rintro ⟨before, heq⟩
  have hshort : (before ++ [0x0D, 0x0A, 0x0D]) ++ [0x0A] = (buffer ++ [letter]) ++ [0x0A] := by
    rw [← heq, List.append_assoc]
    rfl
  have hlast := congrArg List.getLast? (List.append_inj_left' hshort rfl)
  rw [List.getLast?_concat, List.getLast?_append] at hlast
  exact hcr (Option.some.inj hlast).symm

/-- A start line that is accepted is followed by a blank line that comes too early, unless a header line is
refused. -/
theorem refused_of_stays (hstartLine : StartLine startLine) (hreturns : ¬(crlf ++ crlf) <:+: buffer)
    (hfeeds : [0x0A, 0x0A] <:+: buffer) (hstart : startLine (splitLines buffer).headI = .ok make)
    (hstays : ∀ rest, parseHead startLine what (buffer ++ rest) = parseHead startLine what buffer) :
    HeadRefused buffer ∧ Refused buffer := by
  obtain ⟨head, after, hhead, hbuffer, -⟩ := headerBlock_feeds hreturns hfeeds
  obtain ⟨first, lines, hlines, ⟨kept, last, hkept⟩, hfirst⟩ := splitLines_head hbuffer
  have hkeptLines : splitLines buffer = ((splitLines buffer).headI :: kept) ++ [last] := hkept
  have hletter : splitLines (buffer ++ [0x78]) = ((splitLines buffer).headI :: kept) ++ [last ++ [0x78]] :=
    splitLines_concat (by decide) hkeptLines
  obtain ⟨hreturnsLetter, hreturnsFeed⟩ := @not_returns_letter _ hreturns 0x78 (by decide) (by decide)
  -- a line that is no header may follow
  have hrefused : parseHead startLine what buffer = .error malformedHeader := by
    have hbad : splitLines (((buffer ++ [0x78]) ++ [0x0A]) ++ [0x78]) =
        (splitLines buffer).headI :: ((kept ++ [last ++ [0x78]]) ++ [[0x78]]) := by
      have hchop : chop (buffer ++ [0x78]) = buffer ++ [0x78] := by
        rw [chop, List.getLast?_concat, if_neg (by decide)]
      rw [List.append_assoc _ [0x0A], List.singleton_append, splitLines_append, hchop, hletter]
      simp [splitLines, dropReturns, split, splitFrom]
    have hmalformed : Malformed [0x78] := ⟨by simp, .inl (by decide)⟩
    have hblock := @headerBlock_letter _ hreturnsFeed 0x78 (by decide) (by decide)
    rw [← hstays ([0x78] ++ ([0x0A] ++ 0x78 :: (crlf ++ crlf))), ← List.append_assoc, ← List.append_assoc]
    exact parseHead_malformed hblock hbad hstart ⟨_, List.mem_append_right _ (by simp), hmalformed⟩
  constructor
  · refine ⟨head, hhead, ?_⟩
    rw [hlines, List.tail_cons]
    cases hfirstLine : startLine first with
    | error message =>
        rw [parseHead_error hhead hlines hfirstLine] at hrefused
        exact absurd (Except.error.inj hrefused) (hstartLine.message hfirstLine)
    | ok make =>
        by_contra hnone
        have hwellFormed : ∀ line ∈ lines, ¬Malformed line := fun line hline hmalformed =>
          hnone ⟨line, hline, hmalformed⟩
        obtain ⟨result, hresult⟩ := @parseHead_ok _ _ what _ _ _ _ _ hhead hlines hfirstLine hwellFormed
        rw [hresult] at hrefused
        cases hrefused
  · -- a name and a colon may follow
    by_contra hnot
    rw [refused_iff hkept, not_or, not_exists] at hnot
    obtain ⟨hkeptFormed, hnameless⟩ := hnot
    have hgood : splitLines ((buffer ++ [0x78]) ++ [0x3A]) =
        (splitLines buffer).headI :: (kept ++ [(last ++ [0x78]) ++ [0x3A]]) :=
      splitLines_concat (by decide) hletter
    have hlastFormed : ¬Malformed ((last ++ [0x78]) ++ [0x3A]) := by
      rintro ⟨-, hcolon | hname⟩
      · simp at hcolon
      by_cases hcolon : 0x3A ∈ last
      · rw [List.append_assoc, nameless_append_iff hcolon] at hname
        exact hnameless hname
      · have hnoColon : 0x3A ∉ last ++ [0x78] := by simp [hcolon]
        have hheader : headerName ((last ++ [0x78]) ++ [0x3A]) = White.trimSpace (last ++ [0x78]) := by
          rw [headerName, (cut_eq hnoColon).1]
        rw [Nameless, hheader] at hname
        exact White.trimSpace_ne_nil ⟨by decide, by decide⟩ last hname.2
    have hblock := @headerBlock_letter _ hreturnsLetter 0x3A (by decide) (by decide)
    have hwellFormed : ∀ line ∈ kept ++ [(last ++ [0x78]) ++ [0x3A]], ¬Malformed line := by
      intro line hline hmalformed
      rcases List.mem_append.mp hline with hline | hline
      · exact hkeptFormed line ⟨hline, hmalformed⟩
      · exact hlastFormed (List.mem_singleton.mp hline ▸ hmalformed)
    obtain ⟨result, hresult⟩ := @parseHead_ok _ _ what _ _ _ _ _ hblock hgood hstart hwellFormed
    rw [List.append_assoc, List.singleton_append, hstays, hrefused] at hresult
    cases hresult

end Settled

theorem buffer_feedAll (chunks : List (List UInt8)) : (feedAll chunks).buffer = chunks.flatten := by
  induction chunks using List.reverseRecOn with
  | nil => rfl
  | append_singleton chunks chunk ih =>
      rw [feedAll, List.foldl_concat, ← feedAll, feed, ih, List.flatten_append, List.flatten_singleton]

theorem complete_iff (parser : IncrementalParser) :
    parser.complete = true ↔ (crlf ++ crlf) <:+: parser.buffer ∨ [0x0A, 0x0A] <:+: parser.buffer := by
  have hindex : ∀ pattern, (indexOf pattern parser.buffer).isSome = true ↔ pattern <:+: parser.buffer := by
    intro pattern
    constructor
    · intro hsome
      obtain ⟨stop, hstop⟩ := Option.isSome_iff_exists.mp hsome
      obtain ⟨⟨after, hafter⟩, -⟩ := indexOf_eq_some hstop
      exact ⟨parser.buffer.take stop, after, by rw [List.append_assoc, ← hafter]⟩
    · intro hinside
      by_contra hnone
      rw [Option.not_isSome_iff_eq_none] at hnone
      exact indexOf_eq_none hnone hinside
  rw [complete, Bool.or_eq_true, hindex, hindex]

theorem settled_iff {buffer : List UInt8}
    (hcomplete : (crlf ++ crlf) <:+: buffer ∨ [0x0A, 0x0A] <:+: buffer) :
    Settled buffer ↔ ∀ rest, parseRequest (buffer ++ rest) = parseRequest buffer ∧
      parseResponse (buffer ++ rest) = parseResponse buffer := by
  by_cases hreturns : (crlf ++ crlf) <:+: buffer
  · obtain ⟨head, after, -, hblock⟩ := headerBlock_returns hreturns
    have hhead := hblock []
    rw [List.append_nil] at hhead
    refine ⟨fun _ rest => ?_, fun _ => .inl hreturns⟩
    rw [parseRequest, parseRequest, parseResponse, parseResponse, parseHead, parseHead, parseHead,
      parseHead, hhead, hblock rest]
    exact ⟨rfl, rfl⟩
  have hfeeds := hcomplete.resolve_left hreturns
  constructor
  · rintro (hinside | ⟨hrequest, hresponse⟩ | hrefused) rest
    · exact absurd hinside hreturns
    · exact ⟨parseHead_append requestLine_startLine hreturns hfeeds (.inl hrequest) rest,
        parseHead_append statusLine_startLine hreturns hfeeds (.inl hresponse) rest⟩
    · exact ⟨parseHead_append requestLine_startLine hreturns hfeeds (.inr hrefused) rest,
        parseHead_append statusLine_startLine hreturns hfeeds (.inr hrefused) rest⟩
  · intro hstays
    right
    cases hrequest : requestLine (splitLines buffer).headI with
    | ok make =>
        right
        exact refused_of_stays requestLine_startLine hreturns hfeeds hrequest fun rest => (hstays rest).1
    | error message =>
        cases hresponse : statusLine (splitLines buffer).headI with
        | ok make =>
            right
            exact refused_of_stays statusLine_startLine hreturns hfeeds hresponse fun rest => (hstays rest).2
        | error message' => exact .inl ⟨⟨message, rfl⟩, message', rfl⟩

/-- However the stream is cut, the results are the same; and once a feed has returned true, they stay as they
are exactly where the head is settled. -/
theorem stays_iff (chunks : List (List UInt8)) (chunk : List UInt8) :
    (Stays chunks chunk ∧ Uncut (chunks ++ [chunk])) ↔
      (((feedAll chunks).feed chunk).2 = true → Settled ((feedAll chunks).feed chunk).1.buffer) := by
  have hbuffer : ((feedAll chunks).feed chunk).1.buffer = chunks.flatten ++ chunk := by
    rw [feed, buffer_feedAll]
  have hlater : ∀ later, (feedAll (chunks ++ chunk :: later)).buffer =
      (chunks.flatten ++ chunk) ++ later.flatten := by
    intro later
    rw [buffer_feedAll, List.flatten_append, List.flatten_cons, List.append_assoc]
  have huncut : Uncut (chunks ++ [chunk]) := by
    intro chunks' hsame
    rw [request, request, response, response, buffer_feedAll, buffer_feedAll, hsame]
    exact ⟨rfl, rfl⟩
  rw [and_iff_left huncut, Stays]
  refine imp_congr_right fun hcomplete => ?_
  have hends := (complete_iff ((feedAll chunks).feed chunk).1).mp hcomplete
  rw [hbuffer] at hends
  rw [hbuffer, settled_iff hends]
  simp only [request, response, hlater, List.flatten_nil, List.append_nil]
  constructor
  · intro hstays rest
    have hrest := hstays [rest]
    rwa [List.flatten_singleton] at hrest
  · exact fun hstays later => hstays later.flatten

/-- `HTTP/1.1 200` with line feeds only. -/
def feedsOnly : List UInt8 :=
  [0x48, 0x54, 0x54, 0x50, 0x2F, 0x31, 0x2E, 0x31, 0x20, 0x32, 0x30, 0x30, 0x0A, 0x0A]

/-- A body with a blank line of carriage returns is read as a header of a head of line feeds. -/
theorem not_stays_feedsOnly : ¬∀ chunks chunk, Stays chunks chunk ∧ Uncut (chunks ++ [chunk]) := by
  intro hclaim
  have hcomplete : ((feedAll []).feed feedsOnly).2 = true := by decide
  obtain ⟨-, hstays⟩ := (hclaim [] feedsOnly).1 hcomplete [[0x78, 0x0D, 0x0A, 0x0D, 0x0A]]
  have hbefore : (feedAll ([] ++ [feedsOnly])).response = .ok ⟨feedsOnly.take 8, 200, [], []⟩ := by rfl
  have hafter : (feedAll ([] ++ feedsOnly :: [[0x78, 0x0D, 0x0A, 0x0D, 0x0A]])).response =
      .error malformedHeader := by rfl
  rw [hbefore, hafter] at hstays
  cases hstays

end IncrementalParser

end Jayess.Picohttpparser
