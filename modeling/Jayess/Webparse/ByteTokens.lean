import Jayess.Text.Utf8
import Jayess.Text.White
import Jayess.Webparse.Node

/-!
# Markup tokens as bytes
-/

namespace Jayess.Webparse.Bytes

open Slices

structure Attribute where
  name : List UInt8
  value : List UInt8
  boolean : Bool
  span : Span

inductive Mark where
  | text (raw : List UInt8)
  | start (name : List UInt8) (attrs : List Attribute) (selfClosed : Bool)
  | stop (name : List UInt8)
  | comment (raw : List UInt8)
  | processing (raw : List UInt8)
  | cdata (raw : List UInt8)

structure Token where
  mark : Mark
  taken : List UInt8
  span : Span

/-- The slice expression `bytes[low:high]`; nothing where it is out of range. -/
def slice (bytes : List UInt8) (low high : Nat) : Option (List UInt8) :=
  if low ≤ high ∧ high ≤ bytes.length then some ((bytes.drop low).take (high - low)) else none

def spanAt (input : List UInt8) (file : String) (offset : Nat) : Span :=
  let before := ((Utf8.runes 0 input).takeWhile (·.1 < offset)).map (·.2)
  ⟨file, 1 + (before.filter (· = '\n')).length, 1 + (before.reverse.takeWhile (· ≠ '\n')).length, offset⟩

def endsBareValue (byte : UInt8) : Bool := byte = 0x20 || byte = 0x09 || byte = 0x0A || byte = 0x0D

def endsAttrName (byte : UInt8) : Bool :=
  byte = 0x3D || byte = 0x2F || byte = 0x3E || byte = 0x22 || byte = 0x27 || endsBareValue byte

def readAttrName (input : List UInt8) : List UInt8 := input.takeWhile fun byte => !endsAttrName byte

/-- The value, and the input after it. -/
def readAttrValue (input : List UInt8) : Option (List UInt8 × List UInt8) :=
  match input with
  | [] => some ([], [])
  | first :: rest =>
      if first = 0x22 ∨ first = 0x27 then
        match indexOf [first] rest with
        | none => some (rest, [])
        | some stop => do
            let value ← slice input 1 (stop + 1)
            let after ← slice input (stop + 2) input.length
            return (value, after)
      else
        some (input.takeWhile fun byte => !endsBareValue byte, input.dropWhile fun byte => !endsBareValue byte)

section Tokens

variable (span : Span) (xml : Bool)

/-- A round reads a name, so that as many rounds as there are bytes read the whole input. -/
def parseAttrsLoop : Nat → List UInt8 → Option (List Attribute × List Diagnostic)
  | 0, _ => some ([], [])
  | rounds + 1, input => do
      let input := White.trimSpace input
      let name := readAttrName input
      if name = [] then return ([], [])
      else
        let after ← slice input name.length input.length
        let input := White.trimSpace after
        if input.head? = some 0x3D then
          let after ← slice input 1 input.length
          let (value, input) ← readAttrValue (White.trimSpace after)
          let (attrs, diagnostics) ← parseAttrsLoop rounds input
          return (⟨name, value, false, span⟩ :: attrs, diagnostics)
        else
          let (attrs, diagnostics) ← parseAttrsLoop rounds input
          return (⟨name, [], true, span⟩ :: attrs,
            if xml then ⟨"xml attribute missing value", span, false⟩ :: diagnostics else diagnostics)

def parseAttrs (input : List UInt8) : Option (List Attribute × List Diagnostic) :=
  parseAttrsLoop span xml input.length input

/-- `strings.TrimSuffix` with a slash. -/
def trimSlash (body : List UInt8) : List UInt8 := if body.getLast? = some 0x2F then body.dropLast else body

def parseTag (body : List UInt8) : Option (Mark × List Diagnostic) := do
  if body.head? = some 0x2F then
    let name ← slice body 1 body.length
    return (.stop (White.trimSpace name), [])
  else
    let trimmed := White.trimSpace (trimSlash body)
    let (attrs, diagnostics) ← parseAttrs span xml ((trimmed.dropWhile (· ≠ 0x20)).drop 1)
    return (.start (trimmed.takeWhile (· ≠ 0x20)) attrs (body.getLast? = some 0x2F), diagnostics)

/-! ## The tokenizer -/

inductive SectionKind where
  | comment
  | cdata
  | processing

namespace SectionKind

/-- `<!--`, `<![CDATA[` and `<?`. -/
def opening : SectionKind → List UInt8
  | comment => [0x3C, 0x21, 0x2D, 0x2D]
  | cdata => [0x3C, 0x21, 0x5B, 0x43, 0x44, 0x41, 0x54, 0x41, 0x5B]
  | processing => [0x3C, 0x3F]

/-- `-->`, `]]>` and `?>`. -/
def closing : SectionKind → List UInt8
  | comment => [0x2D, 0x2D, 0x3E]
  | cdata => [0x5D, 0x5D, 0x3E]
  | processing => [0x3F, 0x3E]

def message : SectionKind → String
  | comment => "unterminated comment"
  | cdata => "unterminated cdata"
  | processing => "unterminated processing instruction"

def mark (raw : List UInt8) : SectionKind → Mark
  | comment => .comment raw
  | cdata => .cdata raw
  | processing => .processing (White.trimSpace raw)

end SectionKind

def section? (rest : List UInt8) : Option SectionKind :=
  [.comment, .cdata, .processing].find? fun kind => kind.opening.isPrefixOf rest

structure Scan where
  mark : Mark
  taken : List UInt8
  diagnostics : List Diagnostic
  width : Nat

/-- A section up to its closing or to the end. -/
def scanSection (kind : SectionKind) (rest : List UInt8) : Option Scan := do
  let body ← slice rest kind.opening.length rest.length
  let stop := (indexOf kind.closing body).getD (rest.length - kind.opening.length)
  let diagnostics := if (indexOf kind.closing body).isSome then [] else [⟨kind.message, span, !xml⟩]
  let raw ← slice rest kind.opening.length (kind.opening.length + stop)
  let after ← slice rest (kind.opening.length + stop) rest.length
  return ⟨kind.mark raw, raw, diagnostics,
    if kind.closing.isPrefixOf after then kind.opening.length + stop + kind.closing.length
    else kind.opening.length + stop⟩

def scanText (rest : List UInt8) : Option Scan := do
  let next := (indexOf [0x3C] rest).getD rest.length
  let raw ← slice rest 0 next
  return ⟨.text raw, raw, [], next⟩

/-- The end of the body is a byte before the end of the input if there is no `>`. -/
def scanTag (rest : List UInt8) : Option Scan := do
  let stop := (indexOf [0x3E] rest).getD (rest.length - 1)
  let diagnostics := if (indexOf [0x3E] rest).isSome then [] else [⟨"unterminated tag", span, !xml⟩]
  let body ← slice rest 1 stop
  let (mark, complaints) ← parseTag span xml (White.trimSpace body)
  return ⟨mark, body, diagnostics ++ complaints, stop + 1⟩

def scanMarkup (rest : List UInt8) : Option Scan :=
  if rest.head? ≠ some 0x3C then scanText rest
  else
    match section? rest with
    | some kind => scanSection span xml kind rest
    | none => scanTag span xml rest

end Tokens

section Loop

variable (input : List UInt8) (file : String) (xml : Bool)

def tokenizeLoop : Nat → Nat → Option (List Token × List Diagnostic)
  | 0, _ => some ([], [])
  | rounds + 1, offset =>
      if offset < input.length then do
        let rest ← slice input offset input.length
        let span := spanAt input file offset
        let scan ← scanMarkup span xml rest
        let (tokens, diagnostics) ← tokenizeLoop rounds (offset + scan.width)
        return (⟨scan.mark, scan.taken, span⟩ :: tokens, scan.diagnostics ++ diagnostics)
      else some ([], [])

/-- No result stands for a slice out of range. A round advances, so that as many rounds as there are bytes read
the whole input. -/
def tokenizeMarkup : Option (List Token × List Diagnostic) := tokenizeLoop input file xml input.length 0

end Loop

/-- The delimiters before and after what a token is made of. -/
def Mark.delimiters : Mark → List UInt8 × List UInt8
  | .text _ => ([], [])
  | .start _ _ _ => ([0x3C], [0x3E])
  | .stop _ => ([0x3C], [0x3E])
  | .comment _ => (SectionKind.comment.opening, SectionKind.comment.closing)
  | .processing _ => (SectionKind.processing.opening, SectionKind.processing.closing)
  | .cdata _ => (SectionKind.cdata.opening, SectionKind.cdata.closing)

def Token.Covers (token : Token) (bytes : List UInt8) : Prop :=
  bytes = token.mark.delimiters.1 ++ token.taken ∨
    bytes = token.mark.delimiters.1 ++ (token.taken ++ token.mark.delimiters.2)

inductive Cover : Nat → List Token → List UInt8 → Prop
  | nil {offset : Nat} : Cover offset [] []
  | cons {offset : Nat} {token : Token} {tokens : List Token} {bytes rest : List UInt8}
      (hoffset : token.span.offset = offset) (hne : bytes ≠ []) (hcovers : token.Covers bytes)
      (hrest : Cover (offset + bytes.length) tokens rest) : Cover offset (token :: tokens) (bytes ++ rest)

/-- No slice is out of range, the offsets increase, and the tokens cover the input. -/
def Complete (input : List UInt8) (file : String) (xml : Bool) : Prop :=
  ∃ tokens diagnostics, tokenizeMarkup input file xml = some (tokens, diagnostics) ∧
    (tokens.map fun token => token.span.offset).Pairwise (· < ·) ∧ Cover 0 tokens input

def Opens (rest : List UInt8) : Prop := ∃ kind : SectionKind, kind.opening <+: rest

/-- Bytes that are whole pieces: text up to the next `<`, and sections and tags with their ends. -/
inductive Whole : List UInt8 → Prop
  | nil : Whole []
  | text {run rest : List UInt8} (hne : run ≠ []) (hrun : 0x3C ∉ run) (hnext : ∀ byte ∈ rest.head?, byte = 0x3C)
      (hrest : Whole rest) : Whole (run ++ rest)
  | closed {kind : SectionKind} {body rest : List UInt8}
      (hbody : indexOf kind.closing (body ++ kind.closing) = some body.length) (hrest : Whole rest) :
      Whole (kind.opening ++ (body ++ (kind.closing ++ rest)))
  | tag {body rest : List UInt8} (hbody : 0x3E ∉ body) (hopens : ¬Opens (0x3C :: body)) (hrest : Whole rest) :
      Whole (0x3C :: (body ++ 0x3E :: rest))

/-- An input that ends in a tag without its end. -/
def EndsInTag (input : List UInt8) : Prop :=
  ∃ before body, input = before ++ 0x3C :: body ∧ Whole before ∧ 0x3E ∉ body ∧ ¬Opens (0x3C :: body)

section Slices

variable {bytes before after : List UInt8} {low high : Nat}

theorem slice_of_le (hlow : low ≤ high) (hhigh : high ≤ bytes.length) :
    slice bytes low high = some ((bytes.drop low).take (high - low)) := if_pos ⟨hlow, hhigh⟩

theorem slice_from (hlow : low ≤ bytes.length) : slice bytes low bytes.length = some (bytes.drop low) := by
  rw [slice_of_le hlow le_rfl, List.take_of_length_le]
  rw [List.length_drop]

theorem slice_append (before bytes after : List UInt8) :
    slice (before ++ (bytes ++ after)) before.length (before.length + bytes.length) = some bytes := by
  rw [slice_of_le (Nat.le_add_right _ _) (by simp), List.drop_left, Nat.add_sub_cancel_left, List.take_left]

theorem slice_rest (before after : List UInt8) :
    slice (before ++ after) before.length (before ++ after).length = some after := by
  rw [slice_from (by simp), List.drop_left]

end Slices

section Tags

variable (span : Span) (xml : Bool)

theorem exists_readAttrValue (input : List UInt8) : ∃ result, readAttrValue input = some result := by
  cases input with
  | nil => exact ⟨_, rfl⟩
  | cons first rest =>
      rw [readAttrValue]
      by_cases hquote : first = 0x22 ∨ first = 0x27
      swap
      · exact ⟨_, if_neg hquote⟩
      rw [if_pos hquote]
      cases hindex : indexOf [first] rest with
      | none => exact ⟨_, rfl⟩
      | some stop =>
          obtain ⟨⟨after, hafter⟩, -⟩ := indexOf_eq_some hindex
          have hlength := congrArg List.length hafter
          simp only [List.length_append, List.length_take, List.length_singleton] at hlength
          have hvalue := @slice_of_le (first :: rest) 1 (stop + 1) (by omega)
            (by rw [List.length_cons]; omega)
          have hrest := @slice_from (first :: rest) (stop + 2) (by rw [List.length_cons]; omega)
          simp only [hvalue, hrest]
          exact ⟨_, rfl⟩

theorem exists_parseAttrsLoop (rounds : Nat) (input : List UInt8) :
    ∃ result, parseAttrsLoop span xml rounds input = some result := by
  induction rounds generalizing input with
  | zero => exact ⟨_, rfl⟩
  | succ rounds ih =>
      rw [parseAttrsLoop]
      set trimmed := White.trimSpace input
      by_cases hname : readAttrName trimmed = []
      · exact ⟨_, if_pos hname⟩
      have hlength : (readAttrName trimmed).length ≤ trimmed.length := (List.takeWhile_prefix _).length_le
      simp only [if_neg hname, slice_from hlength, bind, Option.bind]
      set after := White.trimSpace (trimmed.drop (readAttrName trimmed).length)
      by_cases hequals : after.head? = some 0x3D
      · have hpos : 1 ≤ after.length := by
          cases hafter : after with
          | nil => rw [hafter] at hequals; cases hequals
          | cons first rest => exact Nat.le_add_left 1 _
        obtain ⟨⟨value, rest⟩, hvalue⟩ := exists_readAttrValue (White.trimSpace (after.drop 1))
        obtain ⟨⟨attrs, diagnostics⟩, hattrs⟩ := ih rest
        simp only [if_pos hequals, slice_from hpos, hvalue, hattrs]
        exact ⟨_, rfl⟩
      · obtain ⟨⟨attrs, diagnostics⟩, hattrs⟩ := ih after
        simp only [if_neg hequals, hattrs]
        exact ⟨_, rfl⟩

theorem exists_parseTag (body : List UInt8) : ∃ mark diagnostics,
    parseTag span xml body = some (mark, diagnostics) ∧ mark.delimiters = ([0x3C], [0x3E]) := by
  rw [parseTag]
  by_cases hslash : body.head? = some 0x2F
  · have hpos : 1 ≤ body.length := by
      cases body with
      | nil => cases hslash
      | cons first rest => exact Nat.le_add_left 1 _
    simp only [if_pos hslash, slice_from hpos, bind, Option.bind]
    exact ⟨_, _, rfl, rfl⟩
  · obtain ⟨⟨attrs, diagnostics⟩, hattrs⟩ := exists_parseAttrsLoop span xml
      (((White.trimSpace (trimSlash body)).dropWhile (· ≠ 0x20)).drop 1).length
      (((White.trimSpace (trimSlash body)).dropWhile (· ≠ 0x20)).drop 1)
    simp only [if_neg hslash, parseAttrs, hattrs, bind, Option.bind]
    exact ⟨_, _, rfl, rfl⟩

end Tags

section Rounds

variable (span : Span) (xml : Bool) {run body rest : List UInt8}

theorem scanMarkup_text (hne : run ≠ []) (hrun : 0x3C ∉ run) (hnext : ∀ byte ∈ rest.head?, byte = 0x3C) :
    scanMarkup span xml (run ++ rest) = some ⟨.text run, run, [], run.length⟩ := by
  have hhead : (run ++ rest).head? ≠ some 0x3C := by
    obtain ⟨first, run, rfl⟩ := List.exists_cons_of_ne_nil hne
    rw [List.cons_append, List.head?_cons, ne_eq, Option.some_inj]
    exact fun heq => hrun (heq ▸ List.mem_cons_self)
  have hstop : (indexOf [0x3C] (run ++ rest)).getD (run ++ rest).length = run.length := by
    cases rest with
    | nil => rw [List.append_nil, indexOf_letter_eq_none hrun, Option.getD_none]
    | cons first rest =>
        obtain rfl := hnext first rfl
        rw [indexOf_letter hrun, Option.getD_some]
  have hslice := slice_append [] run rest
  rw [List.nil_append, List.length_nil, Nat.zero_add] at hslice
  rw [scanMarkup, if_pos hhead, scanText, hstop, hslice]
  rfl

theorem scanSection_closed {kind : SectionKind}
    (hbody : indexOf kind.closing (body ++ kind.closing) = some body.length) :
    scanSection span xml kind (kind.opening ++ (body ++ (kind.closing ++ rest))) =
      some ⟨kind.mark body, body, [], kind.opening.length + body.length + kind.closing.length⟩ := by
  have hindex : indexOf kind.closing (body ++ (kind.closing ++ rest)) = some body.length := by
    rw [← List.append_assoc]
    exact indexOf_append_right hbody rest
  have hafter := slice_rest (kind.opening ++ body) (kind.closing ++ rest)
  rw [List.length_append, List.append_assoc] at hafter
  have hclosing : kind.closing.isPrefixOf (kind.closing ++ rest) = true := by simp
  simp only [scanSection, slice_rest, hindex, Option.getD_some, slice_append, hafter, bind, Option.bind,
    if_pos hclosing]
  rfl

theorem scanSection_open {kind : SectionKind} (hbody : indexOf kind.closing body = none) :
    scanSection span xml kind (kind.opening ++ body) =
      some ⟨kind.mark body, body, [⟨kind.message, span, !xml⟩], kind.opening.length + body.length⟩ := by
  have hslice := slice_append kind.opening body []
  have hafter := slice_rest (kind.opening ++ body) []
  rw [List.append_nil, List.length_append] at hafter
  rw [List.append_nil] at hslice
  have hshort : ¬kind.closing.isPrefixOf ([] : List UInt8) = true := by
    cases kind <;> exact Bool.false_ne_true
  simp only [scanSection, hbody, Option.getD_none, List.length_append, Nat.add_sub_cancel_left, hslice,
    hafter, bind, Option.bind, if_neg hshort]
  rfl

theorem scanMarkup_section (kind : SectionKind) :
    scanMarkup span xml (kind.opening ++ rest) = scanSection span xml kind (kind.opening ++ rest) := by
  cases kind <;> rfl

theorem delimiters_mark (kind : SectionKind) :
    (kind.mark body).delimiters = (kind.opening, kind.closing) := by
  cases kind <;> rfl

theorem section?_none (hopens : ¬Opens rest) : section? rest = none := by
  rw [section?, List.find?_eq_none]
  intro kind _ hprefix
  exact hopens ⟨kind, by simpa using hprefix⟩

theorem opens_tag (hopens : Opens (0x3C :: (body ++ 0x3E :: rest))) : Opens (0x3C :: body) := by
  obtain ⟨kind, hprefix⟩ := hopens
  have hend : (0x3E : UInt8) ∉ kind.opening := by cases kind <;> decide
  have hsame := @isPrefixOf_append_cons _ _ kind.opening (0x3C :: body) rest 0x3E hend
  rw [List.cons_append, List.isPrefixOf_iff_prefix.mpr hprefix] at hsame
  exact ⟨kind, List.isPrefixOf_iff_prefix.mp hsame.symm⟩

theorem scanMarkup_tag (hbody : 0x3E ∉ body) (hopens : ¬Opens (0x3C :: body)) :
    ∃ mark diagnostics, mark.delimiters = ([0x3C], [0x3E]) ∧
      scanMarkup span xml (0x3C :: (body ++ 0x3E :: rest)) =
        some ⟨mark, body, diagnostics, body.length + 2⟩ := by
  obtain ⟨mark, diagnostics, htag, hmark⟩ := exists_parseTag span xml (White.trimSpace body)
  have hindex : indexOf [0x3E] (0x3C :: (body ++ 0x3E :: rest)) = some (body.length + 1) :=
    @indexOf_letter _ _ (0x3C :: body) rest 0x3E (by simpa using hbody)
  have hslice : slice (0x3C :: (body ++ 0x3E :: rest)) 1 (body.length + 1) = some body := by
    have happend := slice_append [0x3C] body (0x3E :: rest)
    rwa [List.length_singleton, Nat.add_comm] at happend
  have hscan : scanMarkup span xml (0x3C :: (body ++ 0x3E :: rest)) =
      some ⟨mark, body, [] ++ diagnostics, body.length + 1 + 1⟩ := by
    simp only [scanMarkup, section?_none fun hopen => hopens (opens_tag hopen), scanTag, hindex,
      Option.getD_some, hslice, htag, bind, Option.bind]
    rfl
  exact ⟨mark, _, hmark, hscan⟩

theorem scanMarkup_openTag (hbody : 0x3E ∉ body) (hopens : ¬Opens (0x3C :: body)) :
    scanMarkup span xml (0x3C :: body) = none ∨
      ∃ mark diagnostics, mark.delimiters = ([0x3C], [0x3E]) ∧
        scanMarkup span xml (0x3C :: body) = some ⟨mark, body.dropLast, diagnostics, body.length + 1⟩ := by
  have hindex : indexOf [0x3E] (0x3C :: body) = none := indexOf_letter_eq_none (by simpa using hbody)
  rcases List.eq_nil_or_concat body with rfl | ⟨front, last, rfl⟩
  · left
    rfl
  · right
    obtain ⟨mark, diagnostics, htag, hmark⟩ := exists_parseTag span xml (White.trimSpace front)
    rw [List.concat_eq_append] at hbody hopens hindex ⊢
    have hslice : slice (0x3C :: (front ++ [last])) 1 ((0x3C :: (front ++ [last])).length - 1) = some front := by
      have happend := slice_append [0x3C] front [last]
      rw [List.length_singleton, Nat.add_comm] at happend
      rw [List.length_cons, Nat.add_sub_cancel, List.length_append, List.length_singleton]
      exact happend
    have hscan : scanMarkup span xml (0x3C :: (front ++ [last])) =
        some ⟨mark, front, [⟨"unterminated tag", span, !xml⟩] ++ diagnostics, (front ++ [last]).length + 1⟩ := by
      simp only [scanMarkup, section?_none hopens, scanTag, hindex, Option.getD_none, hslice, htag, bind,
        Option.bind]
      rfl
    rw [List.dropLast_concat]
    exact ⟨mark, _, hmark, hscan⟩

end Rounds

section Pieces

variable {xml : Bool} {rest bytes tail : List UInt8}

def Reads (xml : Bool) (bytes tail : List UInt8) : Prop :=
  ∀ span, ∃ scan, scanMarkup span xml (bytes ++ tail) = some scan ∧ scan.width = bytes.length ∧
    Token.Covers ⟨scan.mark, scan.taken, span⟩ bytes

theorem reads_text (hne : bytes ≠ []) (hrun : 0x3C ∉ bytes) (hnext : ∀ byte ∈ tail.head?, byte = 0x3C) :
    Reads xml bytes tail :=
  fun span => ⟨_, scanMarkup_text span xml hne hrun hnext, rfl, .inl rfl⟩

theorem reads_section {kind : SectionKind} {body : List UInt8}
    (hbody : indexOf kind.closing (body ++ kind.closing) = some body.length) :
    Reads xml (kind.opening ++ (body ++ kind.closing)) tail := by
  intro span
  have hscan := @scanSection_closed span xml body tail kind hbody
  rw [← scanMarkup_section span xml kind, ← List.append_assoc body, ← List.append_assoc] at hscan
  refine ⟨_, hscan, ?_, .inr ?_⟩
  · simp only [List.length_append]
    omega
  · rw [delimiters_mark]

theorem reads_openSection {kind : SectionKind} {body : List UInt8} (hbody : indexOf kind.closing body = none) :
    Reads xml (kind.opening ++ body) [] := by
  intro span
  have hscan := @scanSection_open span xml body kind hbody
  rw [← scanMarkup_section span xml kind, ← List.append_nil (_ ++ _)] at hscan
  refine ⟨_, hscan, ?_, .inl ?_⟩
  · rw [List.length_append]
  · rw [delimiters_mark]

theorem reads_tag {body : List UInt8} (hbody : 0x3E ∉ body) (hopens : ¬Opens (0x3C :: body)) :
    Reads xml (0x3C :: (body ++ [0x3E])) tail := by
  intro span
  obtain ⟨mark, diagnostics, hmark, hscan⟩ := @scanMarkup_tag span xml body tail hbody hopens
  rw [List.append_cons, ← List.cons_append] at hscan
  refine ⟨_, hscan, ?_, .inr ?_⟩
  · simp
  · rw [hmark]
    rfl

theorem next_piece (hne : rest ≠ []) :
    (∃ bytes tail, rest = bytes ++ tail ∧ bytes ≠ [] ∧ Reads xml bytes tail ∧
      (EndsInTag tail → EndsInTag rest)) ∨ EndsInTag rest := by
  by_cases hhead : rest.head? = some 0x3C
  swap
  · -- text up to the next opening
    left
    have hcut := List.takeWhile_append_dropWhile (p := (· ≠ (0x3C : UInt8))) (l := rest)
    have hrun : 0x3C ∉ rest.takeWhile (· ≠ 0x3C) := by
      intro hmem
      simpa using List.mem_takeWhile_imp hmem
    have hnext : ∀ byte ∈ (rest.dropWhile (· ≠ 0x3C)).head?, byte = 0x3C := by
      intro byte hbyte
      have hstop := List.head?_dropWhile_not (· ≠ (0x3C : UInt8)) rest
      rw [Option.mem_def] at hbyte
      rw [hbyte] at hstop
      simpa using hstop
    have hrunNe : rest.takeWhile (· ≠ 0x3C) ≠ [] := by
      obtain ⟨first, rest, rfl⟩ := List.exists_cons_of_ne_nil hne
      have hfirst : first ≠ 0x3C := fun heq => hhead (congrArg some heq)
      rw [List.takeWhile_cons_of_pos (by simpa using hfirst)]
      exact List.cons_ne_nil _ _
    refine ⟨_, _, hcut.symm, hrunNe, reads_text hrunNe hrun hnext, ?_⟩
    rintro ⟨before, body, htail, hwhole, hbody, hopens⟩
    refine ⟨rest.takeWhile (· ≠ 0x3C) ++ before, body, ?_, .text hrunNe hrun ?_ hwhole, hbody, hopens⟩
    · rw [List.append_assoc, ← htail, hcut]
    · intro byte hbyte
      apply hnext
      rw [htail]
      exact List.mem_head?_append_of_mem_head? hbyte
  cases hsection : section? rest with
  | some kind =>
      left
      obtain ⟨body, rfl⟩ : kind.opening <+: rest := by simpa using List.find?_some hsection
      have hopening : kind.opening ≠ [] := by cases kind <;> exact List.cons_ne_nil _ _
      cases hindex : indexOf kind.closing body with
      | none =>
          refine ⟨_, [], (List.append_nil _).symm, hne, reads_openSection hindex, ?_⟩
          rintro ⟨before, body, hnil, -⟩
          simp at hnil
      | some stop =>
          obtain ⟨⟨after, hafter⟩, -⟩ := indexOf_eq_some hindex
          have hstop : (body.take stop).length = stop := by
            have hlength := congrArg List.length hafter
            have hclosing : kind.closing.length ≠ 0 := by cases kind <;> decide
            simp only [List.length_append, List.length_take] at hlength ⊢
            omega
          have hbody : indexOf kind.closing (body.take stop ++ kind.closing) =
              some (body.take stop).length := by
            refine @indexOf_of_append _ _ _ _ after _ ?_ (by rw [List.length_append])
            rw [List.append_assoc, ← hafter, hstop]
            exact hindex
          have hrest : kind.opening ++ body =
              (kind.opening ++ (body.take stop ++ kind.closing)) ++ after := by
            rw [List.append_assoc, List.append_assoc, ← hafter]
          refine ⟨_, after, hrest, List.append_ne_nil_of_left_ne_nil hopening _, reads_section hbody, ?_⟩
          rintro ⟨before, tag, rfl, hwhole, htag, hopens⟩
          refine ⟨_, tag, ?_, .closed hbody hwhole, htag, hopens⟩
          rw [hrest]
          simp only [List.append_assoc]
  | none =>
      obtain ⟨rest, rfl⟩ : ∃ tail, rest = 0x3C :: tail := by
        cases rest with
        | nil => cases hhead
        | cons first rest => exact ⟨rest, by rw [Option.some.inj hhead]⟩
      have hopens : ¬Opens (0x3C :: rest) := by
        rintro ⟨kind, hprefix⟩
        rw [section?, List.find?_eq_none] at hsection
        exact hsection kind (by cases kind <;> simp) (by simpa using hprefix)
      by_cases hend : 0x3E ∈ rest
      swap
      · exact .inr ⟨[], rest, rfl, .nil, hend, hopens⟩
      left
      obtain ⟨body, tail, rfl, hbody⟩ := List.eq_append_cons_of_mem hend
      have hopensBody : ¬Opens (0x3C :: body) := by
        rintro ⟨kind, hprefix⟩
        exact hopens ⟨kind, hprefix.trans ⟨0x3E :: tail, rfl⟩⟩
      refine ⟨0x3C :: (body ++ [0x3E]), tail, by simp, List.cons_ne_nil _ _, reads_tag hbody hopensBody, ?_⟩
      rintro ⟨before, tag, rfl, hwhole, htag, hopensTag⟩
      refine ⟨0x3C :: (body ++ 0x3E :: before), tag, by simp, .tag hbody hopensBody hwhole, htag, hopensTag⟩

end Pieces

section Runs

variable {input : List UInt8} {file : String} {xml : Bool} {rounds offset : Nat} {bytes tail rest : List UInt8}
  {tokens : List Token} {diagnostics : List Diagnostic}

theorem tokenizeLoop_done (hoffset : input.length ≤ offset) :
    tokenizeLoop input file xml rounds offset = some ([], []) := by
  cases rounds with
  | zero => rfl
  | succ rounds => rw [tokenizeLoop, if_neg (by omega)]

theorem tokenizeLoop_step (hoffset : offset < input.length) :
    tokenizeLoop input file xml (rounds + 1) offset =
      (scanMarkup (spanAt input file offset) xml (input.drop offset)).bind fun scan =>
        (tokenizeLoop input file xml rounds (offset + scan.width)).map fun result =>
          (⟨scan.mark, scan.taken, spanAt input file offset⟩ :: result.1,
            scan.diagnostics ++ result.2) := by
  rw [tokenizeLoop, if_pos hoffset, slice_from hoffset.le]
  cases hscan : scanMarkup (spanAt input file offset) xml (input.drop offset) with
  | none => simp only [bind, Option.bind, hscan]
  | some scan =>
      cases hloop : tokenizeLoop input file xml rounds (offset + scan.width) with
      | none => simp only [bind, Option.bind, hscan, hloop, Option.map]
      | some result =>
          simp only [bind, Option.bind, hscan, hloop, Option.map]
          rfl

theorem lt_of_drop (hinput : input.drop offset = bytes ++ tail) (hne : bytes ≠ []) :
    offset < input.length := by
  have hlength := congrArg List.length hinput
  have hpos := List.length_pos_iff.mpr hne
  rw [List.length_drop, List.length_append] at hlength
  omega

theorem drop_of_drop (hinput : input.drop offset = bytes ++ tail) :
    input.drop (offset + bytes.length) = tail := by
  rw [← List.drop_drop, hinput, List.drop_left]

theorem exists_cover (hinput : input.drop offset = rest) (hrounds : rest.length ≤ rounds)
    (hends : ¬EndsInTag rest) : ∃ tokens diagnostics,
      tokenizeLoop input file xml rounds offset = some (tokens, diagnostics) ∧ Cover offset tokens rest := by
  induction rounds generalizing offset rest with
  | zero =>
      obtain rfl := List.eq_nil_of_length_eq_zero (Nat.le_zero.mp hrounds)
      exact ⟨[], [], rfl, .nil⟩
  | succ rounds ih =>
      by_cases hne : rest = []
      · subst hne
        exact ⟨[], [], tokenizeLoop_done (List.drop_eq_nil_iff.mp hinput), .nil⟩
      rcases @next_piece xml rest hne with ⟨bytes, tail, rfl, hbytes, hreads, htail⟩ | htag
      swap
      · exact absurd htag hends
      obtain ⟨scan, hscan, hwidth, hcovers⟩ := hreads (spanAt input file offset)
      have hpos := List.length_pos_iff.mpr hbytes
      rw [List.length_append] at hrounds
      obtain ⟨tokens, diagnostics, hloop, hcover⟩ :=
        ih (drop_of_drop hinput) (by omega) fun htag => hends (htail htag)
      have hstep := @tokenizeLoop_step input file xml rounds offset (lt_of_drop hinput hbytes)
      rw [hinput, hscan, Option.bind_some, hwidth, hloop, Option.map_some] at hstep
      exact ⟨_, _, hstep, .cons rfl hbytes hcovers hcover⟩

theorem first_of_loop (hoffset : offset < input.length)
    (hloop : tokenizeLoop input file xml (rounds + 1) offset = some (tokens, diagnostics)) :
    ∃ first later, tokens = first :: later ∧ first.span.offset = offset := by
  rw [tokenizeLoop_step hoffset, Option.bind_eq_some_iff] at hloop
  obtain ⟨scan, -, hresult⟩ := hloop
  obtain ⟨result, -, heq⟩ := Option.map_eq_some_iff.mp hresult
  obtain ⟨rfl, -⟩ := Prod.mk.inj heq
  exact ⟨_, _, rfl, rfl⟩

theorem offset_of_cover {token : Token} (hcover : Cover offset (token :: tokens) rest) :
    token.span.offset = offset := by
  cases hcover with
  | cons hoffset => exact hoffset

theorem not_cover_step (hinput : input.drop offset = bytes ++ tail) (hbytes : bytes ≠ []) (htail : tail ≠ [])
    (hreads : Reads xml bytes tail) (hrounds : (bytes ++ tail).length ≤ rounds)
    (hlater : ∀ rounds tokens diagnostics, tail.length ≤ rounds →
      tokenizeLoop input file xml rounds (offset + bytes.length) = some (tokens, diagnostics) →
        ¬Cover (offset + bytes.length) tokens tail)
    (hloop : tokenizeLoop input file xml rounds offset = some (tokens, diagnostics)) :
    ¬Cover offset tokens (bytes ++ tail) := by
  intro hcover
  have hpos := List.length_pos_iff.mpr hbytes
  have htailPos := List.length_pos_iff.mpr htail
  rw [List.length_append] at hrounds
  obtain ⟨rounds, rfl⟩ : ∃ less, rounds = less + 2 := ⟨rounds - 2, by omega⟩
  obtain ⟨scan, hscan, hwidth, -⟩ := hreads (spanAt input file offset)
  rw [tokenizeLoop_step (lt_of_drop hinput hbytes), hinput, hscan, Option.bind_some, hwidth,
    Option.map_eq_some_iff] at hloop
  obtain ⟨⟨later, laterDiagnostics⟩, hlaterLoop, heq⟩ := hloop
  obtain ⟨rfl, -⟩ := Prod.mk.inj heq
  have hdrop := drop_of_drop hinput
  have hoffset : offset + bytes.length < input.length := by
    refine @lt_of_drop input _ tail [] ?_ htail
    rw [List.append_nil]
    exact hdrop
  obtain ⟨next, more, rfl, hnext⟩ := first_of_loop hoffset hlaterLoop
  generalize hwhole : bytes ++ tail = whole at hcover
  cases hcover with
  | @cons _ _ _ bytes' rest' _ hne' hcovers' hrest' =>
      have hoffset' := offset_of_cover hrest'
      have hlength : bytes.length = bytes'.length := by
        rw [hnext] at hoffset'
        exact Nat.add_left_cancel hoffset'
      obtain ⟨rfl, rfl⟩ := List.append_inj hwhole hlength
      exact hlater _ _ _ (by omega) hlaterLoop hrest'

theorem not_cover_openTag (hinput : input.drop offset = 0x3C :: bytes) (hbytes : 0x3E ∉ bytes)
    (hopens : ¬Opens (0x3C :: bytes)) (hrounds : bytes.length < rounds)
    (hloop : tokenizeLoop input file xml rounds offset = some (tokens, diagnostics)) :
    ¬Cover offset tokens (0x3C :: bytes) := by
  intro hcover
  obtain ⟨rounds, rfl⟩ : ∃ less, rounds = less + 1 := ⟨rounds - 1, by omega⟩
  have hoffset : offset < input.length := @lt_of_drop _ _ (0x3C :: bytes) [] (by simpa using hinput) (by simp)
  have hlength := congrArg List.length hinput
  rw [List.length_drop, List.length_cons] at hlength
  rw [tokenizeLoop_step hoffset, hinput] at hloop
  rcases scanMarkup_openTag (spanAt input file offset) xml hbytes hopens with
    hscan | ⟨mark, complaints, hmark, hscan⟩
  · rw [hscan] at hloop
    cases hloop
  rw [hscan, Option.bind_some, tokenizeLoop_done (by simp only; omega), Option.map_some, Option.some_inj,
    Prod.mk.injEq] at hloop
  obtain ⟨rfl, -⟩ := hloop
  generalize hwhole : 0x3C :: bytes = whole at hcover
  cases hcover with
  | cons hoffset hne hcovers hrest =>
      cases hrest
      rw [List.append_nil] at hwhole
      subst hwhole
      rcases hcovers with hcut | hclosed
      · -- the last byte is missing
        rw [hmark] at hcut
        have hshort := congrArg List.length hcut
        simp only [List.length_cons, List.length_append, List.length_dropLast, List.length_nil] at hshort
        have hnil : bytes = [] := List.eq_nil_of_length_eq_zero (by omega)
        subst hnil
        cases hscan
      · rw [hmark] at hclosed
        have hmem : (0x3E : UInt8) ∈ 0x3C :: bytes := by
          rw [hclosed]
          simp
        rcases List.mem_cons.mp hmem with heq | hmem
        · exact absurd heq (by decide)
        · exact hbytes hmem

theorem not_cover_endsInTag {before body : List UInt8} (hwhole : Whole before)
    (hbody : 0x3E ∉ body) (hopens : ¬Opens (0x3C :: body))
    (hinput : input.drop offset = before ++ 0x3C :: body)
    (hrounds : (before ++ 0x3C :: body).length ≤ rounds)
    (hloop : tokenizeLoop input file xml rounds offset = some (tokens, diagnostics)) :
    ¬Cover offset tokens (before ++ 0x3C :: body) := by
  have htag : ∀ before : List UInt8, before ++ 0x3C :: body ≠ [] := by simp
  induction hwhole generalizing offset rounds tokens diagnostics with
  | nil => exact not_cover_openTag hinput hbody hopens hrounds hloop
  | @text run rest hne hrun hnext _ ih =>
      rw [List.append_assoc] at hinput hrounds ⊢
      have hreads : Reads xml run (rest ++ 0x3C :: body) := by
        refine reads_text hne hrun fun byte hbyte => ?_
        cases rest with
        | nil => exact (Option.some.inj hbyte).symm
        | cons first rest => exact hnext byte hbyte
      have hdrop := drop_of_drop hinput
      exact not_cover_step hinput hne (htag rest) hreads hrounds
        (fun _ _ _ hlong hlater => ih hdrop hlong hlater) hloop
  | @closed kind sectionBody rest hsection _ ih =>
      have hcut : kind.opening ++ (sectionBody ++ (kind.closing ++ rest)) ++ 0x3C :: body =
          (kind.opening ++ (sectionBody ++ kind.closing)) ++ (rest ++ 0x3C :: body) := by
        simp only [List.append_assoc]
      rw [hcut] at hinput hrounds ⊢
      have hne : kind.opening ++ (sectionBody ++ kind.closing) ≠ [] := by
        cases kind <;> exact List.cons_ne_nil _ _
      have hdrop := drop_of_drop hinput
      exact not_cover_step hinput hne (htag rest) (reads_section hsection) hrounds
        (fun _ _ _ hlong hlater => ih hdrop hlong hlater) hloop
  | @tag tagBody rest hend htagOpens _ ih =>
      have hcut : 0x3C :: (tagBody ++ 0x3E :: rest) ++ 0x3C :: body =
          (0x3C :: (tagBody ++ [0x3E])) ++ (rest ++ 0x3C :: body) := by simp
      rw [hcut] at hinput hrounds ⊢
      have hdrop := drop_of_drop hinput
      exact not_cover_step hinput (List.cons_ne_nil _ _) (htag rest) (reads_tag hend htagOpens) hrounds
        (fun _ _ _ hlong hlater => ih hdrop hlong hlater) hloop

theorem pairwise_of_cover (hcover : Cover offset tokens rest) :
    (tokens.map fun token => token.span.offset).Pairwise (· < ·) ∧
      ∀ token ∈ tokens, offset ≤ token.span.offset := by
  induction hcover with
  | nil => exact ⟨.nil, by simp⟩
  | @cons offset token tokens bytes rest hoffset hne _ _ ih =>
      obtain ⟨hpairwise, hlater⟩ := ih
      have hpos := List.length_pos_iff.mpr hne
      constructor
      · rw [List.map_cons, List.pairwise_cons]
        refine ⟨fun later hmem => ?_, hpairwise⟩
        obtain ⟨next, hnext, rfl⟩ := List.mem_map.mp hmem
        have hle := hlater next hnext
        omega
      · rw [List.forall_mem_cons]
        refine ⟨hoffset.ge, fun next hnext => ?_⟩
        have hle := hlater next hnext
        omega

end Runs

/-- The tokens cover an input exactly where it does not end in a tag without its end. -/
theorem tokenizeMarkup_complete_iff (input : List UInt8) (file : String) (xml : Bool) :
    Complete input file xml ↔ ¬EndsInTag input := by
  constructor
  · rintro ⟨tokens, diagnostics, htokens, -, hcover⟩ ⟨before, body, rfl, hwhole, hbody, hopens⟩
    exact not_cover_endsInTag hwhole hbody hopens rfl le_rfl htokens hcover
  · intro hends
    obtain ⟨tokens, diagnostics, htokens, hcover⟩ :=
      @exists_cover input file xml input.length 0 input rfl le_rfl hends
    exact ⟨tokens, diagnostics, htokens, (pairwise_of_cover hcover).1, hcover⟩

/-- For a last `<` the bounds of the slice are in the wrong order. -/
theorem not_complete_lessThan : ¬∀ input file xml, Complete input file xml := by
  intro hclaim
  obtain ⟨tokens, diagnostics, htokens, -⟩ := hclaim [0x3C] "" false
  have hpanics : tokenizeMarkup [0x3C] "" false = none := by rfl
  rw [hpanics] at htokens
  cases htokens

end Jayess.Webparse.Bytes
