import Mathlib.Algebra.GroupWithZero.Nat
import Jayess.Webparse.Node

/-! # Markup tokens -/

namespace Jayess.Webparse

/-- What a token says, by its type. -/
inductive Mark where
  | text (raw : List Char)
  | start (name : List Char) (attrs : List Attribute) (selfClosed : Bool)
  | stop (name : List Char)
  | comment (raw : List Char)
  | processing (raw : List Char)
  | cdata (raw : List Char)

structure Token where
  mark : Mark
  span : Span

def spanAt (input : List Char) (file : String) (offset : Nat) : Span :=
  let before := input.take offset
  let lines := before.filter (· = '\n')
  ⟨file, 1 + lines.length, 1 + (before.reverse.takeWhile (· ≠ '\n')).length,
    (before.map fun ch => ch.utf8Size).sum⟩

def endsAttrName (ch : Char) : Bool :=
  ch = '=' || ch = '/' || ch = '>' || ch = '"' || ch = '\'' || ch = ' ' || ch = '\t' || ch = '\n' ||
    ch = '\r'

def readAttrName (input : List Char) : List Char := input.takeWhile fun ch => !endsAttrName ch

def endsBareValue (ch : Char) : Bool := ch = ' ' || ch = '\t' || ch = '\n' || ch = '\r'

/-- The value, and the input after it. -/
def readAttrValue : List Char → List Char × List Char
  | [] => ([], [])
  | ch :: input =>
      if ch = '"' ∨ ch = '\'' then
        match Slices.indexOf [ch] input with
        | none => (input, [])
        | some stop => (input.take stop, input.drop (stop + 1))
      else
        ((ch :: input).takeWhile fun ch => !endsBareValue ch,
          (ch :: input).dropWhile fun ch => !endsBareValue ch)

section Tokens

variable (span : Span) (xml : Bool)

/-- A round reads a name, so that as many rounds as there are runes read the whole input. -/
def parseAttrsLoop : Nat → List Char → List Attribute × List Diagnostic
  | 0, _ => ([], [])
  | rounds + 1, input =>
      let input := trimSpace input
      let name := readAttrName input
      if name.isEmpty then ([], [])
      else
        match trimSpace (input.drop name.length) with
        | '=' :: input =>
            let (value, input) := readAttrValue (trimSpace input)
            let (attrs, diagnostics) := parseAttrsLoop rounds input
            (⟨name, value, false, span⟩ :: attrs, diagnostics)
        | input =>
            let (attrs, diagnostics) := parseAttrsLoop rounds input
            (⟨name, [], true, span⟩ :: attrs,
              if xml then ⟨"xml attribute missing value", span, false⟩ :: diagnostics
              else diagnostics)

def parseAttrs (input : List Char) : List Attribute × List Diagnostic :=
  parseAttrsLoop span xml input.length input

/-- `strings.TrimSuffix` with a slash. -/
def trimSlash (body : List Char) : List Char :=
  if body.getLast? = some '/' then body.dropLast else body

def parseTag (body : List Char) : Mark × List Diagnostic :=
  match body with
  | '/' :: name => (.stop (trimSpace name), [])
  | body =>
      let selfClosed := body.getLast? = some '/'
      let body := trimSpace (trimSlash body)
      let name := body.takeWhile (· ≠ ' ')
      let rest := (body.dropWhile (· ≠ ' ')).drop 1
      let (attrs, diagnostics) := parseAttrs span xml rest
      (.start name attrs selfClosed, diagnostics)

def commentOpening : List Char := ['<', '!', '-', '-']
def commentClosing : List Char := ['-', '-', '>']
def cdataOpening : List Char := ['<', '!', '[', 'C', 'D', 'A', 'T', 'A', '[']
def cdataClosing : List Char := [']', ']', '>']
def processingOpening : List Char := ['<', '?']
def processingClosing : List Char := ['?', '>']

structure Scan where
  mark : Mark
  diagnostics : List Diagnostic
  width : Nat

/-- A comment, a CDATA section or a processing instruction, up to its closing or to the end. -/
def scanSection (opening closing : List Char) (message : String) (mark : List Char → Mark)
    (rest : List Char) : Scan :=
  let body := rest.drop opening.length
  let (stop, diagnostics) := match Slices.indexOf closing body with
    | some stop => (stop, [])
    | none => (body.length, [⟨message, span, !xml⟩])
  let width := opening.length + stop
  let closed := closing.isPrefixOf (rest.drop width)
  ⟨mark (body.take stop), diagnostics, if closed then width + closing.length else width⟩

def scanComment : List Char → Scan :=
  scanSection span xml commentOpening commentClosing "unterminated comment" .comment

def scanCDATA : List Char → Scan :=
  scanSection span xml cdataOpening cdataClosing "unterminated cdata" .cdata

def scanProcessing : List Char → Scan :=
  scanSection span xml processingOpening processingClosing
    "unterminated processing instruction" fun raw => .processing (trimSpace raw)

def scanText (rest : List Char) : Scan :=
  let next := (Slices.indexOf ['<'] rest).getD rest.length
  ⟨.text (rest.take next), [], next⟩

/-- A tag up to the first `>`. Without one the end of the body is a rune before the end of the input:
for a last `<` the bounds of the slice are then in the wrong order, and the slice panics. -/
def scanTag (rest : List Char) : Option Scan :=
  let (stop, diagnostics) := match Slices.indexOf ['>'] rest with
    | some stop => (stop, [])
    | none => (rest.length - 1, [⟨"unterminated tag", span, !xml⟩])
  if stop < 1 then none
  else
    let (mark, complaints) := parseTag span xml (trimSpace ((rest.take stop).drop 1))
    some ⟨mark, diagnostics ++ complaints, stop + 1⟩

def scanMarkup (rest : List Char) : Option Scan :=
  if rest.head? ≠ some '<' then some (scanText rest)
  else if commentOpening.isPrefixOf rest then some (scanComment span xml rest)
  else if cdataOpening.isPrefixOf rest then some (scanCDATA span xml rest)
  else if processingOpening.isPrefixOf rest then some (scanProcessing span xml rest)
  else scanTag span xml rest

end Tokens

section Loop

variable (input : List Char) (file : String) (xml : Bool)

def tokenizeLoop : Nat → Nat → Option (List Token × List Diagnostic)
  | 0, _ => some ([], [])
  | rounds + 1, offset =>
      if offset < input.length then do
        let span := spanAt input file offset
        let scan ← scanMarkup span xml (input.drop offset)
        let (tokens, diagnostics) ← tokenizeLoop rounds (offset + scan.width)
        return (⟨scan.mark, span⟩ :: tokens, scan.diagnostics ++ diagnostics)
      else some ([], [])

def tokenizeMarkup : Option (List Token × List Diagnostic) :=
  tokenizeLoop input file xml input.length 0

end Loop

end Jayess.Webparse
