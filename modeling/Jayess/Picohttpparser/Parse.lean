import Jayess.Number.ParseInt
import Jayess.Text.Lines

/-!
# Heads of requests and responses
-/

namespace Jayess.Picohttpparser

open Jayess.Slices Lines

def malformedInput : String := "malformed-http-input"

def incompleteData : String := "incomplete-http-data"

def crlf : List UInt8 := [0x0D, 0x0A]

structure Header where
  name : List UInt8
  value : List UInt8

structure Request where
  method : List UInt8
  path : List UInt8
  version : List UInt8
  headers : List Header

structure Response where
  version : List UInt8
  statusCode : Int64
  reason : List UInt8
  headers : List Header

/-- `HTTP/`. -/
def protocol : List UInt8 := [0x48, 0x54, 0x54, 0x50, 0x2F]

def headerBlock (input : List UInt8) : Except String (List UInt8) :=
  match indexOf (crlf ++ crlf) input with
  | some stop => .ok (input.take stop)
  | none =>
      match indexOf [0x0A, 0x0A] input with
      | some stop => .ok (input.take stop)
      | none => .error (incompleteData ++ ": missing header terminator")

def malformedHeader : String := malformedInput ++ ": malformed header"

def headerName (line : List UInt8) : List UInt8 := White.trimSpace (line.takeWhile (· ≠ 0x3A))

def parseHeaders : List (List UInt8) → Except String (List Header)
  | [] => .ok []
  | line :: lines =>
      if line = [] then parseHeaders lines
      else if 0x3A ∉ line ∨ headerName line = [] then .error malformedHeader
      else
        (parseHeaders lines).map fun headers =>
          ⟨headerName line, White.trimSpace (line.dropWhile (· ≠ 0x3A)).tail⟩ :: headers

/-- The start line of a head, which is made into a result with the headers. -/
def parseHead {α : Type} (startLine : List UInt8 → Except String (List Header → α)) (what : String)
    (input : List UInt8) : Except String α := do
  let head ← headerBlock input
  match splitLines head with
  | [] => throw (malformedInput ++ ": missing " ++ what)
  | first :: lines =>
      let make ← startLine first
      let headers ← parseHeaders lines
      return make headers

def requestLine (line : List UInt8) : Except String (List Header → Request) :=
  match White.fields line with
  | [method, path, version] =>
      if protocol.isPrefixOf version then .ok fun headers => ⟨method, path, version, headers⟩
      else .error (malformedInput ++ ": malformed request line")
  | _ => .error (malformedInput ++ ": malformed request line")

def parseRequest (input : List UInt8) : Except String Request := parseHead requestLine "request line" input

/-- The third part may be missing. -/
def statusLine (line : List UInt8) : Except String (List Header → Response) :=
  match splitN 0x20 3 line with
  | version :: status :: reason =>
      if protocol.isPrefixOf version then
        match ParseInt.parseInt 10 status with
        | some code => .ok fun headers => ⟨version, code, reason.headD [], headers⟩
        | none => .error (malformedInput ++ ": malformed response status")
      else .error (malformedInput ++ ": malformed response line")
  | _ => .error (malformedInput ++ ": malformed response line")

def parseResponse (input : List UInt8) : Except String Response := parseHead statusLine "response line" input

structure StartLine {α : Type} (startLine : List UInt8 → Except String (List Header → α)) : Prop where
  concat : ∀ {line message}, startLine line = .error message → startLine (line ++ [0x0D]) = .error message
  message : ∀ {line message}, startLine line = .error message → message ≠ malformedHeader

theorem requestLine_startLine : StartLine requestLine where
  concat := by
    intro line message hline
    rw [requestLine, White.fields_return]
    exact hline
  message := by
    intro line message hline
    rw [requestLine] at hline
    split at hline
    · split_ifs at hline
      cases hline
      decide
    · cases hline
      decide

theorem statusLine_startLine : StartLine statusLine where
  concat := by
    intro line message hline
    obtain ⟨parts, last, hsplit, hconcat⟩ :=
      @splitN_concat 0x20 0x0D (by decide) 2 line
    rw [statusLine, hsplit] at hline
    rw [statusLine, hconcat]
    rcases parts with _ | ⟨version, _ | ⟨status, reason⟩⟩
    · exact hline
    · -- the carriage return is no part of a number
      have hstatus : ParseInt.parseInt 10 (last ++ [0x0D]) = none :=
        ParseInt.parseInt_concat (by decide) (by decide) (by decide) last
      simp only [List.cons_append, List.nil_append, hstatus] at hline ⊢
      split_ifs at hline ⊢
      · cases hparse : ParseInt.parseInt 10 last with
        | none =>
            rw [hparse] at hline
            exact hline
        | some code =>
            rw [hparse] at hline
            cases hline
      · exact hline
    · simp only [List.cons_append] at hline ⊢
      split_ifs at hline ⊢
      · cases hparse : ParseInt.parseInt 10 status with
        | none =>
            rw [hparse] at hline
            exact hline
        | some code =>
            rw [hparse] at hline
            cases hline
      · exact hline
  message := by
    intro line message hline
    rw [statusLine] at hline
    split at hline
    · split_ifs at hline
      · split at hline
        · cases hline
        · cases hline
          decide
      · cases hline
        decide
    · cases hline
      decide

section Headers

variable {line rest : List UInt8} {lines : List (List UInt8)}

def Nameless (line : List UInt8) : Prop := 0x3A ∈ line ∧ headerName line = []

def Malformed (line : List UInt8) : Prop := line ≠ [] ∧ (0x3A ∉ line ∨ Nameless line)

theorem Nameless.malformed (hnameless : Nameless line) : Malformed line :=
  ⟨List.ne_nil_of_mem hnameless.1, .inr hnameless⟩

theorem malformed_iff : Malformed line ↔ line ≠ [] ∧ (0x3A ∉ line ∨ headerName line = []) := by
  rw [Malformed, Nameless]
  by_cases hcolon : 0x3A ∈ line
  · simp [hcolon]
  · simp [hcolon]

theorem parseHeaders_error (hmalformed : ∃ line ∈ lines, Malformed line) :
    parseHeaders lines = .error malformedHeader := by
  induction lines with
  | nil => simp at hmalformed
  | cons line lines ih =>
      rw [parseHeaders]
      by_cases hline : Malformed line
      · obtain ⟨hne, hrefused⟩ := malformed_iff.mp hline
        rw [if_neg hne, if_pos hrefused]
      have hlater : ∃ line ∈ lines, Malformed line := by
        obtain ⟨later, hlater, hmalformed⟩ := hmalformed
        rcases List.mem_cons.mp hlater with rfl | hlater
        · exact absurd hmalformed hline
        · exact ⟨later, hlater, hmalformed⟩
      rw [ih hlater]
      split_ifs <;> rfl

theorem parseHeaders_ok (hwellFormed : ∀ line ∈ lines, ¬Malformed line) :
    ∃ headers, parseHeaders lines = .ok headers := by
  induction lines with
  | nil => exact ⟨[], rfl⟩
  | cons line lines ih =>
      rw [List.forall_mem_cons] at hwellFormed
      obtain ⟨headers, hheaders⟩ := ih hwellFormed.2
      rw [parseHeaders, hheaders]
      by_cases hnil : line = []
      · exact ⟨headers, if_pos hnil⟩
      · have hline : ¬(0x3A ∉ line ∨ headerName line = []) :=
          fun hrefused => hwellFormed.1 (malformed_iff.mpr ⟨hnil, hrefused⟩)
        rw [if_neg hnil, if_neg hline]
        exact ⟨_, rfl⟩

theorem headerName_append (hcolon : 0x3A ∈ line) : headerName (line ++ rest) = headerName line := by
  obtain ⟨name, tail, rfl, hname⟩ := List.eq_append_cons_of_mem hcolon
  rw [headerName, headerName, List.append_assoc, List.cons_append, (cut_eq hname).1, (cut_eq hname).1]

theorem nameless_append_iff (hcolon : 0x3A ∈ line) : Nameless (line ++ rest) ↔ Nameless line := by
  rw [Nameless, Nameless, headerName_append hcolon]
  simp [hcolon]

end Headers

end Jayess.Picohttpparser
