import Jayess.Webparse.Reading

/-! # Serialized trees as tokens -/

namespace Jayess.Webparse

structure Piece where
  spelling : List Char
  event : Event

def spell (pieces : List Piece) : List Char := pieces.flatMap Piece.spelling

def eventsOf (pieces : List Piece) : List Event := pieces.map Piece.event

def startPiece (xml selfClosed : Bool) (name : List Char) (attributes : List Attribute) : Piece :=
  ⟨'<' :: (spellBody xml selfClosed name attributes ++ ['>']),
    .start name (attributes.map Attribute.binding) selfClosed⟩

def stopPiece (name : List Char) : Piece := ⟨'<' :: '/' :: (name ++ ['>']), .stop name⟩

mutual

def Node.pieces (xml : Bool) : Node → List Piece
  | .document _ children _ => piecesOf xml children
  | .leaf type text _ => [⟨serializeLeaf type text, .leaf type text⟩]
  | .element name attributes children _ =>
      startPiece xml (children.isEmpty && xml) name attributes ::
        (piecesOf xml children ++ if children.isEmpty && xml then [] else [stopPiece name])

def piecesOf (xml : Bool) : List Node → List Piece
  | [] => []
  | child :: children => child.pieces xml ++ piecesOf xml children

end

mutual

theorem serializeNode_eq_spell (xml : Bool) :
    ∀ node : Node, serializeNode xml node = spell (node.pieces xml)
  | .document _ children _ => serializeNodes_eq_spell xml children
  | .leaf type text _ => by simp [serializeNode, Node.pieces, spell]
  | .element name attributes children _ => by
      have hchildren := serializeNodes_eq_spell xml children
      cases hclosed : children.isEmpty && xml with
      | true =>
          have hnil : children = [] := by
            rw [Bool.and_eq_true, List.isEmpty_iff] at hclosed
            exact hclosed.1
          subst hnil
          simp only [serializeNode, Node.pieces, hclosed, if_true]
          simp [piecesOf, spell, startPiece, spellBody, spellTag, spellSlash, spellAttributes]
      | false =>
          simp only [serializeNode, Node.pieces, hclosed, hchildren]
          simp [spell, startPiece, stopPiece, spellBody, spellTag, spellSlash, spellAttributes]

theorem serializeNodes_eq_spell (xml : Bool) :
    ∀ nodes : List Node, serializeNodes xml nodes = spell (piecesOf xml nodes)
  | [] => rfl
  | node :: nodes => by
      rw [serializeNodes, piecesOf, serializeNode_eq_spell xml node, serializeNodes_eq_spell xml nodes,
        spell, spell, spell, List.flatMap_append]

end

structure Piece.Text (piece : Piece) : Prop where
  event : piece.event = .leaf .text piece.spelling
  letters : '<' ∉ piece.spelling

section Tokens

variable {xml : Bool} {input rest : List Char} {file : String} {rounds offset : Nat}
  {tag : Piece → Event → Prop}

structure Piece.Scans (xml : Bool) (tag : Piece → Event → Prop) (piece : Piece) : Prop where
  opening : piece.spelling.head? = some '<'
  scanned : ∀ span rest, ∃ scan, scanMarkup span xml (piece.spelling ++ rest) = some scan ∧
    tag piece scan.mark.event ∧ scan.width = piece.spelling.length

/-- Events that pieces are read as, for what a piece that is no text is read as. -/
inductive Reads (tag : Piece → Event → Prop) : List Piece → List Event → Prop where
  | nil : Reads tag [] []
  | empty {piece : Piece} {pieces : List Piece} {events : List Event} : piece.Text →
      piece.spelling = [] → Reads tag pieces events → Reads tag (piece :: pieces) events
  | text {piece : Piece} {pieces : List Piece} {events : List Event} : piece.Text →
      Reads tag pieces events → Reads tag (piece :: pieces) (piece.event :: events)
  | join {first second : Piece} {pieces : List Piece} {events : List Event} : first.Text →
      second.Text → Reads tag (⟨first.spelling ++ second.spelling,
        .leaf .text (first.spelling ++ second.spelling)⟩ :: pieces) events →
      Reads tag (first :: second :: pieces) events
  | tag {piece : Piece} {event : Event} {pieces : List Piece} {events : List Event} :
      tag piece event → Reads tag pieces events → Reads tag (piece :: pieces) (event :: events)

def Tokenizes (xml : Bool) (input : List Char) (file : String) (rounds offset : Nat)
    (reads : List Event → Prop) : Prop :=
  ∃ tokens diagnostics, tokenizeLoop input file xml rounds offset = some (tokens, diagnostics) ∧
    reads (tokens.map fun token => token.mark.event)

theorem Tokenizes.mono {first second : List Event → Prop} (himp : ∀ events, first events →
    second events) (h : Tokenizes xml input file rounds offset first) :
    Tokenizes xml input file rounds offset second := by
  obtain ⟨tokens, diagnostics, htokens, hreads⟩ := h
  exact ⟨tokens, diagnostics, htokens, himp _ hreads⟩

theorem Tokenizes.done {reads : List Event → Prop} (h : input.drop offset = []) (hnil : reads []) :
    Tokenizes xml input file rounds offset reads := by
  refine ⟨[], [], ?_, hnil⟩
  have hlength : input.length ≤ offset := List.drop_eq_nil_iff.mp h
  cases rounds with
  | zero => rfl
  | succ rounds => rw [tokenizeLoop, if_neg (by omega)]

theorem Tokenizes.step {spelling : List Char} {event : Event → Prop}
    {tail reads : List Event → Prop}
    (hscan : ∀ span, ∃ scan, scanMarkup span xml (spelling ++ rest) = some scan ∧
      event scan.mark.event ∧ scan.width = spelling.length)
    (hne : spelling ≠ []) (hinput : input.drop offset = spelling ++ rest)
    (hcons : ∀ first, event first → ∀ events, tail events → reads (first :: events))
    (htail : Tokenizes xml input file rounds (offset + spelling.length) tail) :
    Tokenizes xml input file (rounds + 1) offset reads := by
  obtain ⟨scan, hscanned, hevent, hwidth⟩ := hscan (spanAt input file offset)
  obtain ⟨tokens, diagnostics, htokens, hreads⟩ := htail
  have hoffset : offset < input.length := by
    apply Nat.lt_of_not_le
    intro hle
    rw [List.drop_eq_nil_of_le hle] at hinput
    exact hne (List.append_eq_nil_iff.mp hinput.symm).1
  refine ⟨⟨scan.mark, spanAt input file offset⟩ :: tokens, scan.diagnostics ++ diagnostics, ?_, ?_⟩
  · rw [tokenizeLoop, if_pos hoffset, hinput]
    simp [hscanned, hwidth, htokens]
  · exact hcons scan.mark.event hevent _ hreads

theorem drop_spelling {spelling : List Char} (h : input.drop offset = spelling ++ rest) :
    input.drop (offset + spelling.length) = rest := by
  rw [← List.drop_drop, h, List.drop_left]

/-- Texts that stand side by side are put together first, so that the induction is on the number
of pieces. -/
theorem tokenizes_pieces (pieces : List Piece)
    (hpieces : ∀ piece ∈ pieces, piece.Scans xml tag ∨ piece.Text) (rounds offset : Nat)
    (hinput : input.drop offset = spell pieces) (hrounds : (spell pieces).length ≤ rounds) :
    Tokenizes xml input file rounds offset (Reads tag pieces) := by
  induction hcount : pieces.length using Nat.strong_induction_on generalizing pieces rounds offset
    with
  | _ count ih =>
  cases pieces with
  | nil => exact Tokenizes.done hinput Reads.nil
  | cons piece pieces =>
      have htail : ∀ piece ∈ pieces, piece.Scans xml tag ∨ piece.Text :=
        fun piece h => hpieces piece (List.mem_cons_of_mem _ h)
      have hspell : spell (piece :: pieces) = piece.spelling ++ spell pieces := rfl
      rw [hspell] at hinput hrounds
      rw [List.length_append] at hrounds
      rw [List.length_cons] at hcount
      have hnext : ∀ rounds, (spell pieces).length ≤ rounds →
          Tokenizes xml input file rounds (offset + piece.spelling.length) (Reads tag pieces) :=
        fun rounds hle => ih pieces.length (by omega) pieces htail rounds _
          (drop_spelling hinput) hle rfl
      by_cases hempty : piece.spelling = []
      · -- an empty text is not read
        have htext : piece.Text := by
          rcases hpieces piece List.mem_cons_self with htag | htext
          · have hopening := htag.opening
            simp [hempty] at hopening
          · exact htext
        have hrest := hnext rounds (by omega)
        rw [hempty, List.length_nil, Nat.add_zero] at hrest
        exact hrest.mono fun events => Reads.empty htext hempty
      · have hlength : 0 < piece.spelling.length := List.length_pos_iff.mpr hempty
        cases rounds with
        | zero => omega
        | succ rounds =>
            rcases hpieces piece List.mem_cons_self with htag | htext
            · apply Tokenizes.step _ hempty hinput _ (hnext rounds (by omega))
              · exact tag piece
              · exact fun span => htag.scanned span (spell pieces)
              · exact fun first hfirst events => Reads.tag hfirst
            · have hread : (∀ ch ∈ (spell pieces).head?, ch = '<') →
                  Tokenizes xml input file (rounds + 1) offset (Reads tag (piece :: pieces)) := by
                intro hrest
                apply Tokenizes.step _ hempty hinput _ (hnext rounds (by omega))
                · exact fun event => event = piece.event
                · intro span
                  refine ⟨_, scanMarkup_text hempty htext.letters hrest, ?_, rfl⟩
                  exact htext.event.symm
                · rintro first rfl events
                  exact Reads.text htext
              cases pieces with
              | nil => exact hread (by simp [spell])
              | cons next pieces =>
                  rcases htail next List.mem_cons_self with hnextTag | hnextText
                  · apply hread
                    intro ch hch
                    have hopening := hnextTag.opening
                    have hne : next.spelling ≠ [] := by
                      intro hnil
                      simp [hnil] at hopening
                    rw [spell, List.flatMap_cons, List.head?_append_of_ne_nil _ hne, hopening] at hch
                    simpa using hch.symm
                  · -- both texts as one piece
                    let joined : Piece := ⟨piece.spelling ++ next.spelling,
                      .leaf .text (piece.spelling ++ next.spelling)⟩
                    have hjoined : joined.Text :=
                      ⟨rfl, by simp [joined, htext.letters, hnextText.letters]⟩
                    have hspellJoined : spell (joined :: pieces) =
                        piece.spelling ++ spell (next :: pieces) := by
                      simp [spell, joined]
                    have hall : ∀ other ∈ joined :: pieces, other.Scans xml tag ∨ other.Text := by
                      intro other hother
                      rcases List.mem_cons.mp hother with rfl | hother
                      · exact Or.inr hjoined
                      · exact htail other (List.mem_cons_of_mem _ hother)
                    have hread := ih (pieces.length + 1)
                      (by rw [← hcount, List.length_cons]; omega) (joined :: pieces) hall
                      (rounds + 1) offset (by rw [hspellJoined, hinput])
                      (by rw [hspellJoined, List.length_append]; exact hrounds) rfl
                    exact hread.mono fun events => Reads.join htext hnextText

end Tokens

end Jayess.Webparse
