import Jayess.Webparse.Made
import Jayess.Webparse.Misreading
import Jayess.Webparse.Pieces

/-!
# Serialized trees are read back
-/

namespace Jayess.Webparse

/-- A property of the tags of every element below the root; an element is self-closed, or not. -/
inductive Node.Elements (property : Bool → List Char → List Attribute → Prop) (xml : Bool) :
    Node → Prop where
  | element (name : List Char) (attributes : List Attribute) (children : List Node) (span : Span) :
      property (children.isEmpty && xml) name attributes →
      (∀ child ∈ children, child.Elements property xml) →
      Node.Elements property xml (.element name attributes children span)
  | leaf (type : LeafType) (text : List Char) (span : Span) :
      Node.Elements property xml (.leaf type text span)

/-- The tags of every element are read back. -/
def Node.Legible (xml : Bool) : Node → Prop := Node.Elements (LegibleTag xml) xml

/-- No name is part of another kind of token, and the closing tags that are written are read. -/
def Node.Plain (xml : Bool) : Node → Prop :=
  Node.Elements (fun selfClosed name _ => PlainTag selfClosed name) xml

section Legible

variable {xml : Bool}

variable {tag : Piece → Event → Prop}

theorem scans_startPiece {selfClosed : Bool} {name : List Char} {attributes : List Attribute}
    (hmade : MadeTag name attributes) (hname : opensSection name = false)
    (htag : ∀ span, tag (startPiece xml selfClosed name attributes)
      (parseTag span xml (trimSpace (spellBody xml selfClosed name attributes))).1.event) :
    (startPiece xml selfClosed name attributes).Scans xml tag := by
  refine ⟨rfl, fun span rest => ?_⟩
  have hscan := @scanMarkup_startTag span xml selfClosed name attributes rest hmade hname
  exact ⟨_, by simpa [startPiece] using hscan, htag span, by simp [startPiece]⟩

theorem scans_stopPiece {name : List Char} {attributes : List Attribute}
    (hmade : MadeTag name attributes) (hends : endsInSpace name = false)
    (htag : tag (stopPiece name) (.stop name)) :
    (stopPiece name).Scans xml tag := by
  refine ⟨rfl, fun span rest => ⟨⟨.stop name, [], name.length + 3⟩, ?_, htag, ?_⟩⟩
  · have hscan := @scanMarkup_stop span xml name attributes rest hmade hends
    rw [← hscan, stopPiece]
    simp
  · simp [stopPiece]

def leafPiece (type : LeafType) (text : List Char) : Piece :=
  ⟨serializeLeaf type text, .leaf type text⟩

theorem scans_or_text_leafPiece {type : LeafType} {text : List Char} (hmade : MadeLeaf type text)
    (htag : tag (leafPiece type text) (.leaf type text)) :
    (leafPiece type text).Scans xml tag ∨ (leafPiece type text).Text := by
  by_cases htype : type = .text
  · subst htype
    exact Or.inr ⟨rfl, hmade⟩
  · refine Or.inl ⟨?_, fun span rest => ⟨_, scanMarkup_leaf htype hmade, ?_, rfl⟩⟩
    · cases type <;> first | exact absurd rfl htype | rfl
    · cases type <;> exact htag

theorem mem_piecesOf {piece : Piece} {nodes : List Node} :
    piece ∈ piecesOf xml nodes ↔ ∃ node ∈ nodes, piece ∈ node.pieces xml := by
  induction nodes with
  | nil => simp [piecesOf]
  | cons node nodes ih => simp [piecesOf, ih]

theorem Node.Elements.mono {first second : Bool → List Char → List Attribute → Prop}
    (himp : ∀ selfClosed name attributes, first selfClosed name attributes →
      second selfClosed name attributes) {node : Node} (h : node.Elements first xml) :
    node.Elements second xml := by
  induction h with
  | element name attributes children span htag _ ih =>
      exact Node.Elements.element name attributes children span (himp _ _ _ htag) ih
  | leaf type text span => exact Node.Elements.leaf type text span

theorem Node.Elements.pieces {node : Node}
    (h : node.Elements (fun selfClosed name attributes => PlainTag selfClosed name ∧
      (MadeTag name attributes → ∀ span, tag (startPiece xml selfClosed name attributes)
        (parseTag span xml (trimSpace (spellBody xml selfClosed name attributes))).1.event)) xml)
    (hmade : node.Made xml) (hbare : ∀ piece, piece.event.label? = none → tag piece piece.event) :
    ∀ piece ∈ node.pieces xml, piece.Scans xml tag ∨ piece.Text := by
  induction h with
  | leaf type text span =>
      cases hmade with
      | leaf _ _ _ htext _ _ =>
          intro piece hpiece
          rw [Node.pieces, List.mem_singleton] at hpiece
          subst hpiece
          exact scans_or_text_leafPiece htext (hbare _ rfl)
  | element name attributes children span htag _ ih =>
      cases hmade with
      | element _ _ _ _ hmadeTag _ hmadeChildren =>
          intro piece hpiece
          rw [Node.pieces, List.mem_cons, List.mem_append, mem_piecesOf] at hpiece
          rcases hpiece with rfl | ⟨child, hchild, hpiece⟩ | hpiece
          · exact Or.inl (scans_startPiece hmadeTag htag.1.opening (htag.2 hmadeTag))
          · exact ih child hchild (hmadeChildren child hchild) piece hpiece
          · split_ifs at hpiece with hclosed
            · simp at hpiece
            · rw [List.mem_singleton] at hpiece
              subst hpiece
              apply Or.inl
              apply scans_stopPiece hmadeTag _ (hbare _ rfl)
              exact htag.1.closing (by simpa using hclosed)

end Legible

namespace Forest

variable {xml : Bool} {forest : Forest}

def Open (xml : Bool) (forest : Forest) : Prop :=
  xml = false → ∀ element ∈ forest.stack, isHTMLVoid element.name = false

def addAll (forest : Forest) (nodes : List Node) : Forest :=
  nodes.foldl (fun forest node => forest.add node.outline) forest

theorem Open.add (h : forest.Open xml) (child : Outline) : (forest.add child).Open xml := by
  intro hxml element helement
  obtain ⟨stack, children⟩ := forest
  cases stack with
  | nil => exact h hxml element helement
  | cons top below =>
      rcases List.mem_cons.mp helement with rfl | helement
      · exact h hxml top List.mem_cons_self
      · exact h hxml element (List.mem_cons_of_mem _ helement)

theorem Open.push (h : forest.Open xml) {element : OpenOutline}
    (helement : xml = false → isHTMLVoid element.name = false) : (forest.push element).Open xml := by
  intro hxml other hother
  rcases List.mem_cons.mp hother with rfl | hother
  · exact helement hxml
  · exact h hxml other hother

theorem addAll_push (name : List Char) (attributes : List (List Char × List Char))
    (before : List Outline) (nodes : List Node) :
    (forest.push ⟨name, attributes, before⟩).addAll nodes =
      forest.push ⟨name, attributes, outlines before nodes⟩ := by
  induction nodes generalizing before with
  | nil => rfl
  | cons node nodes ih =>
      rw [addAll, List.foldl_cons, outlines]
      apply ih

theorem closed_push (name : List Char) (attributes : List (List Char × List Char))
    (children : List Outline) :
    (forest.push ⟨name, attributes, children⟩).closed xml name = 1 := by
  cases xml <;> simp [closed, push, List.findIdx?_cons]

theorem closed_void (h : forest.Open false) {name : List Char} (hvoid : isHTMLVoid name = true) :
    forest.closed false name = 0 := by
  have hnone : forest.stack.findIdx? (fun element => element.name = name) = none := by
    rw [List.findIdx?_eq_none_iff]
    intro element helement
    rw [decide_eq_false_iff_not]
    rintro rfl
    rw [h rfl element helement] at hvoid
    cases hvoid
  rw [closed, hnone]
  rfl

end Forest

section Run

variable {xml : Bool}

theorem eventsOf_piecesOf_cons (node : Node) (nodes : List Node) :
    eventsOf (piecesOf xml (node :: nodes)) =
      eventsOf (node.pieces xml) ++ eventsOf (piecesOf xml nodes) := by
  rw [piecesOf, eventsOf, eventsOf, eventsOf, List.map_append]

theorem run_piecesOf {nodes : List Node} {forest : Forest} (hopen : forest.Open xml)
    (hnode : ∀ node ∈ nodes, ∀ forest : Forest, forest.Open xml →
      forest.run xml (eventsOf (node.pieces xml)) = forest.add node.outline) :
    forest.run xml (eventsOf (piecesOf xml nodes)) = forest.addAll nodes := by
  induction nodes generalizing forest with
  | nil => rfl
  | cons node nodes ih =>
      rw [eventsOf_piecesOf_cons, Forest.run_append, hnode node List.mem_cons_self forest hopen]
      apply ih (hopen.add _)
      exact fun node h => hnode node (List.mem_cons_of_mem _ h)

theorem Node.Made.run_pieces {node : Node} (hmade : node.Made xml) :
    ∀ forest : Forest, forest.Open xml →
      forest.run xml (eventsOf (node.pieces xml)) = forest.add node.outline := by
  induction hmade with
  | leaf type text span htext hne hkeeps =>
      intro forest hopen
      have hkept : ¬(type = .text ∧ text = [] ∨ Forest.keeps xml type = false) := by
        rw [hkeeps]
        rintro (⟨htype, hempty⟩ | hfalse)
        · exact hne htype hempty
        · cases hfalse
      rw [Node.pieces, eventsOf, List.map_singleton, Forest.run, List.foldl_cons, List.foldl_nil,
        Forest.step, if_neg hkept, Node.outline]
  | element name attributes children span htag hvoid hchildren ih =>
      intro forest hopen
      have hstart : ∀ forest : Forest, forest.run xml (eventsOf
            ((Node.element name attributes children span).pieces xml)) =
          ((forest.step xml (.start name (attributes.map Attribute.binding)
            (children.isEmpty && xml))).run xml (eventsOf (piecesOf xml children))).run xml
              (eventsOf (if children.isEmpty && xml then [] else [stopPiece name])) := by
        intro forest
        rw [Node.pieces, eventsOf, List.map_cons, List.map_append, Forest.run, List.foldl_cons,
          List.foldl_append]
        rfl
      rw [hstart, Node.outline]
      by_cases hclosed : (children.isEmpty && xml) = true ∨ xml = false ∧ isHTMLVoid name
      · -- the element is closed as it opens, and has no children
        have hnil : children = [] := by
          rcases hclosed with hclosed | hclosed
          · rw [Bool.and_eq_true, List.isEmpty_iff] at hclosed
            exact hclosed.1
          · exact hvoid hclosed.1 hclosed.2
        subst hnil
        rw [Forest.step, if_pos hclosed, Forest.pop_push]
        cases xml with
        | true => rfl
        | false =>
            have hname : isHTMLVoid name = true := by simpa using hclosed
            have hcount := Forest.closed_void (hopen.add (OpenOutline.outline
              ⟨name, attributes.map Attribute.binding, []⟩)) hname
            simp only [Bool.and_false, Bool.false_eq_true, if_false, piecesOf, eventsOf,
              List.map_nil, List.map_cons, Forest.run, List.foldl_nil, List.foldl_cons, stopPiece,
              Forest.step, hcount]
            rfl
      · have hopened : (children.isEmpty && xml) = false := by
          simpa using (not_or.mp hclosed).1
        have hname : xml = false → isHTMLVoid name = false := by
          intro hxml
          simpa [hxml] using (not_or.mp hclosed).2
        rw [Forest.step, if_neg hclosed, hopened]
        simp only [Bool.false_eq_true, if_false]
        have hpush := @Forest.Open.push xml forest hopen
          ⟨name, attributes.map Attribute.binding, []⟩ hname
        rw [run_piecesOf hpush ih, Forest.addAll_push, eventsOf,
          List.map_singleton, Forest.run, List.foldl_cons, List.foldl_nil, stopPiece, Forest.step,
          Forest.closed_push]
        rfl

end Run

section Readings

variable {xml : Bool} {pieces : List Piece} {events : List Event}

theorem Reads.run_eq (h : Reads (fun piece event => event = piece.event) pieces events) :
    ∀ forest : Forest, forest.run xml events = forest.run xml (eventsOf pieces) := by
  induction h with
  | nil => exact fun _ => rfl
  | empty htext hempty _ ih =>
      intro forest
      rw [ih, eventsOf, eventsOf, List.map_cons, Forest.run, Forest.run, List.foldl_cons,
        htext.event, hempty]
      simp [Forest.step]
  | text htext _ ih =>
      intro forest
      rw [eventsOf, List.map_cons, Forest.run, Forest.run, List.foldl_cons, List.foldl_cons]
      apply ih
  | join hfirst hsecond _ ih =>
      intro forest
      rw [ih, eventsOf, eventsOf, List.map_cons, List.map_cons, List.map_cons, hfirst.event,
        hsecond.event, Forest.run, Forest.run, List.foldl_cons, List.foldl_cons, List.foldl_cons,
        Forest.step_text_append]
  | tag htag _ ih =>
      intro forest
      subst htag
      rw [eventsOf, List.map_cons, Forest.run, Forest.run, List.foldl_cons, List.foldl_cons]
      apply ih

def Piece.Readable (xml : Bool) (piece : Piece) : Prop :=
  ∀ selfClosed name attributes, (selfClosed = true → xml = true) → MadeTag name attributes →
    PlainTag selfClosed name → piece = startPiece xml selfClosed name attributes →
      LegibleTag xml selfClosed name attributes

variable {piece : Piece}

theorem Piece.Text.readable (h : piece.Text) : piece.Readable xml := by
  rintro selfClosed name attributes - - - rfl
  have hevent := h.event
  cases hevent

/-- What a plain piece can be read as: a start tag is legible where it is read with its own name
and attributes. -/
structure Admits (xml : Bool) (piece : Piece) (event : Event) : Prop where
  bare : piece.event.label? = none → event.label? = none
  readable : event.label? = piece.event.label? → piece.Readable xml

def labels (events : List Event) : List Label := events.filterMap Event.label?

theorem labels_cons (event : Event) (events : List Event) :
    labels (event :: events) = event.label?.toList ++ labels events := by
  cases h : event.label? <;> simp [labels, h]

theorem labels_text (h : piece.Text) (events : List Event) :
    labels (piece.event :: events) = labels events := by
  rw [labels_cons, h.event]
  rfl

theorem Reads.length_labels (h : Reads (Admits xml) pieces events) :
    (labels events).length ≤ (labels (eventsOf pieces)).length := by
  induction h with
  | nil => exact le_refl _
  | empty htext _ _ ih => rwa [eventsOf, List.map_cons, labels_text htext]
  | text htext _ ih => rwa [eventsOf, List.map_cons, labels_text htext, labels_text htext]
  | join hfirst hsecond _ ih =>
      rw [eventsOf, List.map_cons, List.map_cons, labels_text hfirst, labels_text hsecond]
      rwa [eventsOf, List.map_cons, labels_cons] at ih
  | @tag piece event pieces events htag _ ih =>
      rw [eventsOf, List.map_cons, labels_cons, labels_cons, List.length_append,
        List.length_append]
      apply Nat.add_le_add _ ih
      cases hlabel : piece.event.label? with
      | none => rw [htag.bare hlabel]
      | some _ => cases event.label? <;> simp

theorem Reads.readable (h : Reads (Admits xml) pieces events)
    (heq : labels events = labels (eventsOf pieces)) : ∀ piece ∈ pieces, piece.Readable xml := by
  induction h with
  | nil => simp
  | empty htext _ _ ih =>
      rw [eventsOf, List.map_cons, labels_text htext] at heq
      exact List.forall_mem_cons.mpr ⟨htext.readable, ih heq⟩
  | text htext _ ih =>
      rw [eventsOf, List.map_cons, labels_text htext, labels_text htext] at heq
      exact List.forall_mem_cons.mpr ⟨htext.readable, ih heq⟩
  | join hfirst hsecond _ ih =>
      rw [eventsOf, List.map_cons, List.map_cons, labels_text hfirst, labels_text hsecond] at heq
      have hrest := (List.forall_mem_cons.mp (ih heq)).2
      exact List.forall_mem_cons.mpr ⟨hfirst.readable,
        List.forall_mem_cons.mpr ⟨hsecond.readable, hrest⟩⟩
  | @tag piece event pieces events htag hreads ih =>
      rw [eventsOf, List.map_cons, labels_cons, labels_cons] at heq
      have hlength := hreads.length_labels
      have hevent : event.label? = piece.event.label? := by
        cases hlabel : piece.event.label? with
        | none => exact htag.bare hlabel
        | some label =>
            rw [hlabel] at heq
            cases hread : event.label? with
            | some other =>
                rw [hread] at heq
                simp only [Option.toList_some, List.cons_append, List.cons.injEq] at heq
                rw [heq.1]
            | none =>
                -- one element fewer is read than written
                rw [hread] at heq
                have hcount := congrArg List.length heq
                simp only [Option.toList_none, Option.toList_some, List.nil_append,
                  List.cons_append, List.length_cons] at hcount
                rw [eventsOf] at hlength
                omega
      rw [hevent] at heq
      exact List.forall_mem_cons.mpr ⟨htag.readable hevent, ih (List.append_cancel_left heq)⟩

theorem admits_self (h : piece.event.label? = none) :
    Admits xml piece piece.event := by
  refine ⟨fun hnone => hnone, fun _ => ?_⟩
  rintro selfClosed name attributes - - - rfl
  cases h

theorem label_eq_some {event : Event} {label : Label} (h : event.label? = some label) :
    ∃ closed, event = .start label.1 label.2 closed := by
  cases event with
  | start name attributes selfClosed =>
      cases h
      exact ⟨selfClosed, rfl⟩
  | leaf _ _ => cases h
  | stop _ => cases h

theorem admits_startPiece {span : Span} {selfClosed : Bool} {name : List Char}
    {attributes : List Attribute} :
    Admits xml (startPiece xml selfClosed name attributes)
      (parseTag span xml (trimSpace (spellBody xml selfClosed name attributes))).1.event := by
  have hstart : (startPiece xml selfClosed name attributes).event.label? =
      some (name, attributes.map Attribute.binding) := rfl
  refine ⟨fun h => absurd (hstart.symm.trans h) (by simp), fun hlabel => ?_⟩
  intro otherClosed otherName otherAttributes hxml hmade hplain heq
  have hspelling : spellBody xml selfClosed name attributes =
      spellBody xml otherClosed otherName otherAttributes := by
    have hspell := congrArg Piece.spelling heq
    simpa [startPiece] using hspell
  have hevent := congrArg (fun piece : Piece => piece.event.label?) heq
  rw [← hlabel, hspelling] at hevent
  obtain ⟨closed, hread⟩ := label_eq_some hevent
  exact legible_of_read hmade hplain hxml hread

end Readings

def Document.Legible (xml : Bool) (document : Document) : Prop :=
  ∀ child ∈ document.root.children, child.Legible xml

def Document.Plain (xml : Bool) (document : Document) : Prop :=
  ∀ child ∈ document.root.children, child.Plain xml

/-- The serialized tree is parsed to the same tree. -/
def ReadBack (parse : List Char → Option Document) (serialize : Node → List Char)
    (document : Document) : Prop :=
  ∃ again, parse (serialize document.root) = some again ∧
    again.root.outline = document.root.outline

def Token.event (token : Token) : Event := token.mark.event

/-- What both parsers do with the tokens of their input. -/
structure Parses (xml : Bool) (parse : List Char → Option Document) : Prop where
  tokens : ∀ input document, parse input = some document →
    ∃ tokens diagnostics, tokenizeMarkup input "" xml = some (tokens, diagnostics) ∧
      document.root.outline =
        .document (Forest.empty.run xml (tokens.map Token.event)).close
  parsed : ∀ input tokens diagnostics, tokenizeMarkup input "" xml = some (tokens, diagnostics) →
    ∃ document, parse input = some document
  root : ∀ input document, parse input = some document →
    ∃ name span, document.root = .document name document.root.children span
  made : ∀ input document, parse input = some document →
    ∀ child ∈ document.root.children, child.Made xml

theorem outline_parseTokens {step : Tree → Token → Tree × List Diagnostic} {xml : Bool}
    (hstep : ∀ tree token, (step tree token).1.forest = tree.forest.step xml token.mark.event)
    (tokens : List Token) (name : String) (span : Span) :
    (Node.document name (parseTokens step Tree.empty tokens).1.close span).outline =
      .document (Forest.empty.run xml (tokens.map Token.event)).close := by
  rw [Node.outline, Tree.outlines_close, forest_parseTokens hstep]
  rfl

theorem parses_parseHTMLFragment : Parses false parseHTMLFragment := by
  refine ⟨?_, ?_, ?_, fun input document => made_parseHTML⟩
  · intro input document h
    simp only [parseHTMLFragment, parseHTML, Option.bind_eq_bind, Option.bind_eq_some_iff,
      Option.pure_def, Option.some.injEq, Prod.exists] at h
    obtain ⟨tokens, diagnostics, htokens, rfl⟩ := h
    exact ⟨tokens, diagnostics, htokens, outline_parseTokens outline_stepHTML tokens _ _⟩
  · intro input tokens diagnostics h
    simp [parseHTMLFragment, parseHTML, h]
  · intro input document h
    simp only [parseHTMLFragment, parseHTML, Option.bind_eq_bind, Option.bind_eq_some_iff,
      Option.pure_def, Option.some.injEq, Prod.exists] at h
    obtain ⟨tokens, diagnostics, -, rfl⟩ := h
    exact ⟨_, _, rfl⟩

theorem parses_parseXMLDocument : Parses true parseXMLDocument := by
  refine ⟨?_, ?_, ?_, fun input document => made_parseXMLDocument⟩
  · intro input document h
    simp only [parseXMLDocument, Option.bind_eq_bind, Option.bind_eq_some_iff,
      Option.pure_def, Option.some.injEq, Prod.exists] at h
    obtain ⟨tokens, diagnostics, htokens, rfl⟩ := h
    exact ⟨tokens, diagnostics, htokens, outline_parseTokens outline_stepXML tokens _ _⟩
  · intro input tokens diagnostics h
    simp [parseXMLDocument, h]
  · intro input document h
    simp only [parseXMLDocument, Option.bind_eq_bind, Option.bind_eq_some_iff,
      Option.pure_def, Option.some.injEq, Prod.exists] at h
    obtain ⟨tokens, diagnostics, -, rfl⟩ := h
    exact ⟨_, _, rfl⟩

section Documents

variable {xml : Bool} {parse : List Char → Option Document} {input : List Char}
  {document : Document}

theorem Forest.addAll_root (before : List Outline) (nodes : List Node) :
    (Forest.mk [] before).addAll nodes = ⟨[], outlines before nodes⟩ := by
  induction nodes generalizing before with
  | nil => rfl
  | cons node nodes ih =>
      rw [Forest.addAll, List.foldl_cons, outlines]
      apply ih

theorem Parses.run_pieces (hparses : Parses xml parse) (h : parse input = some document) :
    Outline.document (Forest.empty.run xml
        (eventsOf (piecesOf xml document.root.children))).close = document.root.outline := by
  obtain ⟨name, span, hroot⟩ := hparses.root input document h
  have hopen : Forest.empty.Open xml := by simp [Forest.Open, Forest.empty]
  rw [run_piecesOf hopen fun node hnode => (hparses.made input document h node hnode).run_pieces,
    Forest.empty, Forest.addAll_root]
  conv_rhs => rw [hroot, Node.outline]
  rfl

theorem Parses.spell_pieces (hparses : Parses xml parse) (h : parse input = some document) :
    serializeNode xml document.root = spell (piecesOf xml document.root.children) := by
  obtain ⟨name, span, hroot⟩ := hparses.root input document h
  conv_lhs => rw [hroot]
  apply serializeNodes_eq_spell

theorem scans_children {tag : Piece → Event → Prop} {nodes : List Node}
    (hnodes : ∀ node ∈ nodes, node.Elements (fun selfClosed name attributes =>
      PlainTag selfClosed name ∧ (MadeTag name attributes → ∀ span,
        tag (startPiece xml selfClosed name attributes)
          (parseTag span xml (trimSpace (spellBody xml selfClosed name attributes))).1.event)) xml)
    (hmade : ∀ node ∈ nodes, node.Made xml)
    (hbare : ∀ piece, piece.event.label? = none → tag piece piece.event) :
    ∀ piece ∈ piecesOf xml nodes, piece.Scans xml tag ∨ piece.Text := by
  intro piece hpiece
  obtain ⟨node, hnode, hpiece⟩ := mem_piecesOf.mp hpiece
  exact (hnodes node hnode).pieces (hmade node hnode) hbare piece hpiece

theorem Parses.readBack (hparses : Parses xml parse) (h : parse input = some document)
    (hlegible : document.Legible xml) : ReadBack parse (serializeNode xml) document := by
  have hscans := @scans_children xml (fun piece event => event = piece.event)
    document.root.children
    (fun node hnode => (hlegible node hnode).mono fun selfClosed name attributes htag =>
      ⟨htag.plain, fun hmade span => event_startTag hmade htag⟩)
    (hparses.made input document h) (fun _ _ => rfl)
  obtain ⟨tokens, diagnostics, htokens, hreads⟩ := @tokenizes_pieces xml
    (serializeNode xml document.root) "" _ _ hscans (serializeNode xml document.root).length 0
    (hparses.spell_pieces h) (by rw [hparses.spell_pieces h])
  obtain ⟨again, hagain⟩ := hparses.parsed _ _ _ htokens
  refine ⟨again, hagain, ?_⟩
  obtain ⟨others, complaints, hothers, houtline⟩ := hparses.tokens _ _ hagain
  rw [tokenizeMarkup, htokens] at hothers
  cases hothers
  calc
    again.root.outline = .document (Forest.empty.run xml (tokens.map Token.event)).close := houtline
    _ = .document (Forest.empty.run xml
        (eventsOf (piecesOf xml document.root.children))).close :=
      congrArg (fun forest : Forest => Outline.document forest.close) (hreads.run_eq Forest.empty)
    _ = document.root.outline := hparses.run_pieces h

theorem legible_of_readable {node : Node} (hplain : node.Plain xml) (hmade : node.Made xml)
    (hreadable : ∀ piece ∈ node.pieces xml, piece.Readable xml) : node.Legible xml := by
  induction hplain with
  | leaf type text span => exact Node.Elements.leaf type text span
  | element name attributes children span htag _ ih =>
      cases hmade with
      | element _ _ _ _ hmadeTag _ hmadeChildren =>
          have hstart := hreadable _ List.mem_cons_self
          apply Node.Elements.element
          · exact hstart _ name attributes (by simp) hmadeTag htag rfl
          · intro child hchild
            apply ih child hchild (hmadeChildren child hchild)
            intro piece hpiece
            apply hreadable
            rw [Node.pieces, List.mem_cons, List.mem_append, mem_piecesOf]
            exact Or.inr (Or.inl ⟨child, hchild, hpiece⟩)

/-- A plain document that is read back has legible tags: the elements of a tree come in the order of
their start tags, each of which is read from its own text. -/
theorem Parses.legible (hparses : Parses xml parse) (h : parse input = some document)
    (hplain : document.Plain xml) (hread : ReadBack parse (serializeNode xml) document) :
    document.Legible xml := by
  have hscans := @scans_children xml (Admits xml) document.root.children
    (fun node hnode => (hplain node hnode).mono fun selfClosed name attributes htag =>
      ⟨htag, fun _ _ => admits_startPiece⟩)
    (hparses.made input document h) (fun _ => admits_self)
  obtain ⟨tokens, diagnostics, htokens, hreads⟩ := @tokenizes_pieces xml
    (serializeNode xml document.root) "" _ _ hscans (serializeNode xml document.root).length 0
    (hparses.spell_pieces h) (by rw [hparses.spell_pieces h])
  obtain ⟨again, hagain, hsame⟩ := hread
  obtain ⟨others, complaints, hothers, houtline⟩ := hparses.tokens _ _ hagain
  rw [tokenizeMarkup, htokens] at hothers
  cases hothers
  have hclose : (Forest.empty.run xml (tokens.map Token.event)).close =
      (Forest.empty.run xml (eventsOf (piecesOf xml document.root.children))).close := by
    have hboth := (houtline.symm.trans hsame).trans (hparses.run_pieces h).symm
    simpa using hboth
  have hlabels : labels (tokens.map Token.event) =
      labels (eventsOf (piecesOf xml document.root.children)) := by
    have helements := congrArg elementsOf hclose
    rw [Forest.elementsOf_close, Forest.elementsOf_close, Forest.elements_run,
      Forest.elements_run] at helements
    exact List.append_cancel_left helements
  have hreadable := hreads.readable hlabels
  intro node hnode
  apply legible_of_readable (hplain node hnode) (hparses.made input document h node hnode)
  intro piece hpiece
  exact hreadable piece (mem_piecesOf.mpr ⟨node, hnode, hpiece⟩)

end Documents

/-- `<a b="1">x</a>` as it is parsed by both parsers, but for the kind of the document. -/
def quotedElement : Node :=
  .element ['a'] [⟨['b'], ['1'], false, ⟨"", 1, 1, 0⟩⟩] [.leaf .text ['x'] ⟨"", 1, 10, 9⟩]
    ⟨"", 1, 1, 0⟩

def quotedText : List Char :=
  ['<', 'a', ' ', 'b', '=', '"', '1', '"', '>', 'x', '<', '/', 'a', '>']

theorem quotedElement_legible (xml : Bool) : quotedElement.Legible xml := by
  have hclosed : ([Node.leaf .text ['x'] ⟨"", 1, 10, 9⟩].isEmpty && xml) = false := rfl
  apply Node.Elements.element
  · rw [hclosed]
    refine ⟨⟨rfl, fun _ => rfl⟩, ⟨fun _ => rfl, ?_, by simp, by simp⟩, by simp⟩
    intro _ last hlast hboolean
    simp only [List.getLast?_singleton, Option.mem_some_iff] at hlast
    subst hlast
    cases hboolean
  · intro child hchild
    rw [List.mem_singleton] at hchild
    subst hchild
    exact Node.Elements.leaf _ _ _

/-- The elements of a parsed tree and of the tree that its text is parsed to are not the same. -/
def changesElements (parse : List Char → Option Document) (serialize : Node → List Char)
    (input : List Char) : Bool :=
  match parse input with
  | none => false
  | some document =>
      match parse (serialize document.root) with
      | none => true
      | some again => again.root.outline.elements ≠ document.root.outline.elements

theorem not_readBack_of_changesElements {parse : List Char → Option Document}
    {serialize : Node → List Char} {input : List Char}
    (h : changesElements parse serialize input = true) :
    ∃ document, parse input = some document ∧ ¬ReadBack parse serialize document := by
  rw [changesElements] at h
  cases hparse : parse input with
  | none =>
      rw [hparse] at h
      cases h
  | some document =>
      refine ⟨document, rfl, ?_⟩
      rintro ⟨again, hagain, hsame⟩
      rw [hparse] at h
      dsimp only at h
      rw [hagain] at h
      exact of_decide_eq_true h (congrArg Outline.elements hsame)

/-- `<a b='"'>`, whose value is written between double quotes. -/
def singleQuotedText : List Char := ['<', 'a', ' ', 'b', '=', '\'', '"', '\'', '>']

end Jayess.Webparse
