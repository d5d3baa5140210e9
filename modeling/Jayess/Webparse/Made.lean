import Jayess.Webparse.Legible

/-!
# What the parsers guarantee
-/

namespace Jayess.Webparse

open Slices (Trimmed)

def Mark.Made : Mark → Prop
  | .text raw => MadeLeaf .text raw
  | .start name attrs _ => MadeTag name attrs
  | .stop _ => True
  | .comment raw => MadeLeaf .comment raw
  | .processing raw => MadeLeaf .processing raw
  | .cdata raw => MadeLeaf .cdata raw

section Tokens

variable {span : Span} {xml : Bool} {input rest body : List Char}

theorem not_mem_trimSpace {ch : Char} (h : ch ∉ input) : ch ∉ trimSpace input :=
  fun hmem => h ((Slices.trim_infix isSpace input).subset hmem)

theorem not_mem_readAttrValue {ch : Char} (h : ch ∉ input) :
    ch ∉ (readAttrValue input).1 ∧ ch ∉ (readAttrValue input).2 := by
  cases input with
  | nil => simp [readAttrValue]
  | cons first input =>
      have hinput : ch ∉ input := fun hmem => h (List.mem_cons_of_mem _ hmem)
      by_cases hquote : first = '"' ∨ first = '\''
      · rw [readAttrValue, if_pos hquote]
        cases Slices.indexOf [first] input with
        | none => exact ⟨hinput, by simp⟩
        | some stop =>
            exact ⟨fun hmem => hinput (List.mem_of_mem_take hmem),
              fun hmem => hinput (List.mem_of_mem_drop hmem)⟩
      · rw [readAttrValue, if_neg hquote]
        exact ⟨fun hmem => h ((List.takeWhile_prefix fun ch => !endsBareValue ch).subset hmem),
          fun hmem => h ((List.dropWhile_suffix fun ch => !endsBareValue ch).subset hmem)⟩

theorem made_readAttrName (input : List Char) :
    (∀ ch ∈ readAttrName (trimSpace input), endsAttrName ch = false) ∧
      ∀ ch ∈ (readAttrName (trimSpace input)).head?, isSpace ch = false := by
  constructor
  · intro ch hch
    simpa using List.mem_takeWhile_imp hch
  · intro ch hch
    apply (Slices.trimmed_trim isSpace input).1 ch
    obtain ⟨more, hmore⟩ : readAttrName (trimSpace input) <+: trimSpace input :=
      List.takeWhile_prefix fun ch => !endsAttrName ch
    have hname : readAttrName (trimSpace input) ≠ [] := by
      intro hnil
      simp [hnil] at hch
    have hhead : (readAttrName (trimSpace input) ++ more).head? = some ch := by
      rw [List.head?_append_of_ne_nil _ hname]
      exact hch
    exact (congrArg List.head? hmore).symm.trans hhead

theorem made_parseAttrsLoop (rounds : Nat) (hinput : '>' ∉ input) :
    ∀ attr ∈ (parseAttrsLoop span xml rounds input).1, attr.Made := by
  induction rounds generalizing input with
  | zero => simp [parseAttrsLoop]
  | succ rounds ih =>
      have hname := made_readAttrName input
      have htrimmed : '>' ∉ trimSpace input := not_mem_trimSpace hinput
      have hafter : '>' ∉ trimSpace
          ((trimSpace input).drop (readAttrName (trimSpace input)).length) :=
        not_mem_trimSpace fun hmem => htrimmed (List.mem_of_mem_drop hmem)
      rw [parseAttrsLoop]
      dsimp only
      by_cases hempty : readAttrName (trimSpace input) = []
      · simp [hempty]
      · rw [if_neg (by simpa using hempty)]
        split
        next value heq =>
          rw [heq] at hafter
          have hvalue := not_mem_readAttrValue (not_mem_trimSpace
            fun hmem => hafter (List.mem_cons_of_mem _ hmem))
          intro attr hattr
          rw [List.mem_cons] at hattr
          rcases hattr with rfl | hattr
          · exact ⟨hempty, hname.1, hname.2, hvalue.1, fun h => by cases h⟩
          · exact ih hvalue.2 attr hattr
        next =>
          intro attr hattr
          rw [List.mem_cons] at hattr
          rcases hattr with rfl | hattr
          · exact ⟨hempty, hname.1, hname.2, by simp, fun _ => rfl⟩
          · exact ih hafter attr hattr

theorem trimSlash_prefix (body : List Char) : trimSlash body <+: body := by
  rw [trimSlash]
  split_ifs
  · exact List.dropLast_prefix body
  · exact List.prefix_refl body

theorem head_of_start {first second : List Char} (h : first <+: second) :
    ∀ ch ∈ first.head?, ch ∈ second.head? := by
  intro ch hch
  obtain ⟨more, rfl⟩ := h
  cases first with
  | nil => simp at hch
  | cons _ _ => exact hch

theorem made_parseTag (hbody : '>' ∉ body) (htrimmed : Trimmed isSpace body) :
    (parseTag span xml body).1.Made := by
  rw [parseTag.eq_def]
  dsimp only
  split
  next => trivial
  next hslash =>
    have hhead : ∀ ch ∈ body.head?, isSpace ch = false ∧ ch ≠ '/' := by
      intro ch hch
      refine ⟨htrimmed.1 ch hch, ?_⟩
      rintro rfl
      obtain ⟨rest, hrest⟩ := List.head?_eq_some_iff.mp hch
      exact hslash rest hrest
    have hslashed := trimSlash_prefix body
    have hstart : trimSpace (trimSlash body) <+: body := by
      apply List.IsPrefix.trans _ hslashed
      apply Slices.trim_prefix
      intro ch hch
      exact (hhead ch (head_of_start hslashed ch hch)).1
    have hname : (trimSpace (trimSlash body)).takeWhile (· ≠ ' ') <+: trimSpace (trimSlash body) :=
      List.takeWhile_prefix (· ≠ ' ')
    refine ⟨?_, ?_, ?_, ?_⟩
    · intro ch hch
      refine ⟨by simpa using List.mem_takeWhile_imp hch, ?_⟩
      rintro rfl
      exact hbody ((hname.trans hstart).subset hch)
    · intro ch hch
      exact hhead ch (head_of_start (hname.trans hstart) ch hch)
    · intro hnil
      have hrest : trimSpace (trimSlash body) = [] := by
        cases htag : trimSpace (trimSlash body) with
        | nil => rfl
        | cons ch tag =>
            have hch : isSpace ch = false := by
              apply (hhead ch (head_of_start hstart ch _)).1
              rw [htag]
              rfl
            by_cases hspace : ch = ' '
            · subst hspace
              cases hch
            · rw [htag] at hnil
              simp [hspace] at hnil
      simp [hrest, parseAttrs, parseAttrsLoop]
    · apply made_parseAttrsLoop
      intro hmem
      apply hbody
      apply hstart.subset
      exact (List.dropWhile_suffix (· ≠ ' ')).subset (List.mem_of_mem_drop hmem)

theorem made_scanSection {opening closing : List Char} {message : String}
    {mark : List Char → Mark} (hclosing : closing ≠ [])
    (hmark : ∀ raw, ¬closing <:+: raw → (mark raw).Made) :
    (scanSection span xml opening closing message mark rest).mark.Made := by
  rw [scanSection]
  cases hfound : Slices.indexOf closing (rest.drop opening.length) with
  | some stop =>
      apply hmark
      exact (Slices.indexOf_eq_some hfound).2 hclosing
  | none =>
      apply hmark
      rw [List.take_length]
      exact Slices.indexOf_eq_none hfound

theorem made_scanText : (scanText rest).mark.Made := by
  rw [scanText]
  change '<' ∉ rest.take _
  cases hfound : Slices.indexOf ['<'] rest with
  | some stop =>
      intro hmem
      apply (Slices.indexOf_eq_some hfound).2 (by simp)
      exact (List.singleton_infix_iff _ _).mpr hmem
  | none =>
      intro hmem
      apply Slices.indexOf_eq_none hfound
      exact (List.singleton_infix_iff _ _).mpr (List.mem_of_mem_take hmem)

theorem made_scanTag {scan : Scan} (h : scanTag span xml rest = some scan) : scan.mark.Made := by
  rw [scanTag] at h
  split at h
  next stop diagnostics heq =>
    have hbody : '>' ∉ rest.take stop := by
      cases hfound : Slices.indexOf ['>'] rest with
      | some found =>
          rw [hfound] at heq
          cases heq
          intro hmem
          apply (Slices.indexOf_eq_some hfound).2 (by simp)
          exact (List.singleton_infix_iff _ _).mpr hmem
      | none =>
          intro hmem
          apply Slices.indexOf_eq_none hfound
          exact (List.singleton_infix_iff _ _).mpr (List.mem_of_mem_take hmem)
    split_ifs at h
    cases h
    apply made_parseTag
    · apply not_mem_trimSpace
      exact fun hmem => hbody (List.mem_of_mem_drop hmem)
    · exact Slices.trimmed_trim isSpace _

theorem made_scanMarkup {scan : Scan} (h : scanMarkup span xml rest = some scan) :
    scan.mark.Made := by
  rw [scanMarkup] at h
  split_ifs at h
  · cases h
    exact made_scanText
  · cases h
    exact made_scanSection (by simp [commentClosing]) fun _ hraw => hraw
  · cases h
    exact made_scanSection (by simp [cdataClosing]) fun _ hraw => hraw
  · cases h
    apply made_scanSection (by simp [processingClosing])
    intro raw hraw
    exact ⟨fun hpart => hraw (hpart.trans (Slices.trim_infix isSpace raw)),
      Slices.trimmed_trim isSpace raw⟩
  · exact made_scanTag h

end Tokens

theorem made_tokenizeLoop {input : List Char} {file : String} {xml : Bool} {rounds offset : Nat}
    {tokens : List Token} {diagnostics : List Diagnostic}
    (h : tokenizeLoop input file xml rounds offset = some (tokens, diagnostics)) :
    ∀ token ∈ tokens, token.mark.Made := by
  induction rounds generalizing offset tokens diagnostics with
  | zero =>
      cases h
      simp
  | succ rounds ih =>
      rw [tokenizeLoop] at h
      split_ifs at h with hoffset
      · simp only [Option.bind_eq_bind, Option.bind_eq_some_iff, Option.pure_def,
          Option.some.injEq, Prod.exists, Prod.mk.injEq] at h
        obtain ⟨scan, hscan, tail, more, htail, rfl, -⟩ := h
        intro token htoken
        rw [List.mem_cons] at htoken
        rcases htoken with rfl | htoken
        · exact made_scanMarkup hscan
        · exact ih htail token htoken
      · cases h
        simp

/-- A node below the root of a parsed tree. -/
inductive Node.Made (xml : Bool) : Node → Prop where
  | element (name : List Char) (attributes : List Attribute) (children : List Node) (span : Span) :
      MadeTag name attributes → (xml = false → isHTMLVoid name = true → children = []) →
      (∀ child ∈ children, child.Made xml) → Node.Made xml (.element name attributes children span)
  | leaf (type : LeafType) (text : List Char) (span : Span) :
      MadeLeaf type text → (type = .text → text ≠ []) → Forest.keeps xml type = true →
      Node.Made xml (.leaf type text span)

structure OpenElement.Made (xml : Bool) (element : OpenElement) : Prop where
  tag : MadeTag element.name element.attributes
  void : xml = false → isHTMLVoid element.name = false
  children : ∀ child ∈ element.children, child.Made xml

structure Tree.Made (xml : Bool) (tree : Tree) : Prop where
  stack : ∀ element ∈ tree.stack, element.Made xml
  children : ∀ child ∈ tree.children, child.Made xml

namespace Tree.Made

variable {xml : Bool} {tree : Tree} {child : Node} {element : OpenElement}

theorem appendChild (h : tree.Made xml) (hchild : child.Made xml) :
    (tree.appendChild child).Made xml := by
  have hconcat : ∀ children : List Node, (∀ child ∈ children, child.Made xml) →
      ∀ node ∈ children ++ [child], node.Made xml := by
    intro children hchildren node hnode
    rw [List.mem_append, List.mem_singleton] at hnode
    rcases hnode with hnode | rfl
    · exact hchildren node hnode
    · exact hchild
  obtain ⟨stack, children⟩ := tree
  cases stack with
  | nil => exact ⟨h.stack, hconcat children h.children⟩
  | cons top below =>
      have htop : top.Made xml := h.stack top List.mem_cons_self
      refine ⟨?_, h.children⟩
      intro element helement
      rcases List.mem_cons.mp helement with rfl | helement
      · exact ⟨htop.tag, htop.void, hconcat top.children htop.children⟩
      · exact h.stack element (List.mem_cons_of_mem _ helement)

theorem push (h : tree.Made xml) (helement : element.Made xml) : (tree.push element).Made xml := by
  refine ⟨?_, h.children⟩
  intro other hother
  rcases List.mem_cons.mp hother with rfl | hother
  · exact helement
  · exact h.stack other hother

theorem node (helement : element.Made xml) : element.node.Made xml := by
  apply Node.Made.element
  · exact helement.tag
  · intro hxml hvoid
    rw [helement.void hxml] at hvoid
    cases hvoid
  · exact helement.children

theorem pop (h : tree.Made xml) : tree.pop.Made xml := by
  obtain ⟨stack, children⟩ := tree
  cases stack with
  | nil => exact h
  | cons top below =>
      have hbelow : Tree.Made xml ⟨below, children⟩ :=
        ⟨fun element helement => h.stack element (List.mem_cons_of_mem _ helement), h.children⟩
      exact hbelow.appendChild (node (h.stack top List.mem_cons_self))

theorem popMany (h : tree.Made xml) (count : Nat) : (tree.popMany count).Made xml := by
  induction count generalizing tree with
  | zero => exact h
  | succ count ih => exact ih h.pop

theorem pop_push (h : tree.Made xml) {name : List Char} {attrs : List Attribute} {span : Span}
    (htag : MadeTag name attrs) : (tree.push ⟨name, attrs, [], span⟩).pop.Made xml := by
  apply h.appendChild
  apply Node.Made.element
  · exact htag
  · exact fun _ _ => rfl
  · simp

theorem empty : Tree.empty.Made xml := ⟨by simp [Tree.empty], by simp [Tree.empty]⟩

theorem stepHTML (h : tree.Made false) {token : Token} (htoken : token.mark.Made) :
    (stepHTML tree token).1.Made false := by
  obtain ⟨mark, span⟩ := token
  cases mark with
  | text raw =>
      cases raw with
      | nil => exact h
      | cons ch raw => exact h.appendChild (.leaf _ _ _ htoken (fun _ => by simp) rfl)
  | comment raw => exact h.appendChild (.leaf _ _ _ htoken (fun htype => by cases htype) rfl)
  | processing raw => exact h
  | cdata raw => exact h
  | start name attrs selfClosed =>
      by_cases hclosed : selfClosed ∨ isHTMLVoid name
      · simp only [Webparse.stepHTML, hclosed, if_true]
        exact h.pop_push htoken
      · simp only [Webparse.stepHTML, hclosed, if_false]
        apply h.push
        refine ⟨htoken, fun _ => ?_, by simp⟩
        simpa using (not_or.mp hclosed).2
  | stop name =>
      simp only [Webparse.stepHTML]
      cases tree.stack.findIdx? fun element => element.name = name with
      | none => exact h
      | some found => exact h.popMany (found + 1)

theorem stepXML (h : tree.Made true) {token : Token} (htoken : token.mark.Made) :
    (stepXML tree token).1.Made true := by
  obtain ⟨mark, span⟩ := token
  cases mark with
  | text raw =>
      cases raw with
      | nil => exact h
      | cons ch raw => exact h.appendChild (.leaf _ _ _ htoken (fun _ => by simp) rfl)
  | comment raw => exact h.appendChild (.leaf _ _ _ htoken (fun htype => by cases htype) rfl)
  | processing raw => exact h.appendChild (.leaf _ _ _ htoken (fun htype => by cases htype) rfl)
  | cdata raw => exact h.appendChild (.leaf _ _ _ htoken (fun htype => by cases htype) rfl)
  | start name attrs selfClosed =>
      cases selfClosed with
      | true => exact h.pop_push htoken
      | false => exact h.push ⟨htoken, fun hxml => (by cases hxml), by simp⟩
  | stop name =>
      simp only [Webparse.stepXML]
      split
      next => exact h
      next =>
        split_ifs
        · exact h
        · exact h.pop

theorem parseTokens {step : Tree → Token → Tree × List Diagnostic}
    (hstep : ∀ tree, tree.Made xml → ∀ token, token.mark.Made → (step tree token).1.Made xml)
    (h : tree.Made xml) {tokens : List Token} (htokens : ∀ token ∈ tokens, token.mark.Made) :
    (parseTokens step tree tokens).1.Made xml := by
  induction tokens generalizing tree with
  | nil => exact h
  | cons token tokens ih =>
      rw [Webparse.parseTokens]
      apply ih
      · exact hstep tree h token (htokens token List.mem_cons_self)
      · exact fun token htoken => htokens token (List.mem_cons_of_mem _ htoken)

theorem close (h : tree.Made xml) : ∀ child ∈ tree.close, child.Made xml :=
  (h.popMany tree.stack.length).children

end Tree.Made

variable {input : List Char} {document : Document}

theorem made_parseHTML {file : String} {fragment : Bool}
    (h : parseHTML input file fragment = some document) :
    ∀ child ∈ document.root.children, child.Made false := by
  simp only [parseHTML, Option.bind_eq_bind, Option.bind_eq_some_iff, Option.pure_def,
    Option.some.injEq, Prod.exists] at h
  obtain ⟨tokens, diagnostics, htokens, rfl⟩ := h
  apply Tree.Made.close
  exact Tree.Made.parseTokens (fun _ h _ => h.stepHTML) Tree.Made.empty (made_tokenizeLoop htokens)

theorem made_parseXMLDocument (h : parseXMLDocument input = some document) :
    ∀ child ∈ document.root.children, child.Made true := by
  simp only [parseXMLDocument, Option.bind_eq_bind, Option.bind_eq_some_iff, Option.pure_def,
    Option.some.injEq, Prod.exists] at h
  obtain ⟨tokens, diagnostics, htokens, rfl⟩ := h
  apply Tree.Made.close
  exact Tree.Made.parseTokens (fun _ h _ => h.stepXML) Tree.Made.empty (made_tokenizeLoop htokens)

end Jayess.Webparse
